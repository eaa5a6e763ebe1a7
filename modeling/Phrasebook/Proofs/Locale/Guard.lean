import Phrasebook.Locale.Guard
import Phrasebook.Locale.Merge
import Phrasebook.Proofs.Glue.Assignment
import Phrasebook.Settings.Check

/-!
# Guards and assignments

No line that assigns a key is a guard or ends a block, unless the table is called `end`. Which block
is guarded depends on the guards and on the ends of blocks alone, so edits of assignments can neither
open nor close a guard. The lines of a file fall into those before, in and after its region.
-/

namespace Phrasebook.Locale

open Text (isBlank isBlankText trimLeft)

variable {table : Text}

/-- The name that a line starts with. -/
def leadingName (line : Text) : Text :=
  (trimLeft line).takeWhile Readers.isNameChar

/-- What stands behind the name that a line starts with. -/
def afterName (line : Text) : Text :=
  trimLeft ((trimLeft line).dropWhile Readers.isNameChar)

/-- No blank may stand in a name. -/
theorem isNameChar_of_isBlank {c : Char} (h : isBlank c = true) : Readers.isNameChar c = false := by
  rw [Bool.eq_false_iff]
  intro hname
  simp only [Readers.isNameChar, Bool.or_eq_true, beq_iff_eq, Text.isAlphanum_iff] at hname
  rcases hname with hname | rfl
  · simp only [isBlank, Bool.or_eq_true, Bool.and_eq_true, decide_eq_true_eq, beq_iff_eq] at h
    omega
  · simp [isBlank] at h

/-- The characters of a name are word characters. -/
theorem isWordChar_of_isNameChar {c : Char} (h : Readers.isNameChar c = true) :
    Text.isWordChar c = true := by
  simp only [Readers.isNameChar, Bool.or_eq_true, beq_iff_eq] at h
  rcases h with h | rfl
  · exact Text.isWordChar_of_isAlphanum h
  · rfl

/-- A name has no blank at its front. -/
theorem isBlank_head_of_isName (htable : Readers.isName table = true) :
    table.head?.any isBlank = false := by
  cases table with
  | nil => simp [Readers.isName] at htable
  | cons c t =>
    simp only [Readers.isName, List.all_cons, Bool.and_eq_true] at htable
    cases hc : isBlank c with
    | true => simp [isNameChar_of_isBlank hc] at htable
    | false => simp [hc]

/-- A name starts with a character that is no blank. -/
theorem not_isBlank_head_of_isName (htable : Readers.isName table = true) :
    table.head?.any (fun c => !isBlank c) = true := by
  have hblank := isBlank_head_of_isName htable
  cases table with
  | nil => simp [Readers.isName] at htable
  | cons c t => simpa using hblank

/-- A text that the settings accept as a name is one, apart from a line feed behind it. -/
theorem exists_isName_of_name {t : Text} (h : Readers.name (.text t) = .ok t) :
    ∃ name, Readers.isName name = true ∧ (t = name ∨ t = name ++ ['\n']) := by
  have hname : Readers.isName (if t.getLast? = some '\n' then t.dropLast else t) = true := by
    cases t with
    | nil =>
      have hread : Readers.name (.text []) = .error .empty := rfl
      rw [hread] at h
      simp at h
    | cons c t =>
      have hread : Readers.name (.text (c :: t)) =
          if Readers.isName (if (c :: t).getLast? = some '\n' then (c :: t).dropLast else c :: t)
          then .ok (c :: t) else .error (.notName (c :: t)) := rfl
      by_contra hnot
      rw [hread, if_neg hnot] at h
      simp at h
  split_ifs at hname with hlast
  · obtain ⟨front, rfl⟩ := List.getLast?_eq_some_iff.1 hlast
    rw [List.dropLast_concat] at hname
    exact ⟨front, hname, Or.inr rfl⟩
  · exact ⟨t, hname, Or.inl rfl⟩

/-- A name at the front of a line ends where a character follows that may not stand in it. -/
theorem name_of_word {indent word rest : Text} (hindent : isBlankText indent = true)
    (hne : word ≠ []) (hword : word.all Readers.isNameChar = true)
    (hrest : rest.head?.any Readers.isNameChar = false) :
    leadingName (indent ++ (word ++ rest)) = word ∧
      afterName (indent ++ (word ++ rest)) = trimLeft rest := by
  have hall := List.all_eq_true.1 hword
  have hfront : trimLeft (indent ++ (word ++ rest)) = word ++ rest := by
    rw [Text.trimLeft_append_of_blank hindent]
    cases word with
    | nil => exact absurd rfl hne
    | cons c word =>
      cases hc : isBlank c with
      | true => simp [isNameChar_of_isBlank hc] at hword
      | false => exact Text.trimLeft_cons_of_not_blank hc _
  rw [leadingName, afterName, hfront, List.takeWhile_append_of_pos hall,
    List.dropWhile_append_of_pos hall]
  cases rest with
  | nil => simp
  | cons c rest =>
    have hc : Readers.isNameChar c = false := by simpa using hrest
    simp [hc]

/-- A line that assigns a key starts with the name of the table, and a bracket follows. -/
theorem name_of_assignsKey (htable : Readers.isName table = true) {line : Text}
    (h : assignsKey table line = true) :
    leadingName line = table ∧ (afterName line).head? = some '[' := by
  obtain ⟨key, hkey⟩ := Option.isSome_iff_exists.1 h
  obtain ⟨s, a, rest, hs, ha, rfl⟩ := Glue.exists_of_assignedKey? hkey
  have hne : table ≠ [] := by
    rintro rfl
    simp [Readers.isName] at htable
  have hstop : ∀ rest : Text, (a ++ '[' :: rest).head?.any Readers.isNameChar = false := by
    intro rest
    cases a with
    | nil => rfl
    | cons e a =>
      rw [Text.isBlankText_cons, Bool.and_eq_true] at ha
      simpa using isNameChar_of_isBlank ha.1
  obtain ⟨hname, hafter⟩ := name_of_word hs hne (Bool.and_eq_true_iff.1 htable).2 (hstop _)
  rw [hname, hafter, Text.trimLeft_append_of_blank ha, Text.trimLeft_cons_of_not_blank (by decide)]
  exact ⟨rfl, rfl⟩

/-- A line assigns no key when no bracket follows the name that it starts with. -/
theorem not_assignsKey_of_word (htable : Readers.isName table = true)
    {indent word rest : Text} (hindent : isBlankText indent = true) (hne : word ≠ [])
    (hword : word.all Readers.isNameChar = true)
    (hrest : rest.head?.any Readers.isNameChar = false) (hbracket : (trimLeft rest).head? ≠ some '[') :
    assignsKey table (indent ++ (word ++ rest)) = false := by
  cases h : assignsKey table (indent ++ (word ++ rest)) with
  | false => rfl
  | true =>
    have hafter := (name_of_assignsKey htable h).2
    rw [(name_of_word hindent hne hword hrest).2] at hafter
    exact absurd hafter hbracket

/-- A line that assigns a key is no guard. -/
theorem isGuard_of_assignsKey (htable : Readers.isName table = true) {line : Text}
    (h : assignsKey table line = true) : isGuard line = false := by
  unfold isGuard
  cases hif : Text.after? "if".toList (trimLeft line) with
  | none => rfl
  | some rest =>
    cases hlocale : Text.after? "locale".toList (trimLeft rest) with
    | none => simp only [hlocale, Bool.and_false]
    | some r =>
      cases hblank : rest.head?.any isBlank with
      | false => simp only [hblank, Bool.false_and]
      | true =>
        have hrest : rest.head?.any Readers.isNameChar = false := by
          cases rest with
          | nil => rfl
          | cons c rest => simpa using isNameChar_of_isBlank (by simpa using hblank)
        have hbracket : (trimLeft rest).head? ≠ some '[' := by
          rw [Text.after?_eq_some_iff.1 hlocale]
          simp
        have hnone := not_assignsKey_of_word htable (Text.isBlankText_indent line)
          (by simp) (show "if".toList.all Readers.isNameChar = true from rfl) hrest hbracket
        rw [← Text.after?_eq_some_iff.1 hif, Text.indent_append_trimLeft, h] at hnone
        simp at hnone

/-- A line that assigns a key ends no block, unless the table is called `end`. -/
theorem isBlockEnd_of_assignsKey (htable : Readers.isName table = true)
    (hend : table ≠ "end".toList) {line : Text} (h : assignsKey table line = true) :
    isBlockEnd line = false := by
  unfold isBlockEnd
  cases hword : Text.after? "end".toList (trimLeft line) with
  | none => rfl
  | some rest =>
    cases hrest : rest.head?.any Readers.isNameChar with
    | false =>
      have hname := (name_of_word (Text.isBlankText_indent line)
        (by simp) (show "end".toList.all Readers.isNameChar = true from rfl) hrest).1
      rw [← Text.after?_eq_some_iff.1 hword, Text.indent_append_trimLeft,
        (name_of_assignsKey htable h).1] at hname
      exact absurd hname hend
    | true =>
      cases rest with
      | nil => simp at hrest
      | cons c rest => simp [isWordChar_of_isNameChar (by simpa using hrest)]

/-- A guarded block lies between the first guard and the first line behind it that ends a block. -/
theorem guardedBlock?_eq_some_iff {lines : List Text} {start stop : Nat} :
    guardedBlock? lines = some (start, stop) ↔
      ∃ before guard inside fin after, lines = before ++ guard :: (inside ++ fin :: after) ∧
        (∀ line ∈ before, isGuard line = false) ∧ isGuard guard = true ∧
        (∀ line ∈ inside, isBlockEnd line = false) ∧ isBlockEnd fin = true ∧
        start = before.length ∧ stop = before.length + 1 + inside.length := by
  constructor
  · intro h
    unfold guardedBlock? at h
    split at h
    · simp at h
    · rename_i first hfirst
      obtain ⟨length, hlength, hpair⟩ := Option.map_eq_some_iff.1 h
      obtain ⟨rfl, rfl⟩ := Prod.mk.inj hpair
      obtain ⟨hlt, hguard, hbefore⟩ := List.findIdx?_eq_some_iff_getElem.1 hfirst
      obtain ⟨hlt', hfin, hinside⟩ := List.findIdx?_eq_some_iff_getElem.1 hlength
      refine ⟨lines.take first, lines[first], (lines.drop (first + 1)).take length,
        (lines.drop (first + 1))[length], (lines.drop (first + 1)).drop (length + 1),
        ?_, ?_, hguard, ?_, hfin, ?_, ?_⟩
      · rw [List.getElem_cons_drop, List.take_append_drop, List.getElem_cons_drop,
          List.take_append_drop]
      · intro line hline
        obtain ⟨i, hi, rfl⟩ := List.mem_take_iff_getElem.1 hline
        simpa using hbefore i (by omega)
      · intro line hline
        obtain ⟨i, hi, rfl⟩ := List.mem_take_iff_getElem.1 hline
        simpa using hinside i (by omega)
      · simp; omega
      · simp only [List.length_take]
        omega
  · rintro ⟨before, guard, inside, fin, after, rfl, hbefore, hguard, hinside, hfin, rfl, rfl⟩
    have hfirst : (before ++ guard :: (inside ++ fin :: after)).findIdx? isGuard =
        some before.length := by
      rw [List.findIdx?_append, List.findIdx?_eq_none_iff.2 hbefore]
      simp [List.findIdx?_cons, hguard]
    have hdrop : (before ++ guard :: (inside ++ fin :: after)).drop (before.length + 1) =
        inside ++ fin :: after := by
      rw [← List.singleton_append, ← List.append_assoc]
      exact List.drop_left' (by simp)
    have hlength : (inside ++ fin :: after).findIdx? isBlockEnd = some inside.length := by
      rw [List.findIdx?_append, List.findIdx?_eq_none_iff.2 hinside]
      simp [List.findIdx?_cons, hfin]
    simp only [guardedBlock?, hfirst, hdrop, hlength, Option.map_some]

/-- A file has a guarded block exactly when some guard stands before the end of a block. -/
theorem guardedBlock?_isSome_iff {lines : List Text} :
    (guardedBlock? lines).isSome = true ↔
      ∃ guard fin, isGuard guard = true ∧ isBlockEnd fin = true ∧ [guard, fin].Sublist lines := by
  constructor
  · intro h
    obtain ⟨⟨start, stop⟩, hblock⟩ := Option.isSome_iff_exists.1 h
    obtain ⟨before, guard, inside, fin, after, rfl, -, hguard, -, hfin, -, -⟩ :=
      guardedBlock?_eq_some_iff.1 hblock
    refine ⟨guard, fin, hguard, hfin, ?_⟩
    have hrest : [fin].Sublist (inside ++ fin :: after) := by simp
    exact (hrest.cons_cons guard).trans (List.sublist_append_right before _)
  · rintro ⟨guard, fin, hguard, hfin, hsub⟩
    obtain ⟨front, rest, rfl, hmem, hrest⟩ := List.cons_sublist_iff.1 hsub
    have hsome : (front.findIdx? isGuard).isSome = true :=
      List.findIdx?_isSome.trans (List.any_eq_true.2 ⟨guard, hmem, hguard⟩)
    obtain ⟨first, hfirst⟩ := Option.isSome_iff_exists.1 hsome
    obtain ⟨hlt, -, -⟩ := List.findIdx?_eq_some_iff_getElem.1 hfirst
    have hfirst' : (front ++ rest).findIdx? isGuard = some first := by
      rw [List.findIdx?_append, hfirst, Option.some_or]
    have hfin' : fin ∈ (front ++ rest).drop (first + 1) := by
      rw [List.drop_append_of_le_length (by omega)]
      exact List.mem_append_right _ (List.singleton_sublist.1 hrest)
    have hstop : (((front ++ rest).drop (first + 1)).findIdx? isBlockEnd).isSome = true :=
      List.findIdx?_isSome.trans (List.any_eq_true.2 ⟨fin, hfin', hfin⟩)
    simp only [guardedBlock?, hfirst', Option.isSome_map, hstop]

/-- Whether a line is a guard or ends a block. -/
def bounds (line : Text) : Bool :=
  isGuard line || isBlockEnd line

/-- Whether a file has a guarded block depends on its guards and ends of blocks only. -/
theorem guardedBlock?_isSome_congr {ls ms : List Text} (h : ls.filter bounds = ms.filter bounds) :
    (guardedBlock? ls).isSome = (guardedBlock? ms).isSome := by
  have hfilter : ∀ {ks : List Text} {guard fin : Text}, isGuard guard = true →
      isBlockEnd fin = true →
        ([guard, fin].Sublist ks ↔ [guard, fin].Sublist (ks.filter bounds)) := by
    intro ks guard fin hguard hfin
    refine ⟨fun hsub => ?_, fun hsub => hsub.trans List.filter_sublist⟩
    simpa [bounds, hguard, hfin] using hsub.filter bounds
  rw [Bool.eq_iff_iff, guardedBlock?_isSome_iff, guardedBlock?_isSome_iff]
  constructor
  · rintro ⟨guard, fin, hguard, hfin, hsub⟩
    refine ⟨guard, fin, hguard, hfin, (hfilter hguard hfin).2 ?_⟩
    exact h ▸ (hfilter hguard hfin).1 hsub
  · rintro ⟨guard, fin, hguard, hfin, hsub⟩
    refine ⟨guard, fin, hguard, hfin, (hfilter hguard hfin).2 ?_⟩
    exact h ▸ (hfilter hguard hfin).1 hsub

/-- A line that assigns a key bounds no block. -/
theorem bounds_of_assignsKey (htable : Readers.isName table = true) (hend : table ≠ "end".toList)
    {line : Text} (h : assignsKey table line = true) : bounds line = false := by
  rw [bounds, isGuard_of_assignsKey htable h, isBlockEnd_of_assignsKey htable hend h,
    Bool.or_false]

end Phrasebook.Locale
