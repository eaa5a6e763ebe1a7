import Phrasebook.Proofs.Glue.Assignment
import Phrasebook.Proofs.Text.Lines

/-!
# The references of a line

A line that assigns a key refers to it, since the search for look-ups goes over the blanks at its
front. A blank at the end of a line changes nothing about the keys that the line or its value looks
up.
-/

namespace Phrasebook.Glue

open Text (isBlank isBlankText isWordChar trimLeft)

variable {patterns : Patterns} {table : Text} {c : Char}

/-- No blank is a character of a word. -/
theorem isWordChar_of_isBlank (hc : isBlank c = true) : isWordChar c = false := by
  have hletters : ∀ n ∈ [0x85, 0xA0, 0x1680, 0x2000, 0x2001, 0x2002, 0x2003, 0x2004, 0x2005, 0x2006,
      0x2007, 0x2008, 0x2009, 0x200A, 0x2028, 0x2029, 0x202F, 0x205F, 0x3000],
      Text.inRanges Text.letterRanges n = false := by
    decide +kernel
  unfold isWordChar
  split_ifs with hsmall
  · rw [Bool.eq_false_iff]
    intro hword
    simp only [Bool.or_eq_true, beq_iff_eq, Text.isAlphanum_iff] at hword
    simp only [isBlank, Bool.or_eq_true, Bool.and_eq_true, decide_eq_true_eq, beq_iff_eq] at hc
    rcases hword with hword | rfl
    · omega
    · simp at hc
  · refine hletters _ ?_
    simp only [isBlank, Bool.or_eq_true, Bool.and_eq_true, decide_eq_true_eq, beq_iff_eq] at hc
    simp only [List.mem_cons, List.not_mem_nil, or_false]
    omega

/-- An opening with a blank behind it. -/
def Opening.appendBlank (c : Char) (o : Opening) : Opening :=
  { o with rest := o.rest ++ [c] }

/-- A blank at the end of a text is no part of an opening in front of it. -/
theorem opening?_append_blank (table t : Text) (hc : isBlank c = true) :
    opening? table (t ++ [c]) = (opening? table t).map (·.appendBlank c) := by
  have htrim : ∀ u : Text, isBlankText u = true → trimLeft (u ++ [c]) = [] ∧ trimLeft u = [] :=
    fun u hu => ⟨Text.trimLeft_eq_nil_iff.2 (by simp [hu, hc]), Text.trimLeft_eq_nil_iff.2 hu⟩
  unfold opening?
  cases hname : Text.after? table t with
  | none =>
    cases hlong : Text.after? table (t ++ [c]) with
    | none => rfl
    | some rest =>
      -- The name ends with the blank, so no bracket follows.
      cases rest using List.reverseRecOn with
      | nil => rfl
      | append_singleton rest d =>
        have hsplit := Text.after?_eq_some_iff.1 hlong
        rw [← List.append_assoc] at hsplit
        rw [Text.after?_eq_some_iff.2 (List.append_inj' hsplit rfl).1] at hname
        simp at hname
  | some rest =>
    have hlong : Text.after? table (t ++ [c]) = some (rest ++ [c]) := by
      rw [Text.after?_eq_some_iff, Text.after?_eq_some_iff.1 hname, List.append_assoc]
    simp only [hlong]
    cases hb : isBlankText rest with
    | true => simp only [htrim rest hb, Option.map_none]
    | false =>
      rw [Text.trimLeft_append_of_not_blank hb, Text.indent_append_of_not_blank hb]
      cases hbracket : trimLeft rest with
      | nil => simp [Text.trimLeft_eq_nil_iff.1 hbracket] at hb
      | cons d after =>
        by_cases hd : d = '['
        · subst hd
          simp only [List.cons_append]
          cases hblank : isBlankText after with
          | true => simp [htrim after hblank]
          | false =>
            rw [Text.trimLeft_append_of_not_blank hblank,
              Text.indent_append_of_not_blank hblank]
            cases hquote : trimLeft after with
            | nil => simp [Text.trimLeft_eq_nil_iff.1 hquote] at hblank
            | cons quote rest => split_ifs <;> simp_all [Opening.appendBlank]
        · simp [hd]

/-- A blank at the end of a text opens no look-up. -/
theorem openingsFrom_append_blank (table : Text) (hc : isBlank c = true) (skip : Nat)
    (previous : Option Char) (index : Nat) (t : Text) :
    openingsFrom table skip previous index (t ++ [c]) =
      (openingsFrom table skip previous index t).map fun found =>
        (found.1, found.2.appendBlank c) := by
  induction t generalizing skip previous index with
  | nil =>
    have hnone : opening? table [c] = none := by
      have hempty : opening? table [] = none := by
        unfold opening?
        cases table <;> rfl
      simpa [hempty] using opening?_append_blank table [] hc
    cases skip with
    | zero => simp [openingsFrom, hnone]
    | succ skip => rfl
  | cons d t ih =>
    have hopening := opening?_append_blank table (d :: t) hc
    rw [List.cons_append] at hopening ⊢
    cases skip with
    | succ skip => exact ih skip (some d) (index + 1)
    | zero =>
      simp only [openingsFrom, hopening]
      split_ifs
      · exact ih 0 (some d) (index + 1)
      · cases opening? table (d :: t) with
        | none => exact ih 0 (some d) (index + 1)
        | some opening =>
          simp only [Option.map_some, List.map_cons]
          rw [← ih]
          rfl

/-- A blank at the end of a line changes neither the keys that the line looks up nor the places
where it does so. -/
theorem references_append_blank (patterns : Patterns) (line : Text) (hc : isBlank c = true) :
    (references patterns (line ++ [c])).map (fun r => (r.key, r.start)) =
      (references patterns line).map fun r => (r.key, r.start) := by
  rw [references, openingsFrom_append_blank patterns.table hc, references, List.filterMap_map,
    List.map_filterMap, List.map_filterMap]
  refine List.filterMap_congr fun found _ => ?_
  simp only [Function.comp_apply, Opening.reference?, Opening.appendBlank,
    takeLiteral_append_blank found.2.rest hc]
  cases Source.takeLiteral found.2.rest with
  | none => rfl
  | some literal =>
    obtain ⟨key, rest⟩ := literal
    cases key <;> rfl

/-- A blank at the end of a line changes nothing about where the value starts. -/
theorem valueStart?_append_blank (table line : Text) (hc : isBlank c = true) :
    valueStart? table (line ++ [c]) = valueStart? table line := by
  rw [valueStart?, target?_append_blank table line hc, valueStart?, Option.map_map]
  refine Option.map_congr fun target _ => ?_
  simp only [Function.comp_apply, List.length_append, List.length_singleton]
  omega

/-- A blank at the end of a line changes nothing about the keys that its value looks up. -/
theorem valueReferences_append_blank (patterns : Patterns) (line : Text) (hc : isBlank c = true) :
    (valueReferences patterns (line ++ [c])).map (·.key) =
      (valueReferences patterns line).map (·.key) := by
  have hfilter : ∀ (start : Nat) (found : List Reference),
      (found.filter fun r => start ≤ r.start).map (·.key) =
        ((found.map fun r => (r.key, r.start)).filter fun e => start ≤ e.2).map (·.1) := by
    intro start found
    rw [List.filter_map, List.map_map]
    rfl
  unfold valueReferences
  rw [valueStart?_append_blank patterns.table line hc]
  cases valueStart? patterns.table line with
  | none => rfl
  | some start =>
    simp only
    rw [hfilter, hfilter, references_append_blank patterns line hc]

/-- The references of a value are references of the line. -/
theorem mem_references_of_mem_valueReferences {patterns : Patterns} {line : Text} {r : Reference}
    (h : r ∈ valueReferences patterns line) : r ∈ references patterns line := by
  unfold valueReferences at h
  split at h
  · simp at h
  · exact (List.mem_filter.1 h).1

/-- What is read back of a line looks up the same keys. -/
theorem map_key_references_readBack (patterns : Patterns) (newline : Text.Newline) (line : Text) :
    (references patterns (newline.readBack line)).map (·.key) =
      (references patterns line).map (·.key) := by
  rcases newline.exists_readBack line with h | h
  · rw [← h]
  · have hsame := congrArg (List.map Prod.fst)
      (references_append_blank patterns (newline.readBack line) (c := '\r') (by decide))
    rw [← h, List.map_map, List.map_map] at hsame
    exact hsame.symm

/-- What is read back of a line looks up the same keys in the value. -/
theorem map_key_valueReferences_readBack (patterns : Patterns) (newline : Text.Newline)
    (line : Text) :
    (valueReferences patterns (newline.readBack line)).map (·.key) =
      (valueReferences patterns line).map (·.key) := by
  rcases newline.exists_readBack line with h | h
  · rw [← h]
  · conv => rhs; rw [h]
    exact (valueReferences_append_blank patterns _ (by decide)).symm

/-- A key is looked up by what is read back of a line exactly when the line looks it up. -/
theorem exists_reference_readBack {patterns : Patterns} (newline : Text.Newline) {line key : Text} :
    (∃ r ∈ references patterns (newline.readBack line), r.key = key) ↔
      ∃ r ∈ references patterns line, r.key = key := by
  rw [← List.mem_map, map_key_references_readBack, List.mem_map]

/-- So it is for the look-ups in the value. -/
theorem exists_valueReference_readBack {patterns : Patterns} (newline : Text.Newline)
    {line key : Text} :
    (∃ r ∈ valueReferences patterns (newline.readBack line), r.key = key) ↔
      ∃ r ∈ valueReferences patterns line, r.key = key := by
  rw [← List.mem_map, map_key_valueReferences_readBack, List.mem_map]

/-- Blanks in front of a text open no look-up, and no word goes on behind them. -/
theorem openingsFrom_append_of_blank (htable : table.head?.any (fun c => !isBlank c) = true)
    {s : Text} (hs : isBlankText s = true) {previous : Option Char}
    (hprevious : previous.any isWordChar = false) (index : Nat) (t : Text) :
    ∃ previous', previous'.any isWordChar = false ∧
      openingsFrom table 0 previous index (s ++ t) =
        openingsFrom table 0 previous' (index + s.length) t := by
  induction s generalizing previous index with
  | nil => exact ⟨previous, hprevious, rfl⟩
  | cons d s ih =>
    obtain ⟨hd, hs'⟩ := Bool.and_eq_true_iff.1 hs
    have hnone : opening? table (d :: (s ++ t)) = none := by
      cases ho : opening? table (d :: (s ++ t)) with
      | none => rfl
      | some o =>
        obtain ⟨a, b, -, -, -, hsplit⟩ := opening?_eq_some ho
        cases table with
        | nil => simp at htable
        | cons e name =>
          obtain rfl : d = e := (List.cons.inj hsplit).1
          simp [hd] at htable
    have hword : (some d).any isWordChar = false := isWordChar_of_isBlank hd
    obtain ⟨previous', hnext, hrest⟩ := ih hs' hword (index + 1)
    refine ⟨previous', hnext, ?_⟩
    rw [List.cons_append, openingsFrom, if_neg (by simp [hprevious]), hnone]
    simp only [List.length_cons]
    rw [hrest, Nat.add_right_comm, Nat.add_assoc]

/-- A line that assigns a key looks it up. -/
theorem exists_reference_of_assignedKey? {line key : Text}
    (htable : patterns.table.head?.any (fun c => !isBlank c) = true)
    (h : assignedKey? patterns.table line = some key) :
    ∃ r ∈ references patterns line, r.key = key := by
  obtain ⟨target, htarget, rfl⟩ := Option.map_eq_some_iff.1 h
  obtain ⟨s, a, b, quote, e, d, hs, ha, hb, -, -, hquote, hkey, hraw, -, rfl⟩ :=
    target?_eq_some_iff.1 htarget
  have hliteral := Source.takeLiteral_eq_some_iff.2 ⟨quote, hquote, hraw,
    (rfl : quote :: target.key ++ quote :: (e ++ ']' :: (d ++ '=' :: target.value)) = _)⟩
  obtain ⟨o, hopen, hrest⟩ := exists_opening? patterns.table ha hb
    (by simpa using hquote : (quote :: target.key ++ quote :: (e ++ ']' ::
      (d ++ '=' :: target.value))).head?.any Source.isQuote = true)
  rw [← hrest] at hliteral hopen
  obtain ⟨previous, hprevious, hskip⟩ := openingsFrom_append_of_blank htable hs
    (show (none : Option Char).any isWordChar = false from rfl) 0
      (patterns.table ++ (a ++ '[' :: (b ++ o.rest)))
  obtain ⟨i, hmem⟩ : ∃ i, (i, o) ∈ openingsFrom patterns.table 0 none 0
      (s ++ (patterns.table ++ (a ++ '[' :: (b ++ o.rest)))) := by
    rw [hskip]
    cases hname : patterns.table ++ (a ++ '[' :: (b ++ o.rest)) with
    | nil => simp at hname
    | cons f rest =>
      rw [hname] at hopen
      rw [openingsFrom, if_neg (by simp [hprevious]), hopen]
      exact ⟨_, List.mem_cons_self⟩
  obtain ⟨f, k, hk⟩ := List.exists_cons_of_ne_nil hkey
  rw [← hrest]
  rw [hk] at hliteral ⊢
  obtain ⟨r, hr, hrkey⟩ : ∃ r, o.reference? patterns
      (s ++ (patterns.table ++ (a ++ '[' :: (b ++ o.rest)))) i = some r ∧ r.key = f :: k := by
    simp [Opening.reference?, hliteral]
  exact ⟨r, List.mem_filterMap.2 ⟨(i, o), hmem, hr⟩, hrkey⟩

end Phrasebook.Glue
