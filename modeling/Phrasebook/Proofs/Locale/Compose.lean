import Phrasebook.Proofs.Glue.Reference
import Phrasebook.Proofs.Locale.Frame
import Phrasebook.Proofs.Locale.Written

/-!
# One merge after another

A merge of a guarded file with some texts, and then with others, leaves what one merge with all of them
leaves, where the later texts override the earlier ones. The lines may differ: a key that is cleared and
set again comes last. What is read from the two regions is the same.
-/

namespace Phrasebook.Locale

open Text (isBlankText trimLeft)

variable {style : Style} {texts : KeyMap Text} {guarded : Bool} {table key : Text}

/-! ### Assignments that end a block -/

/-- Whether a text starts with a word, and the word ends there. -/
def startsWithWord (word t : Text) : Bool :=
  (Text.after? word t).any fun rest => !rest.head?.any Text.isWordChar

/-- Whether a text starts with a word is decided by what stands in front of a character that may not
stand in a word. -/
theorem startsWithWord_append {word : Text} (hword : word.all Text.isWordChar = true) (t : Text)
    {c d : Char} (hc : Text.isWordChar c = false) (hd : Text.isWordChar d = false) (u v : Text) :
    startsWithWord word (t ++ c :: u) = startsWithWord word (t ++ d :: v) := by
  induction word generalizing t with
  | nil => cases t <;> simp [startsWithWord, Text.after?, hc, hd]
  | cons e word ih =>
    rw [List.all_cons, Bool.and_eq_true] at hword
    cases t with
    | nil =>
      have hne : ∀ {f}, Text.isWordChar f = false → e ≠ f := by
        rintro f hf rfl
        simp [hf] at hword
      simp [startsWithWord, Text.after?, hne hc, hne hd]
    | cons f t =>
      by_cases hef : e = f
      · subst hef
        simpa [startsWithWord, Text.after?] using ih hword.2 t
      · simp [startsWithWord, Text.after?, hef]

/-- The end of a block starts with the word `end`. -/
theorem isBlockEnd_eq (line : Text) :
    isBlockEnd line = startsWithWord "end".toList (trimLeft line) := by
  unfold isBlockEnd startsWithWord
  cases Text.after? "end".toList (trimLeft line) <;> rfl

/-- Whether a line that assigns a key ends a block depends on the name of the table only. -/
theorem isBlockEnd_of_assigned {line : Text} (h : assignsKey table line = true) :
    isBlockEnd line = isBlockEnd (table ++ ['[']) := by
  obtain ⟨key, hkey⟩ := Option.isSome_iff_exists.1 h
  obtain ⟨s, a, rest, hs, ha, rfl⟩ := Glue.exists_of_assignedKey? hkey
  rw [isBlockEnd_eq, isBlockEnd_eq, Text.trimLeft_append_of_blank hs]
  have hword : "end".toList.all Text.isWordChar = true := by decide +kernel
  have hbracket : Text.isWordChar '[' = false := by decide +kernel
  cases hblank : isBlankText table with
  | true =>
    rw [Text.trimLeft_append_of_blank hblank, Text.trimLeft_append_of_blank hblank,
      Text.trimLeft_append_of_blank ha, Text.trimLeft_cons_of_not_blank (by decide),
      Text.trimLeft_cons_of_not_blank (by decide)]
    exact startsWithWord_append hword [] hbracket hbracket rest []
  | false =>
    rw [Text.trimLeft_append_of_not_blank hblank, Text.trimLeft_append_of_not_blank hblank]
    cases a with
    | nil => exact startsWithWord_append hword _ hbracket hbracket rest []
    | cons e a =>
      rw [Text.isBlankText_cons, Bool.and_eq_true] at ha
      have he : Text.isWordChar e = false := Glue.isWordChar_of_isBlank ha.1
      exact startsWithWord_append hword _ he hbracket (a ++ '[' :: rest) []

/-! ### What a merge may write -/

/-- What a merge of some lines may write can be read back: every key can stand between double quotes,
and every text is plain. -/
structure Writable (style : Style) (texts : KeyMap Text) (core : List Text) : Prop where
  /-- The keys of the texts can stand between double quotes. -/
  keys : ∀ key ∈ texts.keys, Glue.IsKey key
  /-- The texts are plain. -/
  values : ∀ value ∈ texts.values, Source.IsPlain value
  /-- The keys of the literal assignments can stand between double quotes. -/
  lines : ∀ line ∈ core, ∀ a, Glue.assignment? style.table line = some a → Glue.IsKey a.key

/-- A key that the texts have stands among their keys, in some spelling. -/
theorem exists_mem_keys_of_get? {value : Text} (h : texts.get? key = some value) :
    (∃ k ∈ texts.keys, Text.fold k = Text.fold key) ∧ value ∈ texts.values := by
  obtain ⟨k, hmem, hfold⟩ := Lexicon.get?_eq_some_iff.1 h
  exact ⟨⟨k, List.mem_map_of_mem hmem, hfold⟩, List.mem_map_of_mem hmem⟩

namespace Writable

variable {core : List Text} {line text : Text}

/-- A line that is written is a literal assignment of a key that the texts have. -/
theorem exists_assignment (h : Writable style texts core) (hline : IsWritten style texts core line) :
    ∃ a, Glue.assignment? style.table line = some a ∧ Glue.IsKey a.key ∧
      texts.get? a.key ≠ none := by
  obtain ⟨indent, k, text, rfl, hindent, hspelled, ht, -⟩ := hline
  have hkey : Glue.IsKey k := by
    rcases hspelled with hk | ⟨a, ha, rfl⟩
    · exact h.keys k hk
    · obtain ⟨l, hl, hread⟩ := List.mem_filterMap.1 ha
      exact h.lines l hl a hread
  have hplain : Source.IsPlain text := h.values text (exists_mem_keys_of_get? ht).2
  exact ⟨_, Glue.assignment?_line (a := ⟨k, text, indent⟩) style.table hkey hindent
    hplain.isFaithful, hkey, by simp [ht]⟩

/-- A line that is written assigns no key that the texts do not mention. -/
theorem not_assigns (h : Writable style texts core) (hline : IsWritten style texts core line)
    (hkey : texts.get? key = none) : assigns style.table key line = false := by
  obtain ⟨a, ha, -, hmentioned⟩ := h.exists_assignment hline
  rw [assigns_of_assignment? ha, decide_eq_false_iff_not]
  intro hfold
  exact hmentioned ((Lexicon.get?_congr texts hfold).trans hkey)

/-- After a merge, what a merge with other texts may write can be read back as well. -/
theorem mergeRegion (h : Writable style texts core) {others : KeyMap Text}
    (hothers : Writable style others core) :
    Writable style others (Locale.mergeRegion style texts guarded core) where
  keys := hothers.keys
  values := hothers.values
  lines line hline a ha := by
    rcases mem_mergeRegion hline with ⟨hold, -⟩ | hnew
    · exact h.lines line hold a ha
    · obtain ⟨b, hb, hkey, -⟩ := h.exists_assignment hnew
      obtain rfl : a = b := Option.some.inj (ha.symm.trans hb)
      exact hkey

/-- A merge leaves a key without computed assignments without them. -/
theorem isLiteral_mergeRegion (h : Writable style texts core)
    (hliteral : ∀ line ∈ core, assigns style.table key line = true →
      isLiteral style.table line = true) :
    ∀ line ∈ Locale.mergeRegion style texts guarded core, assigns style.table key line = true →
      isLiteral style.table line = true := by
  intro line hline hassigns
  rcases mem_mergeRegion hline with ⟨hold, -⟩ | hnew
  · exact hliteral line hold hassigns
  · obtain ⟨a, ha, -⟩ := h.exists_assignment hnew
    exact Option.isSome_iff_exists.2 ⟨a, ha⟩

/-- A merge leaves a key of the texts, unless its assignments are computed, with its text as the only
value, and with none when the text is blank. -/
theorem literals_of_mentioned (h : Writable style texts core) (ht : texts.get? key = some text)
    (hliteral : ∀ line ∈ core, assigns style.table key line = true →
      isLiteral style.table line = true) :
    literals style.table key (Locale.mergeRegion style texts guarded core) =
      if isBlankText text then [] else [text] := by
  have hrewritable : Rewritable style texts key core := fun line hline a ha _ t hget _ _ =>
    isReadBack_of_isKey (h.lines line hline a ha) fun _ =>
      (h.values t (exists_mem_keys_of_get? hget).2).isFaithful
  have hmissing : ∀ e ∈ (editRegion style texts guarded core).missing texts,
      IsReadBack style.table key e.1 e.2 := by
    intro e he
    obtain ⟨hmem, -⟩ := get?_of_mem_missing he
    exact isReadBack_of_isKey (h.keys e.1 (List.mem_map_of_mem hmem))
      fun _ => (h.values e.2 (List.mem_map_of_mem hmem)).isFaithful
  rw [literals_mergeRegion ht hrewritable hmissing]
  cases hleader : leader? style.table key core with
  | none => cases isBlankText text <;> rfl
  | some line =>
    have hlit := hliteral line (List.mem_of_find?_eq_some hleader) (List.find?_some hleader)
    cases isBlankText text <;> simp [hlit]

/-- The added lines assign no key that the texts do not mention. -/
theorem not_assigns_added (h : Writable style texts core) (hkey : texts.get? key = none) :
    ∀ line ∈ (editRegion style texts guarded core).added style texts guarded,
      assigns style.table key line = false :=
  fun _ hline => h.not_assigns (isWritten_of_mem_added hline) hkey

end Writable

/-- In a guarded block, the new line for a key that the texts do not mention is its first one. -/
theorem leader?_written_of_unmentioned {handled : KeySet} {line : Text}
    (hkey : texts.get? key = none) (hfresh : handled.contains key = false)
    (hline : ∀ a, Glue.assignment? style.table line = some a → Glue.IsKey a.key) :
    leader? style.table key (Edit.written style texts true handled line) =
      leader? style.table key [line] := by
  by_cases hassigns : assigns style.table key line = true
  · have hwritten : Edit.written style texts true handled line = [line] := by
      unfold Edit.written
      cases ha : Glue.assignment? style.table line with
      | none => rfl
      | some a =>
        rw [assigns_of_assignment? ha, decide_eq_true_eq] at hassigns
        simp [KeySet.contains_congr handled hassigns, hfresh, Lexicon.get?_congr texts hassigns, hkey]
    rw [hwritten]
  · have hother : ∀ w ∈ Edit.written style texts true handled line,
        assigns style.table key w = false := by
      intro w hw
      rcases mem_written hw with ⟨rfl, -⟩ | ⟨a, text, ha, -, -, -, -, rfl⟩
      · simpa using hassigns
      · have hindent : isBlankText a.indent = true := Glue.isBlankText_indent_of_assignment? ha
        have hnew : Glue.assignedKey? style.table (style.line a.indent a.key text) = some a.key :=
          Glue.assignedKey?_line (a := ⟨a.key, text, a.indent⟩) style.table (hline a ha) hindent
        rw [assigns_of_assignment? ha] at hassigns
        simpa [assigns, hnew] using hassigns
    rw [leader?, leader?, List.find?_singleton, if_neg hassigns, List.find?_eq_none]
    intro w hw
    simp [hother w hw]

/-- In a guarded block, a key that the texts do not mention is first assigned by the same line of the
edited lines as before. -/
theorem leader?_body_of_unmentioned {ls : List Text} (hkey : texts.get? key = none)
    (hlines : ∀ line ∈ ls, ∀ a, Glue.assignment? style.table line = some a → Glue.IsKey a.key) :
    leader? style.table key (editRegion style texts true ls).body =
      leader? style.table key ls := by
  induction ls using List.reverseRecOn with
  | nil => rfl
  | append_singleton ls line ih =>
    have hbefore := ih fun l hl => hlines l (List.mem_append_left _ hl)
    rw [editRegion_concat, Edit.body_step, leader?_append, leader?_append, hbefore]
    cases hleader : leader? style.table key ls with
    | some l => rfl
    | none =>
      rw [Option.none_or, Option.none_or]
      exact leader?_written_of_unmentioned hkey (contains_handled_of_leader? hleader)
        (hlines line (List.mem_append_right _ (List.mem_singleton_self line)))

namespace Writable

variable {core : List Text}

/-- In a guarded block, a key that the texts do not mention is first assigned on the same line as
before. -/
theorem leader?_of_unmentioned (h : Writable style texts core) (hkey : texts.get? key = none) :
    leader? style.table key (Locale.mergeRegion style texts true core) =
      leader? style.table key core := by
  have hadded : leader? style.table key ((editRegion style texts true core).added style texts true) =
      none :=
    List.find?_eq_none.2 fun line hline => by simp [h.not_assigns_added hkey line hline]
  rw [Locale.mergeRegion, leader?_append, leader?_body_of_unmentioned hkey h.lines, hadded,
    Option.or_none]

/-- In a guarded block, a key that the texts do not mention is left with the first of its values, and
with none when its first assignment is computed. -/
theorem literals_of_unmentioned (h : Writable style texts core) (hkey : texts.get? key = none) :
    literals style.table key (Locale.mergeRegion style texts true core) =
      if (leader? style.table key core).all (isLiteral style.table) then
        (literals style.table key core).take 1 else [] := by
  rw [Locale.mergeRegion, literals_append, literals_body_of_unmentioned hkey h.lines,
    literals_eq_nil_of_not_assigns (h.not_assigns_added hkey), List.append_nil]

end Writable

/-! ### Two merges of a region -/

/-- What is found for a key after all entries of one map are set in another. -/
theorem get?_override (first second : KeyMap Text) (key : Text) :
    (first.insertAll second.entries).get? key = (second.get? key).or (first.get? key) := by
  have hfind : second.get? key = (second.find? key).map (·.2) := rfl
  rw [Lexicon.get?_insertAll, second.filter_entries, hfind]
  cases second.find? key <;> rfl

/-- Two texts maps that may be written can be written together. -/
theorem Writable.override {first second : KeyMap Text} {core : List Text}
    (hfirst : Writable style first core) (hsecond : Writable style second core) :
    Writable style (first.insertAll second.entries) core where
  keys key hkey := (Lexicon.mem_keys_of_mem_keys_insertAll hkey).elim (hfirst.keys key)
    (hsecond.keys key)
  values value hvalue := (Lexicon.mem_values_of_mem_values_insertAll hvalue).elim
    (hfirst.values value) (hsecond.values value)
  lines := hfirst.lines

/-- Of a key that is not computed, two merges of a guarded block leave the same values as one merge with
the texts of both, where the later ones override the earlier ones. -/
theorem literals_mergeRegion_mergeRegion {first second : KeyMap Text} {core : List Text}
    (hfirst : Writable style first core) (hsecond : Writable style second core)
    (hliteral : (second.get? key).or (first.get? key) ≠ none → ∀ line ∈ core,
      assigns style.table key line = true → isLiteral style.table line = true) :
    literals style.table key (mergeRegion style second true (mergeRegion style first true core)) =
      literals style.table key
        (mergeRegion style (first.insertAll second.entries) true core) := by
  have hmerged : Writable style second (mergeRegion style first true core) :=
    hfirst.mergeRegion hsecond
  have hboth := hfirst.override hsecond
  have hget := get?_override first second key
  cases hlast : second.get? key with
  | some text =>
    -- the second merge sets the key, whatever the first one has left
    rw [hlast, Option.some_or] at hget hliteral
    have hcore := hliteral (Option.some_ne_none text)
    rw [hmerged.literals_of_mentioned hlast (hfirst.isLiteral_mergeRegion hcore),
      hboth.literals_of_mentioned hget hcore]
  | none =>
    rw [hlast, Option.none_or] at hget hliteral
    rw [hmerged.literals_of_unmentioned hlast]
    cases hearly : first.get? key with
    | some text =>
      -- the second merge keeps the only value that the first one has left
      rw [hearly] at hget hliteral
      have hcore := hliteral (Option.some_ne_none text)
      have hall : (leader? style.table key (mergeRegion style first true core)).all
          (isLiteral style.table) = true := by
        cases hleader : leader? style.table key (mergeRegion style first true core) with
        | none => rfl
        | some line =>
          exact hfirst.isLiteral_mergeRegion hcore line (List.mem_of_find?_eq_some hleader)
            (List.find?_some hleader)
      rw [if_pos hall, hfirst.literals_of_mentioned hearly hcore,
        hboth.literals_of_mentioned hget hcore]
      split_ifs <;> rfl
    | none =>
      -- both merges keep the first value of the key
      rw [hearly] at hget
      rw [hfirst.leader?_of_unmentioned hearly, hfirst.literals_of_unmentioned hearly,
        hboth.literals_of_unmentioned hget]
      split_ifs
      · rw [List.take_take, Nat.min_self]
      · rfl

/-! ### Two merges of a file -/

/-- When the assignments of a table end no block, a merged guarded block is again the guarded block of
its file. -/
theorem Layout.mergeRegion_of_open (hopen : isBlockEnd (style.table ++ ['[']) = false)
    {front core back : List Text} (hlayout : Layout style.table front core back true)
    (h : Writable style texts core) :
    Layout style.table front (mergeRegion style texts true core) back true := by
  cases hlayout with
  | guard hbefore hguard hinside hfin =>
    refine .guard hbefore hguard (fun line hline => ?_) hfin
    rcases mem_mergeRegion hline with ⟨hold, -⟩ | hnew
    · exact hinside line hold
    · obtain ⟨a, ha, -⟩ := h.exists_assignment hnew
      rw [isBlockEnd_of_assigned (assignsKey_of_assignment? ha), hopen]

/-- When the assignments of a table end a block, nothing in a guarded block is assigned, and a merge
leaves the block as it is: what it adds stands behind. -/
theorem Layout.exists_added_of_closed (hclosed : isBlockEnd (style.table ++ ['[']) = true)
    {front core back : List Text} (hlayout : Layout style.table front core back true)
    (h : Writable style texts core) :
    ∃ added, mergeRegion style texts true core = core ++ added ∧
      Layout style.table front core (added ++ back) true := by
  cases hlayout with
  | @guard before _ after guard fin hbefore hguard hinside hfin =>
    have hnone : ∀ line ∈ core, assignsKey style.table line = false := by
      intro line hline
      cases hassigns : assignsKey style.table line with
      | false => rfl
      | true =>
        rw [← isBlockEnd_of_assigned hassigns, hinside line hline] at hclosed
        exact Bool.noConfusion hclosed
    have hbody : (editRegion style texts true core).body = core := by
      have hall := @body_append_of_not_assignsKey style texts true [] core hnone
      exact hall
    refine ⟨(editRegion style texts true core).added style texts true, ?_, ?_⟩
    · rw [mergeRegion, hbody]
    · cases hadded : (editRegion style texts true core).added style texts true with
      | nil => exact .guard hbefore hguard hinside hfin
      | cons line rest =>
        obtain ⟨a, ha, -⟩ := h.exists_assignment
          (isWritten_of_mem_added (hadded ▸ List.mem_cons_self))
        have hline : isBlockEnd line = true := by
          rw [isBlockEnd_of_assigned (assignsKey_of_assignment? ha), hclosed]
        exact .guard hbefore hguard hinside hline

/-- The texts that are read from the region of a file. -/
def regionTexts (table : Text) (lines : List Text) : KeyMap Text :=
  match region? table lines with
  | none => ∅
  | some region => (Entries.ofLines table (region.slice lines)).texts

/-- The texts of the region of a file are read from the lines of its region. -/
theorem Layout.get?_regionTexts {front core back : List Text}
    (h : Layout table front core back guarded) (key : Text) :
    (regionTexts table (front ++ (core ++ back))).get? key =
      (literals table key core).getLast? := by
  rw [regionTexts, h.region?]
  simp only [slice_layout, get?_ofLines]

/-- Merging a guarded file with some texts, and the result with others, makes its region read as after
one merge with the texts of both, where the later ones override the earlier ones; blank texts delete
their keys in each merge. -/
theorem mergeLines_mergeLines_reads (style : Style) (lines : List Text) (first second : KeyMap Text)
    (hguard : (guardedBlock? lines).isSome = true)
    (hlines : ∀ line ∈ lines, ∀ a ∈ Glue.assignment? style.table line, Glue.IsKey a.key)
    (hkeys : ∀ key ∈ first.keys ++ second.keys, Glue.IsKey key)
    (hvalues : ∀ value ∈ first.values ++ second.values, Source.IsPlain value)
    (hliteral : ∀ region ∈ region? style.table lines, ∀ key ∈ first.keys ++ second.keys,
      ∀ line ∈ region.slice lines, assigns style.table key line = true →
        isLiteral style.table line = true) :
    let twice := mergeLines style (mergeLines style lines first) second
    let once := mergeLines style lines (first.insertAll second.entries)
    (region? style.table twice).isSome = true ∧ (region? style.table once).isSome = true ∧
      ∀ key, (regionTexts style.table twice).get? key = (regionTexts style.table once).get? key := by
  intro twice once
  obtain ⟨⟨start, stop⟩, hblock⟩ := Option.isSome_iff_exists.1 hguard
  have hregion : region? style.table lines = some ⟨start + 1, stop, true⟩ := by
    simp only [region?, hblock]
  obtain ⟨front, core, back, rfl, hslice, -, hlayout⟩ := exists_layout hregion
  have hcore : ∀ line ∈ core, ∀ a, Glue.assignment? style.table line = some a → Glue.IsKey a.key :=
    fun line hline a ha => hlines line (by simp [hline]) a ha
  have hfirst : Writable style first core :=
    ⟨fun key hkey => hkeys key (List.mem_append_left _ hkey),
      fun value hvalue => hvalues value (List.mem_append_left _ hvalue), hcore⟩
  have hsecond : Writable style second core :=
    ⟨fun key hkey => hkeys key (List.mem_append_right _ hkey),
      fun value hvalue => hvalues value (List.mem_append_right _ hvalue), hcore⟩
  have hboth := hfirst.override hsecond
  cases hend : isBlockEnd (style.table ++ ['[']) with
  | false =>
    have hearly := hlayout.mergeRegion_of_open hend hfirst
    have htwice := hearly.mergeRegion_of_open hend (hfirst.mergeRegion hsecond)
    have honce := hlayout.mergeRegion_of_open hend hboth
    simp only [twice, once, hlayout.mergeLines, hearly.mergeLines]
    refine ⟨Option.isSome_of_eq_some htwice.region?, Option.isSome_of_eq_some honce.region?,
      fun key => ?_⟩
    rw [htwice.get?_regionTexts, honce.get?_regionTexts]
    refine congrArg List.getLast? (literals_mergeRegion_mergeRegion hfirst hsecond fun hsome => ?_)
    intro line hline hassigns
    obtain ⟨text, htext⟩ := Option.ne_none_iff_exists'.1 hsome
    obtain ⟨k, hk, hfold⟩ : ∃ k ∈ first.keys ++ second.keys, Text.fold k = Text.fold key := by
      rcases Option.or_eq_some_iff.1 htext with hlast | ⟨-, hlast⟩
      · obtain ⟨⟨k, hk, hfold⟩, -⟩ := exists_mem_keys_of_get? hlast
        exact ⟨k, List.mem_append_right _ hk, hfold⟩
      · obtain ⟨⟨k, hk, hfold⟩, -⟩ := exists_mem_keys_of_get? hlast
        exact ⟨k, List.mem_append_left _ hk, hfold⟩
    refine hliteral _ hregion k hk line (by rw [hslice]; exact hline) ?_
    simpa only [assigns, hfold] using hassigns
  | true =>
    -- the region has no assignment, and what is added stands behind it
    obtain ⟨added, hadded, hearly⟩ := hlayout.exists_added_of_closed hend hfirst
    obtain ⟨added', hadded', htwice⟩ := hearly.exists_added_of_closed hend hsecond
    obtain ⟨added'', hadded'', honce⟩ := hlayout.exists_added_of_closed hend hboth
    simp only [twice, once, hlayout.mergeLines, hadded, hadded'', List.append_assoc,
      hearly.mergeLines, hadded']
    exact ⟨Option.isSome_of_eq_some htwice.region?, Option.isSome_of_eq_some honce.region?,
      fun key => by rw [htwice.get?_regionTexts, honce.get?_regionTexts]⟩

/-- When a merge clears a key and the next one sets it again in another spelling, its line stands
elsewhere than after one merge with all texts. Both files read the same, also where a key that no text
mentions is repeated. -/
theorem mergeLines_mergeLines_reads_of_cleared_and_set :
    let lines := ["if locale == \"deDE\" then".toList, "  L[\"Hi\"] = \"a\"".toList,
      "  L[\"Other\"] = 'o'".toList, "  L[\"Sum\"] = L[\"Hi\"] .. \"!\"".toList,
      "  L[\"other\"] = 'p'".toList, "end".toList]
    let first : KeyMap Text := .ofList [("hi".toList, " ".toList)]
    let second : KeyMap Text := .ofList [("HI".toList, "b".toList)]
    let twice := mergeLines .default (mergeLines .default lines first) second
    let once := mergeLines .default lines (first.insertAll second.entries)
    twice ≠ once ∧
      (∀ key, (regionTexts Style.default.table twice).get? key =
        (regionTexts Style.default.table once).get? key) ∧
      (regionTexts Style.default.table once).get? "hi".toList = some "b".toList ∧
      (regionTexts Style.default.table once).get? "other".toList = some "o".toList := by
  intro lines first second twice once
  obtain ⟨-, -, hreads⟩ := mergeLines_mergeLines_reads .default lines first second
    (by decide +kernel) (by decide +kernel) (by decide +kernel) (by decide +kernel)
    (by decide +kernel)
  exact ⟨by decide +kernel, hreads, by decide +kernel, by decide +kernel⟩

end Phrasebook.Locale
