import Phrasebook.Proofs.Locale.Synthesis

/-!
# What a merge leaves alone

A merge works on the literal assignments of its region. The lines around the region, and those of the
region that are no literal assignments, are copied in their order, and so is a literal assignment
that is the first line to assign its key and has the text that it should have. A key that the texts
do not mention keeps the value of its first assignment in a guard, which need not be the last one.
-/

namespace Phrasebook.Locale

open Text (isBlankText)

variable {style : Style} {texts : KeyMap Text} {guarded : Bool} {table key : Text}

/-- Whether a merge copies a line of a region behind some others: a line that is no literal
assignment, or else the first to assign its key, when the texts have its value for the key or do not
mention a key in a guard. -/
def isCopied (table : Text) (texts : KeyMap Text) (guarded : Bool) (before : List Text)
    (line : Text) : Bool :=
  match Glue.assignment? table line with
  | none => true
  | some a =>
    (leader? table a.key before).isNone &&
      match texts.get? a.key with
      | some text => text = a.value && !isBlankText text
      | none => guarded

/-- The lines that a merge copies, of those of a region behind some others. -/
def copiedFrom (table : Text) (texts : KeyMap Text) (guarded : Bool) (before : List Text) :
    List Text → List Text
  | [] => []
  | line :: rest =>
    if isCopied table texts guarded before line then
      line :: copiedFrom table texts guarded (before ++ [line]) rest
    else copiedFrom table texts guarded (before ++ [line]) rest

/-- The lines of a region that a merge copies. -/
def copiedLines (table : Text) (texts : KeyMap Text) (guarded : Bool) (lines : List Text) :
    List Text :=
  copiedFrom table texts guarded [] lines

/-- Whether the last line of a region is copied depends on those before it. -/
theorem copiedFrom_concat (before ls : List Text) (line : Text) :
    copiedFrom table texts guarded before (ls ++ [line]) =
      copiedFrom table texts guarded before ls ++
        if isCopied table texts guarded (before ++ ls) line then [line] else [] := by
  induction ls generalizing before with
  | nil => simp [copiedFrom]
  | cons l ls ih =>
    have hsplit : before ++ l :: ls = before ++ [l] ++ ls := by simp
    rw [List.cons_append, copiedFrom, copiedFrom, ih, hsplit]
    split <;> rfl

/-- Whether the last line of a region is copied depends on those before it. -/
theorem copiedLines_concat (ls : List Text) (line : Text) :
    copiedLines table texts guarded (ls ++ [line]) = copiedLines table texts guarded ls ++
      if isCopied table texts guarded ls line then [line] else [] := by
  exact copiedFrom_concat [] ls line

/-- Lines that do not assign a key do not take care of it. -/
theorem contains_handled_of_leader? {ls : List Text} (h : leader? style.table key ls = none) :
    (editRegion style texts guarded ls).handled.contains key = false := by
  rw [contains_handled_editRegion, List.any_eq_false]
  intro line hline
  have hassigns : assigns style.table key line = false := by
    simpa using List.find?_eq_none.1 h line hline
  simp [Edit.handles, hassigns]

/-- A line that is copied leads to itself. -/
theorem written_of_isCopied {ls : List Text} {line : Text}
    (h : isCopied style.table texts guarded ls line = true) :
    Edit.written style texts guarded (editRegion style texts guarded ls).handled line = [line] := by
  cases ha : Glue.assignment? style.table line with
  | none => simp [Edit.written, ha]
  | some a =>
    simp only [isCopied, ha, Bool.and_eq_true, Option.isNone_iff_eq_none] at h
    obtain ⟨hleader, htext⟩ := h
    refine Edit.written_of_kept ha (contains_handled_of_leader? hleader) ?_
    cases ht : texts.get? a.key with
    | none => exact Or.inl ⟨rfl, by simpa [ht] using htext⟩
    | some text =>
      simp only [ht, Bool.and_eq_true, decide_eq_true_eq, Bool.not_eq_true'] at htext
      obtain ⟨rfl, hblank⟩ := htext
      exact Or.inr ⟨rfl, hblank⟩

/-- The copied lines are among the new ones, in their order. -/
theorem copiedLines_sublist_body (ls : List Text) :
    (copiedLines style.table texts guarded ls).Sublist (editRegion style texts guarded ls).body := by
  induction ls using List.reverseRecOn with
  | nil => exact List.Sublist.refl _
  | append_singleton ls line ih =>
    rw [copiedLines_concat, editRegion_concat, Edit.body_step]
    refine ih.append ?_
    split
    · rename_i hcopied
      rw [written_of_isCopied hcopied]
    · exact List.nil_sublist _

/-- The copied lines are among those of the merged region, in their order. -/
theorem copiedLines_sublist_mergeRegion (ls : List Text) :
    (copiedLines style.table texts guarded ls).Sublist (mergeRegion style texts guarded ls) :=
  (copiedLines_sublist_body ls).trans (List.sublist_append_left _ _)

/-- A line that is written for a plain text is a literal assignment. -/
theorem isLiteral_line {indent k text : Text} (hindent : isBlankText indent = true)
    (hk : Glue.IsKey k) (htext : Source.IsPlain text) :
    isLiteral style.table (style.line indent k text) = true := by
  have hline := Glue.assignment?_line (a := ⟨k, text, indent⟩) style.table hk hindent
    htext.isFaithful
  exact Option.isSome_iff_exists.2 ⟨_, hline⟩

/-- The new lines that are no literal assignments are the old ones, when everything that may be
written is a literal assignment. -/
theorem filter_not_isLiteral_body {ls : List Text}
    (hlines : ∀ line ∈ ls, ∀ a, Glue.assignment? style.table line = some a → Glue.IsKey a.key)
    (hvalues : ∀ value ∈ texts.values, Source.IsPlain value) :
    (editRegion style texts guarded ls).body.filter (fun l => !isLiteral style.table l) =
      ls.filter fun l => !isLiteral style.table l := by
  induction ls using List.reverseRecOn with
  | nil => rfl
  | append_singleton ls line ih =>
    rw [editRegion_concat, Edit.body_step, List.filter_append, List.filter_append,
      ih fun l hl => hlines l (by simp [hl])]
    congr 1
    have hfate := Edit.fate_written style texts guarded
      (editRegion style texts guarded ls).handled line
    generalize Edit.written style texts guarded (editRegion style texts guarded ls).handled line =
      out at hfate ⊢
    cases hfate with
    | other => rfl
    | kept => rfl
    | @dropped a ha => simp [isLiteral, ha]
    | @rewritten a text ha _ ht =>
      obtain ⟨k, hmem, -⟩ := Lexicon.get?_eq_some_iff.1 ht
      have hnew : isLiteral style.table (style.line a.indent a.key text) = true :=
        isLiteral_line (Glue.isBlankText_indent_of_assignment? ha) (hlines line (by simp) a ha)
          (hvalues text (List.mem_map_of_mem hmem))
      have hold : isLiteral style.table line = true := Option.isSome_iff_exists.2 ⟨a, ha⟩
      simp [hnew, hold]

/-- The lines of a merged region that are no literal assignments are those of the region, when
everything that may be written is a literal assignment. -/
theorem filter_not_isLiteral_mergeRegion {ls : List Text}
    (hlines : ∀ line ∈ ls, ∀ a, Glue.assignment? style.table line = some a → Glue.IsKey a.key)
    (hkeys : ∀ key ∈ texts.keys, Glue.IsKey key)
    (hvalues : ∀ value ∈ texts.values, Source.IsPlain value) :
    (mergeRegion style texts guarded ls).filter (fun l => !isLiteral style.table l) =
      ls.filter fun l => !isLiteral style.table l := by
  have hadded : ((editRegion style texts guarded ls).missing texts |>.map fun e =>
      style.line ((editRegion style texts guarded ls).addedIndent guarded) e.1 e.2).filter
        (fun l => !isLiteral style.table l) = [] := by
    rw [List.filter_eq_nil_iff]
    intro line hline
    obtain ⟨e, he, rfl⟩ := List.mem_map.1 hline
    have hmem : e ∈ texts.entries := (sortedEntries_perm texts).subset (List.mem_filter.1 he).1
    have hnew : isLiteral style.table (style.line ((editRegion style texts guarded ls).addedIndent
        guarded) e.1 e.2) = true :=
      isLiteral_line (isBlankText_addedIndent ls) (hkeys e.1 (List.mem_map_of_mem hmem))
        (hvalues e.2 (List.mem_map_of_mem hmem))
    simp [hnew]
  rw [mergeRegion_eq, List.filter_append, filter_not_isLiteral_body hlines hvalues, hadded,
    List.append_nil]

/-- A merge leaves everything alone but the literal assignments of the region: the lines around the
region, the other lines of the region, and the lines that are the first to assign their keys and
have the right texts already. -/
theorem mergeLines_touches_literals_only (style : Style) (lines : List Text) (texts : KeyMap Text)
    (hregion : (guardedBlock? lines).isSome = true ∨
      ∃ line ∈ lines, assignsKey style.table line = true)
    (hlines : ∀ line ∈ lines, ∀ a ∈ Glue.assignment? style.table line, Glue.IsKey a.key)
    (hkeys : ∀ key ∈ texts.keys, Glue.IsKey key)
    (hvalues : ∀ value ∈ texts.values, Source.IsPlain value) :
    ∃ region, region? style.table lines = some region ∧
      mergeLines style lines texts = lines.take region.start ++
        mergeRegion style texts region.guarded (region.slice lines) ++ lines.drop region.stop ∧
      (mergeRegion style texts region.guarded (region.slice lines)).filter
          (fun l => !isLiteral style.table l) =
        (region.slice lines).filter (fun l => !isLiteral style.table l) ∧
      (copiedLines style.table texts region.guarded (region.slice lines)).Sublist
        (mergeRegion style texts region.guarded (region.slice lines)) := by
  obtain ⟨region, hr⟩ := Option.isSome_iff_exists.1 (region?_isSome hregion)
  have hcore : ∀ line ∈ region.slice lines, ∀ a, Glue.assignment? style.table line = some a →
      Glue.IsKey a.key :=
    fun line hline a ha => hlines line (List.mem_of_mem_take (List.mem_of_mem_drop hline)) a ha
  exact ⟨region, hr, by simp only [mergeLines, hr],
    filter_not_isLiteral_mergeRegion hcore hkeys hvalues, copiedLines_sublist_mergeRegion _⟩

/-- In a guarded file with a changed, a repeated, an unmentioned and a new key, a comment and a
computed assignment stay, and so does the line with the unmentioned key. -/
theorem mergeLines_keeps_comment_and_computed :
    let lines := ["if locale == \"deDE\" then".toList, "  -- greetings".toList,
      "  L[\"Hi\"] = \"a\"".toList, "  L[\"Sum\"] = L[\"Hi\"] .. \"!\"".toList,
      "  L[\"Other\"] = 'o' -- kept".toList, "  L[\"HI\"] = \"b\"".toList, "end".toList]
    let texts : KeyMap Text := .ofList [("hi".toList, "c".toList), ("New".toList, "d".toList)]
    let kept := ["  -- greetings".toList, "  L[\"Sum\"] = L[\"Hi\"] .. \"!\"".toList]
    ∃ region, region? Style.default.table lines = some region ∧
      (mergeRegion .default texts region.guarded (region.slice lines)).filter
        (fun l => !isLiteral Style.default.table l) = kept ∧
      (kept ++ ["  L[\"Other\"] = 'o' -- kept".toList]).Sublist
        (mergeRegion .default texts region.guarded (region.slice lines)) := by
  intro lines texts kept
  obtain ⟨region, hr, -, hfilter, hcopied⟩ :=
    mergeLines_touches_literals_only .default lines texts (Or.inl (by decide +kernel))
      (by decide +kernel) (by decide +kernel) (by decide +kernel)
  have hregion : region = ⟨1, 6, true⟩ := Option.some.inj (hr.symm.trans (by decide +kernel))
  subst hregion
  have hold : ((Region.mk 1 6 true).slice lines).filter
      (fun l => !isLiteral Style.default.table l) = kept := by
    decide +kernel
  have hkept : copiedLines Style.default.table texts true ((Region.mk 1 6 true).slice lines) =
      kept ++ ["  L[\"Other\"] = 'o' -- kept".toList] := by
    decide +kernel
  exact ⟨_, hr, hfilter.trans hold, hkept ▸ hcopied⟩

/-- What is written for a literal assignment of another key has no value for a key. -/
theorem literals_written_of_ne {handled : KeySet} {line : Text} {a : Glue.Assignment}
    (ha : Glue.assignment? style.table line = some a) (hk : Glue.IsKey a.key)
    (hne : Text.fold a.key ≠ Text.fold key) :
    literals style.table key (Edit.written style texts guarded handled line) = [] := by
  have hself : literals style.table key [line] = [] := by
    rw [literals_singleton_of_some ha, if_neg hne]
  have hfate := Edit.fate_written style texts guarded handled line
  generalize Edit.written style texts guarded handled line = out at hfate ⊢
  cases hfate with
  | other => exact hself
  | kept => exact hself
  | dropped => rfl
  | @rewritten b text hb =>
    obtain rfl : a = b := Option.some.inj (ha.symm.trans hb)
    have hread : IsReadBack style.table key a.key text :=
      isReadBack_of_isKey hk fun hsame => absurd hsame hne
    exact (hread.literals_line (Glue.isBlankText_indent_of_assignment? ha)).trans (if_neg hne)

/-- A key that no line is the first to assign has no value. -/
theorem literals_eq_nil_of_leader? {ls : List Text} (h : leader? table key ls = none) :
    literals table key ls = [] :=
  literals_eq_nil_of_not_assigns fun line hline => by simpa using List.find?_eq_none.1 h line hline

/-- A key whose first assignment is literal has a value. -/
theorem literals_ne_nil_of_leader? {ls : List Text} {line : Text}
    (h : leader? table key ls = some line) (hliteral : isLiteral table line = true) :
    literals table key ls ≠ [] := by
  obtain ⟨a, ha⟩ := Option.isSome_iff_exists.1 hliteral
  have hassigns : assigns table key line = true := List.find?_some h
  rw [assigns_of_assignment? ha, decide_eq_true_eq] at hassigns
  obtain ⟨before, after, rfl⟩ := List.append_of_mem (List.mem_of_find?_eq_some h)
  rw [literals_append, ← List.singleton_append, literals_append, literals_singleton_of_some ha,
    if_pos hassigns]
  simp

/-- Of the literal assignments of a key that the texts do not mention, a guarded block keeps the one
that no assignment of the key stands before. -/
theorem written_of_unmentioned {ls : List Text} {line : Text} {a : Glue.Assignment}
    (hkey : texts.get? key = none) (ha : Glue.assignment? style.table line = some a)
    (hk : Text.fold a.key = Text.fold key) :
    Edit.written style texts true (editRegion style texts true ls).handled line =
      if (leader? style.table key ls).isSome then [] else [line] := by
  have hget : texts.get? a.key = none := (Lexicon.get?_congr texts hk).trans hkey
  have hhandled : (editRegion style texts true ls).handled.contains a.key =
      (leader? style.table key ls).isSome := by
    rw [KeySet.contains_congr _ hk, contains_handled_editRegion, leader?, List.isSome_find?]
    congr 1
    funext l
    simp [Edit.handles]
  simp [Edit.written, ha, hhandled, hget]

/-- Of a key that the texts do not mention, the new lines of a guarded block have the first value, and
none when the first assignment is computed. -/
theorem literals_body_of_unmentioned {ls : List Text} (hkey : texts.get? key = none)
    (hlines : ∀ line ∈ ls, ∀ a, Glue.assignment? style.table line = some a → Glue.IsKey a.key) :
    literals style.table key (editRegion style texts true ls).body =
      if (leader? style.table key ls).all (isLiteral style.table) then
        (literals style.table key ls).take 1 else [] := by
  induction ls using List.reverseRecOn with
  | nil => rfl
  | append_singleton ls line ih =>
    rw [editRegion_concat, Edit.body_step, literals_append,
      ih fun l hl => hlines l (List.mem_append_left _ hl), literals_append, leader?_concat]
    cases ha : Glue.assignment? style.table line with
    | none =>
      have hwritten : Edit.written style texts true (editRegion style texts true ls).handled line =
          [line] := by
        simp [Edit.written, ha]
      rw [hwritten, literals_singleton_of_none ha, List.append_nil, List.append_nil]
      cases hleader : leader? style.table key ls with
      | some l => rfl
      | none => rw [literals_eq_nil_of_leader? hleader, List.take_nil, ite_self, ite_self]
    | some a =>
      by_cases hk : Text.fold a.key = Text.fold key
      · have hvalue : literals style.table key [line] = [a.value] := by
          rw [literals_singleton_of_some ha, if_pos hk]
        rw [written_of_unmentioned hkey ha hk]
        cases hleader : leader? style.table key ls with
        | some l =>
          -- the key has a first value when its first assignment is literal, and needs no other one
          rw [Option.isSome_some, if_pos rfl, literals_nil, List.append_nil, Option.some_or]
          refine if_ctx_congr Iff.rfl (fun hliteral => ?_) fun _ => rfl
          obtain ⟨v, vs, hvs⟩ := List.exists_cons_of_ne_nil
            (literals_ne_nil_of_leader? hleader hliteral)
          rw [hvs]
          rfl
        | none =>
          have hassigns : assigns style.table key line = true := by
            rw [assigns_of_assignment? ha, decide_eq_true hk]
          have hliteral : isLiteral style.table line = true := Option.isSome_iff_exists.2 ⟨a, ha⟩
          simp [hvalue, literals_eq_nil_of_leader? hleader, hassigns, hliteral]
      · have hassigns : assigns style.table key line = false := by
          rw [assigns_of_assignment? ha, decide_eq_false hk]
        rw [literals_written_of_ne ha (hlines line (by simp) a ha) hk,
          literals_singleton_of_some ha, if_neg hk, List.append_nil, List.append_nil, hassigns]
        simp

/-- Of the values of a key that the texts do not mention, the new lines of a guarded block have the
first one. -/
theorem literals_body_of_not_mentioned {ls : List Text} (hkey : texts.get? key = none)
    (hliteral : ∀ line ∈ ls, assigns style.table key line = true →
      isLiteral style.table line = true)
    (hlines : ∀ line ∈ ls, ∀ a, Glue.assignment? style.table line = some a → Glue.IsKey a.key) :
    literals style.table key (editRegion style texts true ls).body =
      (literals style.table key ls).take 1 := by
  rw [literals_body_of_unmentioned hkey hlines, if_pos]
  cases hleader : leader? style.table key ls with
  | none => rfl
  | some line =>
    exact hliteral line (List.mem_of_find?_eq_some hleader) (List.find?_some hleader)

/-- A merged guarded block has the first of the values of a key that the texts do not mention. It is
the last one, which the key had before, only when the first and the last value agree. -/
theorem mergeLines_keeps_first_text (style : Style) (front core back : List Text)
    (texts : KeyMap Text) (key : Text) (htable : Readers.isName style.table = true)
    (hend : style.table ≠ "end".toList) (hlayout : Layout style.table front core back true)
    (hkey : texts.get? key = none)
    (hliteral : ∀ line ∈ core, assigns style.table key line = true →
      isLiteral style.table line = true)
    (hlines : ∀ line ∈ core, ∀ a, Glue.assignment? style.table line = some a → Glue.IsKey a.key)
    (hkeys : ∀ key ∈ texts.keys, Glue.IsKey key) :
    ∃ new, mergeLines style (front ++ (core ++ back)) texts = front ++ (new ++ back) ∧
      Layout style.table front new back true ∧
      literals style.table key new = (literals style.table key core).take 1 ∧
      ((literals style.table key new).getLast? = (literals style.table key core).getLast? ↔
        (literals style.table key core).head? = (literals style.table key core).getLast?) := by
  have hadded : literals style.table key (((editRegion style texts true core).missing texts).map
      fun e => style.line ((editRegion style texts true core).addedIndent true) e.1 e.2) = [] := by
    have hother : ∀ e ∈ (editRegion style texts true core).missing texts,
        Text.fold e.1 ≠ Text.fold key := by
      intro e he hk
      have hget := (get?_of_mem_missing he).2.1
      rw [Lexicon.get?_congr texts hk, hkey] at hget
      simp at hget
    rw [literals_map_line (isBlankText_addedIndent core) fun e he =>
        isReadBack_of_isKey (hkeys e.1 (List.mem_map_of_mem (get?_of_mem_missing he).1))
          fun hk => absurd hk (hother e he),
      List.filter_eq_nil_iff.2 fun e he => by simpa using hother e he, List.map_nil]
  have hfirst : literals style.table key (mergeRegion style texts true core) =
      (literals style.table key core).take 1 := by
    rw [mergeRegion_eq, literals_append, hadded, List.append_nil]
    exact literals_body_of_not_mentioned hkey hliteral hlines
  refine ⟨_, hlayout.mergeLines texts,
    hlayout.mergeRegion_of_guard htable hend hkeys hlines, hfirst, ?_⟩
  rw [hfirst]
  cases literals style.table key core <;> simp

/-- Saving another key turns the value of a repeated key from its last one to its first one. -/
theorem mergeLines_moves_unmentioned_text_back :
    let front := ["if locale == \"deDE\" then".toList]
    let core := ["    L[\"A\"] = \"x\"".toList, "    L[\"A\"] = \"y\"".toList]
    let back := ["end".toList]
    let texts : KeyMap Text := .ofList [("B".toList, "b".toList)]
    ∃ new, mergeLines .default (front ++ (core ++ back)) texts = front ++ (new ++ back) ∧
      Layout Style.default.table front new back true ∧
      (literals Style.default.table "A".toList core).getLast? = some "y".toList ∧
      (literals Style.default.table "A".toList new).getLast? = some "x".toList := by
  intro front core back texts
  have hlayout : Layout Style.default.table ([] ++ front) core back true :=
    .guard (by simp) (by decide +kernel) (by decide +kernel) (by decide +kernel)
  obtain ⟨new, hmerge, hnew, hfirst, -⟩ := mergeLines_keeps_first_text .default front core back texts
    "A".toList (by decide +kernel) (by decide +kernel) hlayout (by decide +kernel)
    (by decide +kernel) (by decide +kernel) (by decide +kernel)
  have hcore : literals Style.default.table "A".toList core = ["x".toList, "y".toList] := by
    decide +kernel
  rw [hcore] at hfirst
  exact ⟨new, hmerge, hnew, by rw [hcore]; rfl, by rw [hfirst]; rfl⟩

end Phrasebook.Locale
