import Phrasebook.Locale.Entries
import Phrasebook.Locale.Merge
import Phrasebook.Proofs.Glue.Assignment
import Phrasebook.Proofs.Key.Lexicon
import Phrasebook.Proofs.Key.Set

/-!
# The lines of a merged region

What one line of a region adds to the new lines and to the keys that need no further assignment, and
from it what the whole region reads as afterwards: the first line that assigns a key of the texts
decides. When that line has a literal value, the new lines assign the key once, with its text; when
the text is blank, they do not assign it.
-/

namespace Phrasebook.Locale

/-- Whether a line assigns a key, in whatever spelling. -/
def assigns (table key line : Text) : Bool :=
  (Glue.assignedKey? table line).any fun k => Text.fold k = Text.fold key

/-- The first line that assigns a key. -/
def leader? (table key : Text) (lines : List Text) : Option Text :=
  lines.find? (assigns table key)

/-- Whether a line is a literal assignment. -/
def isLiteral (table line : Text) : Bool :=
  (Glue.assignment? table line).isSome

/-- The values of the literal assignments of a key, in order. -/
def literals (table key : Text) (lines : List Text) : List Text :=
  ((assignments table lines).filter fun a => Text.fold a.key = Text.fold key).map (·.value)

variable {style : Style} {texts : KeyMap Text} {guarded : Bool} {table key : Text}

@[simp] theorem literals_nil : literals table key [] = [] := rfl

theorem assignments_append (ls ms : List Text) :
    assignments table (ls ++ ms) = assignments table ls ++ assignments table ms :=
  List.filterMap_append

@[simp] theorem literals_append (ls ms : List Text) :
    literals table key (ls ++ ms) = literals table key ls ++ literals table key ms := by
  simp [literals, assignments_append]

/-- A line without a literal assignment has no value. -/
theorem literals_singleton_of_none {line : Text} (h : Glue.assignment? table line = none) :
    literals table key [line] = [] := by
  simp [literals, assignments, h]

/-- Spellings of one key have the same values. -/
theorem literals_congr {k : Text} {lines : List Text} (h : Text.fold k = Text.fold key) :
    literals table k lines = literals table key lines := by
  simp only [literals, h]

/-- Spellings of one key are assigned first on the same line. -/
theorem leader?_congr {k : Text} {lines : List Text} (h : Text.fold k = Text.fold key) :
    leader? table k lines = leader? table key lines := by
  have hassigns : assigns table k = assigns table key := funext fun line => by
    simp only [assigns, h]
  rw [leader?, leader?, hassigns]

/-- A literal assignment has a value for its own key only. -/
theorem literals_singleton_of_some {line : Text} {a : Glue.Assignment}
    (h : Glue.assignment? table line = some a) :
    literals table key [line] = if Text.fold a.key = Text.fold key then [a.value] else [] := by
  by_cases hk : Text.fold a.key = Text.fold key <;> simp [literals, assignments, h, hk]

/-- A literal assignment assigns its key. -/
theorem assigns_of_assignment? {line : Text} {a : Glue.Assignment}
    (h : Glue.assignment? table line = some a) :
    assigns table key line = decide (Text.fold a.key = Text.fold key) := by
  simp [assigns, Glue.assignedKey?_of_assignment? h]

/-- A literal assignment assigns a key. -/
theorem assignsKey_of_assignment? {line : Text} {a : Glue.Assignment}
    (h : Glue.assignment? table line = some a) : assignsKey table line = true :=
  Option.isSome_iff_exists.2 ⟨a.key, Glue.assignedKey?_of_assignment? h⟩

/-- A line that assigns no key is no literal assignment. -/
theorem assignment?_eq_none {line : Text} (h : assignsKey table line = false) :
    Glue.assignment? table line = none := by
  cases ha : Glue.assignment? table line with
  | none => rfl
  | some a => simp [assignsKey_of_assignment? ha] at h

/-- A line that assigns a key is not blank. -/
theorem isBlankText_of_assignsKey {line : Text} (h : assignsKey table line = true) :
    Text.isBlankText line = false := by
  obtain ⟨key, hkey⟩ := Option.isSome_iff_exists.1 h
  obtain ⟨s, a, rest, -, -, rfl⟩ := Glue.exists_of_assignedKey? hkey
  have hbracket : Text.isBlank '[' = false := by decide
  simp [hbracket]

/-- A blank line assigns no key. -/
theorem assignsKey_of_blank {line : Text} (h : Text.isBlankText line = true) :
    assignsKey table line = false := by
  cases hassigns : assignsKey table line with
  | false => rfl
  | true => simp [isBlankText_of_assignsKey hassigns] at h

/-- A line without a bracket assigns no key. -/
theorem assignsKey_of_not_mem {line : Text} (h : '[' ∉ line) : assignsKey table line = false := by
  cases hkey : Glue.assignedKey? table line with
  | none => simp [assignsKey, hkey]
  | some k =>
    obtain ⟨s, a, rest, -, -, rfl⟩ := Glue.exists_of_assignedKey? hkey
    exact absurd h (by simp)

/-- A line that assigns no key does not assign a given one. -/
theorem assigns_of_assignsKey {line : Text} (h : assignsKey table line = false) :
    assigns table key line = false := by
  have hnone := Option.isNone_iff_eq_none.1 (Option.isSome_eq_false_iff.1 h)
  rw [assigns, hnone, Option.any_none]

/-- A line that is written for a key assigns it. -/
theorem assignsKey_line {indent k : Text} (hindent : Text.isBlankText indent = true)
    (hk : Glue.IsKey k) (text : Text) :
    assignsKey style.table (style.line indent k text) = true := by
  have hline := Glue.assignedKey?_line (a := ⟨k, text, indent⟩) style.table hk hindent
  exact Option.isSome_iff_exists.2 ⟨k, hline⟩

/-- Where no line assigns a key, none has a value for it. -/
theorem literals_eq_nil_of_not_assigns {lines : List Text}
    (h : ∀ line ∈ lines, assigns table key line = false) : literals table key lines = [] := by
  simp only [literals, assignments, List.map_eq_nil_iff, List.filter_eq_nil_iff,
    List.mem_filterMap, decide_eq_true_eq, forall_exists_index, and_imp]
  intro a line hline ha hk
  have := h line hline
  rw [assigns_of_assignment? ha] at this
  simp [hk] at this

namespace Edit

/-- The new lines that a line of a region leads to, after some keys have been taken care of. -/
def written (style : Style) (texts : KeyMap Text) (guarded : Bool) (handled : KeySet)
    (line : Text) : List Text :=
  match Glue.assignment? style.table line with
  | none => [line]
  | some a =>
    if handled.contains a.key then []
    else
      match texts.get? a.key with
      | some text =>
        if Text.isBlankText text then []
        else if text = a.value then [line]
        else [style.line a.indent a.key text]
      | none => if guarded then [line] else []

/-- Whether a line takes care of a key: literal assignments outside a guard do so for the keys of
the texts only. -/
def handles (style : Style) (texts : KeyMap Text) (guarded : Bool) (key line : Text) : Bool :=
  assigns style.table key line &&
    (!isLiteral style.table line || guarded || (texts.get? key).isSome)

/-- A line that assigns no key takes care of none. -/
theorem handles_of_not_assignsKey {line : Text} (h : assignsKey style.table line = false) :
    handles style texts guarded key line = false := by
  have hnone : Glue.assignedKey? style.table line = none := by
    simpa [assignsKey] using h
  simp [handles, assigns, hnone]

/-- What a literal assignment adds to the new lines, what it takes care of, and the indent that it
leaves for added lines. -/
theorem assignment_parts (e : Edit) {line : Text} {a : Glue.Assignment}
    (ha : Glue.assignment? style.table line = some a) :
    (e.assignment style texts guarded line a).body =
        e.body ++ written style texts guarded e.handled line ∧
      (e.assignment style texts guarded line a).handled =
        (if !e.handled.contains a.key && (guarded || (texts.get? a.key).isSome) then
          e.handled.insert a.key else e.handled) ∧
      (e.assignment style texts guarded line a).indent = some (e.indent.getD a.indent) := by
  simp only [written, ha, assignment, seeIndent]
  by_cases hc : e.handled.contains a.key = true
  · simp [hc, tell]
  · cases texts.get? a.key with
    | none => cases guarded <;> simp [hc, tell, handle, copy]
    | some text =>
      by_cases hb : Text.isBlankText text = true
      · simp [hc, hb, tell, handle]
      · by_cases hv : text = a.value
        · subst hv
          simp [hc, hb, handle, copy]
        · simp [hc, hb, hv, handle, copy]

/-- What a step adds to the new lines. -/
theorem body_step (e : Edit) (line : Text) :
    (step style texts guarded e line).body =
      e.body ++ written style texts guarded e.handled line := by
  unfold step
  cases ha : Glue.assignment? style.table line with
  | none =>
    simp only [computed, written, ha]
    cases Glue.assignedKey? style.table line <;> rfl
  | some a => exact (assignment_parts e ha).1

/-- What a step takes care of. -/
theorem contains_handled_step (e : Edit) (line : Text) :
    (step style texts guarded e line).handled.contains key =
      (e.handled.contains key || handles style texts guarded key line) := by
  unfold step handles isLiteral
  cases ha : Glue.assignment? style.table line with
  | none =>
    simp only [computed, assigns]
    cases Glue.assignedKey? style.table line with
    | none => simp [copy]
    | some k => simp [copy, handle, seeIndent, KeySet.contains_insert, Bool.or_comm]
  | some a =>
    rw [assigns_of_assignment? ha, (assignment_parts e ha).2.1]
    by_cases hk : Text.fold a.key = Text.fold key
    · rw [KeySet.contains_congr e.handled hk, Lexicon.get?_congr texts hk]
      cases hc : e.handled.contains key <;>
        cases hneeded : guarded || (texts.get? key).isSome <;>
          simp [hk, hc, hneeded, KeySet.contains_insert]
    · split <;> simp [hk, KeySet.contains_insert]

/-- The first line that assigns a key sets the indent for added lines. -/
theorem indent_step (e : Edit) (line : Text) :
    (step style texts guarded e line).indent =
      e.indent.or (if assignsKey style.table line then some (Text.indent line) else none) := by
  have hsee : some (e.indent.getD (Text.indent line)) = e.indent.or (some (Text.indent line)) := by
    cases e.indent <;> rfl
  unfold step assignsKey
  cases ha : Glue.assignment? style.table line with
  | none =>
    simp only [computed]
    cases Glue.assignedKey? style.table line with
    | none => simp [copy]
    | some k => exact hsee
  | some a =>
    rw [(assignment_parts e ha).2.2, Glue.indent_of_assignment? ha, hsee,
      Glue.assignedKey?_of_assignment? ha]
    rfl

end Edit

/-- A region is edited line by line. -/
theorem editRegion_concat (ls : List Text) (line : Text) :
    editRegion style texts guarded (ls ++ [line]) =
      Edit.step style texts guarded (editRegion style texts guarded ls) line := by
  simp [editRegion]

/-- The indent for added lines is that of the first line that assigns a key. -/
theorem indent_editRegion (ls : List Text) :
    (editRegion style texts guarded ls).indent =
      (ls.find? (assignsKey style.table)).map Text.indent := by
  induction ls using List.reverseRecOn with
  | nil => rfl
  | append_singleton ls line ih =>
    rw [editRegion_concat, Edit.indent_step, ih, List.find?_append, List.find?_singleton]
    cases ls.find? (assignsKey style.table) <;> by_cases h : assignsKey style.table line = true <;>
      simp [h]

/-- The indent for added lines is blank. -/
theorem isBlankText_addedIndent (ls : List Text) :
    Text.isBlankText ((editRegion style texts guarded ls).addedIndent guarded) = true := by
  unfold Edit.addedIndent
  cases guarded with
  | true => rfl
  | false =>
    rw [indent_editRegion]
    cases ls.find? (assignsKey style.table) with
    | none => rfl
    | some line => exact Text.isBlankText_indent line

/-- The lines of a region take care of the keys that one of them takes care of. -/
theorem contains_handled_editRegion (ls : List Text) :
    (editRegion style texts guarded ls).handled.contains key =
      ls.any (Edit.handles style texts guarded key) := by
  induction ls using List.reverseRecOn with
  | nil => rfl
  | append_singleton ls line ih =>
    rw [editRegion_concat, Edit.contains_handled_step, ih, List.any_append, List.any_cons,
      List.any_nil, Bool.or_false]

/-- A key that the texts mention is taken care of as soon as a line assigns it. -/
theorem contains_handled_of_get? {text : Text} (ht : texts.get? key = some text)
    (ls : List Text) :
    (editRegion style texts guarded ls).handled.contains key =
      (leader? style.table key ls).isSome := by
  rw [contains_handled_editRegion, leader?, List.isSome_find?]
  congr 1
  funext line
  simp [Edit.handles, ht]

/-- The first line that assigns a key stays the first when lines follow. -/
theorem leader?_append (ls ms : List Text) :
    leader? table key (ls ++ ms) = (leader? table key ls).or (leader? table key ms) :=
  List.find?_append

/-- A line that follows is the first to assign a key only when no other line is. -/
theorem leader?_concat (ls : List Text) (line : Text) :
    leader? table key (ls ++ [line]) =
      (leader? table key ls).or (if assigns table key line then some line else none) := by
  rw [leader?_append, leader?, leader?, List.find?_singleton]

/-- The value that a line has for a key is that of its assignment. -/
theorem literals_singleton (line : Text) :
    literals table key [line] =
      ((((Glue.assignment? table line).map fun a => (a.key, a.value)).filter
        fun e => Text.fold e.1 = Text.fold key).map (·.2)).toList := by
  cases ha : Glue.assignment? table line with
  | none => exact literals_singleton_of_none ha
  | some a =>
    rw [literals_singleton_of_some ha, Option.map_some]
    by_cases hk : Text.fold a.key = Text.fold key <;> simp [hk, Option.filter]

/-- The line that is written for a text of a key is read back for a given key: with the text when the
keys are the same, and with no value else. -/
def IsReadBack (table key k text : Text) : Prop :=
  literals table key [Glue.Assignment.line ⟨k, text, []⟩ table] =
    if Text.fold k = Text.fold key then [text] else []

instance (table key k text : Text) : Decidable (IsReadBack table key k text) :=
  inferInstanceAs (Decidable (_ = _))

/-- What is written for a key that can stand between double quotes is read back for another key, and
for the key itself when the literal of the text stands for it. -/
theorem isReadBack_of_isKey {k text : Text} (hkey : Glue.IsKey k)
    (htext : Text.fold k = Text.fold key → Source.IsFaithful text) :
    IsReadBack table key k text := by
  by_cases hk : Text.fold k = Text.fold key
  · exact literals_singleton_of_some
      (Glue.assignment?_line (a := ⟨k, text, []⟩) table hkey rfl (htext hk))
  · rw [IsReadBack, if_neg hk]
    apply literals_eq_nil_of_not_assigns
    simp only [List.mem_singleton, forall_eq, assigns]
    rw [Glue.assignedKey?_line table hkey rfl]
    simpa using hk

/-- What is read back is so behind any indent. -/
theorem IsReadBack.literals_line {indent k text : Text} (h : IsReadBack style.table key k text)
    (hindent : Text.isBlankText indent = true) :
    literals style.table key [style.line indent k text] =
      if Text.fold k = Text.fold key then [text] else [] := by
  rw [← h, literals_singleton, literals_singleton, Style.line,
    Glue.map_assignment?_line style.table hindent]

/-- Lines can be written anew: each line that is the first to assign its key, and whose value is not
the one that the texts have, is read back as it is written. -/
def Rewritable (style : Style) (texts : KeyMap Text) (key : Text) (lines : List Text) : Prop :=
  ∀ line ∈ lines, ∀ a, Glue.assignment? style.table line = some a →
    leader? style.table a.key lines = some line → ∀ text, texts.get? a.key = some text →
      text ≠ a.value → Text.isBlankText text = false → IsReadBack style.table key a.key text

/-- What is written for a line has the value of a key only when the line assigns that key and is the
first to do so. -/
theorem literals_written {handled : KeySet} {line text : Text} {a : Glue.Assignment}
    (ht : texts.get? key = some text) (ha : Glue.assignment? style.table line = some a)
    (hrewrite : handled.contains a.key = false → ∀ t, texts.get? a.key = some t → t ≠ a.value →
      Text.isBlankText t = false → IsReadBack style.table key a.key t) :
    literals style.table key (Edit.written style texts guarded handled line) =
      if Text.fold a.key = Text.fold key ∧ handled.contains key = false ∧
        Text.isBlankText text = false then [text] else [] := by
  have hindent : Text.isBlankText a.indent = true :=
    Glue.isBlankText_indent_of_assignment? ha
  simp only [Edit.written, ha]
  by_cases hk : Text.fold a.key = Text.fold key
  · rw [KeySet.contains_congr handled hk, Lexicon.get?_congr texts hk] at hrewrite
    rw [KeySet.contains_congr handled hk, Lexicon.get?_congr texts hk, ht]
    by_cases hc : handled.contains key = true
    · simp [hc]
    · by_cases hb : Text.isBlankText text = true
      · simp [hb]
      · by_cases hv : text = a.value
        · subst hv
          have hvalue : literals style.table key [line] = [a.value] := by
            rw [literals_singleton_of_some ha, if_pos hk]
          simp [hk, hc, hb, hvalue]
        · have hread := hrewrite (by simpa using hc) text ht hv (by simpa using hb)
          simp [hk, hc, hb, hv, hread.literals_line hindent]
  · have hself : literals style.table key [line] = [] := by
      rw [literals_singleton_of_some ha, if_neg hk]
    by_cases hc : handled.contains a.key = true
    · simp [hc, hk]
    · cases hget : texts.get? a.key with
      | none => cases guarded <;> simp [hc, hk, hself]
      | some t =>
        by_cases hb : Text.isBlankText t = true
        · simp [hb, hk]
        · by_cases hv : t = a.value
          · subst hv
            simp [hc, hb, hk, hself]
          · have hread := hrewrite (by simpa using hc) t hget hv (by simpa using hb)
            simp [hc, hb, hv, hk, hread.literals_line hindent]

/-- The new lines of a region assign a key of the texts once, with its text, when the first line
that assigns it has a literal value and the text is not blank; else they have no value for it. -/
theorem literals_body {lines : List Text} {text : Text} (ht : texts.get? key = some text)
    (hlines : Rewritable style texts key lines) :
    literals style.table key (editRegion style texts guarded lines).body =
      if (leader? style.table key lines).any (isLiteral style.table) && !Text.isBlankText text
      then [text] else [] := by
  induction lines using List.reverseRecOn with
  | nil => rfl
  | append_singleton ls line ih =>
    have hls : Rewritable style texts key ls := by
      intro l hl a ha hleader
      refine hlines l (by simp [hl]) a ha ?_
      rw [leader?_concat, hleader, Option.some_or]
    rw [editRegion_concat, Edit.body_step, literals_append, ih hls, leader?_concat]
    cases ha : Glue.assignment? style.table line with
    | none =>
      have hwritten : Edit.written style texts guarded
          (editRegion style texts guarded ls).handled line = [line] := by
        simp [Edit.written, ha]
      rw [hwritten, literals_singleton_of_none ha]
      cases leader? style.table key ls with
      | some l => simp
      | none => by_cases hassigns : assigns style.table key line = true <;>
          simp [hassigns, isLiteral, ha]
    | some a =>
      have hrewrite : (editRegion style texts guarded ls).handled.contains a.key = false →
          ∀ t, texts.get? a.key = some t → t ≠ a.value → Text.isBlankText t = false →
            IsReadBack style.table key a.key t := by
        intro hfresh t hget
        rw [contains_handled_of_get? hget] at hfresh
        have hnone : leader? style.table a.key ls = none := by simpa using hfresh
        refine hlines line (by simp) a ha ?_ t hget
        rw [leader?_concat, hnone, assigns_of_assignment? ha]
        simp
      rw [literals_written ht ha hrewrite, contains_handled_of_get? ht, assigns_of_assignment? ha]
      cases leader? style.table key ls with
      | some l => simp
      | none => by_cases hk : Text.fold a.key = Text.fold key <;>
          simp [hk, isLiteral, ha]

end Phrasebook.Locale
