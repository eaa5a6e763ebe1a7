import Mathlib.Data.List.Induction
import Phrasebook.Proofs.Locale.Region

/-!
# What a file is read as

The text of a key is the value of its last literal assignment in the file. A file without duplicates
has at most one literal assignment of each key, and every entry has the spelling of some assignment.
-/

namespace Phrasebook

variable {norm : Text → Text} {V W : Type}

/-- A lexicon whose values are changed keeps its keys. -/
theorem Lexicon.get?_ofList_map (m : Lexicon norm V) (f : Text × V → W) (key : Text) :
    (Lexicon.ofList (m.entries.map fun e => (e.1, f e)) : Lexicon norm W).get? key =
      (m.find? key).map f := by
  rw [Lexicon.get?_ofList, List.filter_map]
  have hfilter : m.entries.filter ((fun p : Text × W => decide (norm p.1 = norm key)) ∘
      fun e => (e.1, f e)) = (m.find? key).toList := m.filter_entries key
  rw [hfilter]
  cases m.find? key <;> rfl

namespace Locale

variable {table key : Text}

/-- A further assignment adds a value to those of its key. -/
theorem valuesByKey_concat (assigned : List Glue.Assignment) (a : Glue.Assignment) :
    valuesByKey (assigned ++ [a]) = (valuesByKey assigned).insert a.key
      (((valuesByKey assigned).get? a.key).getD [] ++ [a.value]) := by
  simp [valuesByKey]

/-- The values of the assignments of a key, in order. -/
theorem get?_valuesByKey (assigned : List Glue.Assignment) (key : Text) :
    (valuesByKey assigned).get? key =
      match (assigned.filter fun a => Text.fold a.key = Text.fold key).map (·.value) with
      | [] => none
      | values => some values := by
  induction assigned using List.reverseRecOn with
  | nil => rfl
  | append_singleton assigned a ih =>
    rw [valuesByKey_concat, Lexicon.get?_insert, List.filter_append, List.map_append]
    by_cases hk : Text.fold a.key = Text.fold key
    · rw [Lexicon.get?_congr _ hk, ih]
      cases (assigned.filter fun a => Text.fold a.key = Text.fold key).map (·.value) <;> simp [hk]
    · rw [if_neg hk, ih]
      simp [hk]

/-- The text of a key is the value of its last literal assignment. -/
theorem get?_ofLines (table : Text) (lines : List Text) (key : Text) :
    (Entries.ofLines table lines).texts.get? key = (literals table key lines).getLast? := by
  have hmap := Lexicon.get?_ofList_map (valuesByKey (assignments table lines))
    (fun e => e.2.getLastD []) key
  refine hmap.trans ?_
  have hvalues := get?_valuesByKey (assignments table lines) key
  rw [Lexicon.get?] at hvalues
  unfold literals
  cases hl : ((assignments table lines).filter fun a => Text.fold a.key = Text.fold key).map
      (·.value) with
  | nil =>
    rw [hl] at hvalues
    rw [Option.map_eq_none_iff.1 hvalues]
    rfl
  | cons value values =>
    rw [hl] at hvalues
    obtain ⟨e, he, hsnd⟩ := Option.map_eq_some_iff.1 hvalues
    rw [he, Option.map_some, hsnd, List.getLastD_cons, List.getLast?_cons]
    simp [List.getLastD_eq_getLast?]

/-- A key without a text in a file has no value there. -/
theorem literals_eq_nil_of_get? {lines : List Text}
    (h : (Entries.ofLines table lines).texts.get? key = none) :
    literals table key lines = [] := by
  rw [get?_ofLines] at h
  exact List.getLast?_eq_none_iff.1 h

/-- The text of a key in a file is the value of a literal assignment there. -/
theorem exists_assignment_of_get? {lines : List Text} {text : Text}
    (h : (Entries.ofLines table lines).texts.get? key = some text) :
    ∃ a ∈ assignments table lines, Text.fold a.key = Text.fold key ∧ a.value = text := by
  rw [get?_ofLines] at h
  obtain ⟨a, ha, hvalue⟩ := List.mem_map.1 (List.mem_of_getLast? h)
  obtain ⟨hmem, hk⟩ := List.mem_filter.1 ha
  exact ⟨a, hmem, of_decide_eq_true hk, hvalue⟩

/-- Keys that are assigned once each have one value each, in the order of their assignments. -/
theorem entries_valuesByKey {assigned : List Glue.Assignment}
    (h : (assigned.map fun a => Text.fold a.key).Nodup) :
    (valuesByKey assigned).entries = assigned.map fun a => (a.key, [a.value]) := by
  induction assigned using List.reverseRecOn with
  | nil => rfl
  | append_singleton assigned a ih =>
    rw [List.map_append, List.nodup_append] at h
    obtain ⟨hbefore, -, hlast⟩ := h
    have hnew : ∀ e ∈ (valuesByKey assigned).entries, Text.fold e.1 ≠ Text.fold a.key := by
      intro e he
      rw [ih hbefore] at he
      obtain ⟨b, hb, rfl⟩ := List.mem_map.1 he
      exact hlast _ (List.mem_map_of_mem hb) _ (by simp)
    rw [valuesByKey_concat, Lexicon.entries_insert_of_new _ hnew, Lexicon.get?_eq_none_iff.2 hnew, ih hbefore,
      List.map_append]
    rfl

/-- The duplicates of a file are its keys with several values. -/
theorem entries_duplicates (table : Text) (lines : List Text) :
    (Entries.ofLines table lines).duplicates.entries =
      ((valuesByKey (assignments table lines)).entries.filter fun e => e.2.length > 1).map
        fun e => (e.1, ⟨e.1, e.2⟩) := by
  refine Lexicon.entries_ofList ?_
  rw [List.map_map]
  exact (List.filter_sublist.map _).nodup (valuesByKey (assignments table lines)).distinct

/-- A file has no duplicates when it assigns each key at most once. -/
theorem isEmpty_duplicates_iff {lines : List Text} :
    (Entries.ofLines table lines).duplicates.isEmpty = true ↔
      ∀ key, (literals table key lines).length ≤ 1 := by
  rw [Lexicon.isEmpty, entries_duplicates, List.isEmpty_iff, List.map_eq_nil_iff,
    List.filter_eq_nil_iff]
  constructor
  · intro h key
    have hvalues := get?_valuesByKey (assignments table lines) key
    unfold literals
    cases hl : ((assignments table lines).filter fun a => Text.fold a.key = Text.fold key).map
        (·.value) with
    | nil => simp
    | cons value values =>
      rw [hl] at hvalues
      obtain ⟨k, hmem, -⟩ := Lexicon.get?_eq_some_iff.1 hvalues
      simpa using h _ hmem
  · intro h e he
    have hvalues := get?_valuesByKey (assignments table lines) e.1
    have hfound : (valuesByKey (assignments table lines)).get? e.1 = some e.2 :=
      Lexicon.get?_eq_some_iff.2 ⟨e.1, he, rfl⟩
    have hshort := h e.1
    unfold literals at hshort
    rw [hfound] at hvalues
    cases hl : ((assignments table lines).filter fun a => Text.fold a.key = Text.fold e.1).map
        (·.value) with
    | nil => simp [hl] at hvalues
    | cons value values =>
      rw [hl] at hvalues hshort
      rw [Option.some.inj hvalues]
      simpa using hshort

/-- The texts of a file are the last values of its keys. -/
theorem entries_texts (table : Text) (lines : List Text) :
    (Entries.ofLines table lines).texts.entries =
      (valuesByKey (assignments table lines)).entries.map fun e => (e.1, e.2.getLastD []) := by
  refine Lexicon.entries_ofList ?_
  rw [List.map_map]
  exact (valuesByKey (assignments table lines)).distinct

/-- Every key of a file is spelled as in some literal assignment. -/
theorem exists_assignment_of_mem_entries {lines : List Text} {e : Text × Text}
    (h : e ∈ (Entries.ofLines table lines).texts.entries) :
    ∃ a ∈ assignments table lines, a.key = e.1 := by
  have hkey : e.1 ∈ (valuesByKey (assignments table lines)).keys := by
    rw [entries_texts] at h
    obtain ⟨e', he', rfl⟩ := List.mem_map.1 h
    exact List.mem_map_of_mem he'
  clear h
  revert hkey
  generalize assignments table lines = assigned
  induction assigned using List.reverseRecOn with
  | nil =>
    intro hkey
    simp [valuesByKey, Lexicon.keys] at hkey
  | append_singleton assigned a ih =>
    intro hkey
    rw [valuesByKey_concat] at hkey
    rcases Lexicon.mem_keys_of_mem_keys_insert hkey with hbefore | hlast
    · obtain ⟨a', ha', hk⟩ := ih hbefore
      exact ⟨a', by simp [ha'], hk⟩
    · exact ⟨a, by simp, hlast.symm⟩

end Locale

end Phrasebook
