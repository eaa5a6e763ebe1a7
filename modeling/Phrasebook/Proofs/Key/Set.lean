import Phrasebook.Key.Set

/-!
# Membership in key sets

Membership of a key depends on its folded form only, and a set with one more key has one more
member.
-/

namespace Phrasebook.KeySet

/-- Sets with the same keys are the same. -/
theorem ext_keys {s t : KeySet} (h : s.keys = t.keys) : s = t := by
  cases s
  cases t
  simpa using h

@[simp] theorem contains_empty (key : Text) : (∅ : KeySet).contains key = false := rfl

/-- A key belongs to a set exactly when some key of the set has its folded form. -/
theorem contains_iff {s : KeySet} {key : Text} :
    s.contains key = true ↔ ∃ k ∈ s.keys, Text.fold k = Text.fold key := by
  simp [contains]

/-- Membership depends on the folded form only. -/
theorem contains_congr (s : KeySet) {k k' : Text} (h : Text.fold k = Text.fold k') :
    s.contains k = s.contains k' := by
  simp only [contains, h]

/-- A set with one more key has that key and those that it had. -/
theorem contains_insert (s : KeySet) (key key' : Text) :
    (s.insert key).contains key' =
      (decide (Text.fold key = Text.fold key') || s.contains key') := by
  unfold insert
  split
  · rename_i h
    by_cases hf : Text.fold key = Text.fold key'
    · simp [hf, ← contains_congr s hf, h]
    · simp [hf]
  · rw [Bool.eq_iff_iff]
    simp only [contains_iff, Bool.or_eq_true, decide_eq_true_eq, List.mem_append,
      List.mem_singleton]
    constructor
    · rintro ⟨k, hk | rfl, hf⟩
      · exact Or.inr ⟨k, hk, hf⟩
      · exact Or.inl hf
    · rintro (hf | ⟨k, hk, hf⟩)
      · exact ⟨key, Or.inr rfl, hf⟩
      · exact ⟨k, Or.inl hk, hf⟩

/-- A set with several more keys has those keys and the ones that it had. -/
theorem contains_insertAll {s : KeySet} {keys : List Text} {key : Text} :
    (s.insertAll keys).contains key = true ↔
      s.contains key = true ∨ ∃ k ∈ keys, Text.fold k = Text.fold key := by
  induction keys generalizing s with
  | nil => simp [insertAll]
  | cons k keys ih =>
    have hstep : s.insertAll (k :: keys) = (s.insert k).insertAll keys := rfl
    rw [hstep, ih, contains_insert, Bool.or_eq_true, decide_eq_true_eq]
    constructor
    · rintro ((hk | hs) | ⟨k', hk', hfold⟩)
      · exact Or.inr ⟨k, List.mem_cons_self, hk⟩
      · exact Or.inl hs
      · exact Or.inr ⟨k', List.mem_cons_of_mem _ hk', hfold⟩
    · rintro (hs | ⟨k', hk', hfold⟩)
      · exact Or.inl (Or.inr hs)
      · rcases List.mem_cons.1 hk' with rfl | hk'
        · exact Or.inl (Or.inl hfold)
        · exact Or.inr ⟨k', hk', hfold⟩

/-- The set of given keys has those keys. -/
theorem contains_ofList {keys : List Text} {key : Text} :
    (ofList keys).contains key = true ↔ ∃ k ∈ keys, Text.fold k = Text.fold key :=
  contains_insertAll.trans (or_iff_right Bool.false_ne_true)

end Phrasebook.KeySet
