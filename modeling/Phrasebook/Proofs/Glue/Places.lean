import Mathlib.Data.List.Perm.Subperm
import Mathlib.Data.List.Induction
import Phrasebook.Glue.Info

/-!
# Lists of places

A list of places grows by new places only, and no longer at its cap. What a capped list leaves out
does not matter: when one list is added to another, all of its elements are there in the end unless
the cap was reached, so adding a capped list is adding all that it was made of.
-/

namespace Phrasebook.Glue

variable {cap : Int} {places others : List Place} {place : Place}

/-- A list of places as it is kept under a cap: without repetitions and, unless the cap is negative,
no longer than the cap. -/
structure IsCapped (cap : Int) (places : List Place) : Prop where
  /-- No place is repeated. -/
  nodup : places.Nodup
  /-- The cap is not exceeded. -/
  length_le : 0 ≤ cap → places.length ≤ cap

/-- A list without room for a place stays as it is. -/
theorem addPlace_of_known (h : place ∈ places) : addPlace cap places place = places := by
  simp [addPlace, hasRoom, h]

/-- A list at its cap stays as it is. -/
theorem addPlace_of_full (h : cap ≤ places.length) : addPlace cap places place = places := by
  have hfull : ¬ (places.length : Int) < cap := by omega
  simp [addPlace, hasRoom, hfull]

/-- A new place comes last as long as the cap is not reached. -/
theorem addPlace_of_new (hroom : places.length < cap) (hnew : place ∉ places) :
    addPlace cap places place = places ++ [place] := by
  simp [addPlace, hasRoom, hroom, hnew]

/-- A list without places is kept under every cap. -/
theorem isCapped_nil (cap : Int) : IsCapped cap [] where
  nodup := List.nodup_nil
  length_le h := by simpa using h

/-- One more place is no repetition. -/
theorem nodup_addPlace (h : places.Nodup) (place : Place) : (addPlace cap places place).Nodup := by
  by_cases hknown : place ∈ places
  · rwa [addPlace_of_known hknown]
  · by_cases hroom : (places.length : Int) < cap
    · rw [addPlace_of_new hroom hknown]
      refine List.nodup_append.2 ⟨h, by simp, ?_⟩
      intro a ha b hb hab
      obtain rfl := List.mem_singleton.1 hb
      exact hknown (hab ▸ ha)
    · rwa [addPlace_of_full (by omega)]

/-- Several more places are no repetitions. -/
theorem nodup_foldl_addPlace (h : places.Nodup) (others : List Place) :
    (others.foldl (addPlace cap) places).Nodup := by
  induction others generalizing places with
  | nil => exact h
  | cons place others ih => exact ih (nodup_addPlace h place)

/-- One more place leaves a list capped. -/
theorem IsCapped.addPlace (h : IsCapped cap places) (place : Place) :
    IsCapped cap (Glue.addPlace cap places place) := by
  refine ⟨nodup_addPlace h.nodup place, fun hcap => ?_⟩
  have hlength := h.length_le hcap
  by_cases hknown : place ∈ places
  · rwa [addPlace_of_known hknown]
  · by_cases hroom : (places.length : Int) < cap
    · rw [addPlace_of_new hroom hknown, List.length_append, List.length_singleton]
      omega
    · rwa [addPlace_of_full (by omega)]

/-- Several more places leave a list capped. -/
theorem IsCapped.foldl_addPlace (h : IsCapped cap places) (others : List Place) :
    IsCapped cap (others.foldl (Glue.addPlace cap) places) := by
  induction others generalizing places with
  | nil => exact h
  | cons place others ih => exact ih (h.addPlace place)

/-- A list that is cut to a cap is capped. -/
theorem IsCapped.truncate {before : Int} (h : IsCapped before places) (cap : Int) :
    IsCapped cap (Glue.truncate cap places) := by
  cases cap with
  | ofNat n =>
    refine ⟨(List.take_sublist _ _).nodup h.nodup, fun _ => ?_⟩
    have hlength := List.length_take_le n places
    exact Int.ofNat_le.2 hlength
  | negSucc n => exact ⟨(List.take_sublist _ _).nodup h.nodup, fun hcap => by omega⟩

/-- A list that is kept under a cap is not cut. -/
theorem IsCapped.truncate_eq_self (h : IsCapped cap places) (hcap : 0 ≤ cap) :
    Glue.truncate cap places = places := by
  have hlength := h.length_le hcap
  cases cap with
  | ofNat n => exact List.take_of_length_le (Int.ofNat_le.1 hlength)
  | negSucc n => omega

/-- A list that does not reach its cap has taken in all places that were added to it. -/
theorem subset_foldl_addPlace (cap : Int) (places others : List Place)
    (hroom : (others.foldl (addPlace cap) places).length < cap) :
    others ⊆ others.foldl (addPlace cap) places := by
  induction others using List.reverseRecOn with
  | nil => exact List.nil_subset _
  | append_singleton others place ih =>
    rw [List.foldl_append, List.foldl_cons, List.foldl_nil] at hroom ⊢
    generalize others.foldl (addPlace cap) places = before at hroom ih ⊢
    by_cases hknown : place ∈ before
    · rw [addPlace_of_known hknown] at hroom ⊢
      exact List.append_subset.2 ⟨ih hroom, by simpa using hknown⟩
    · by_cases hfull : cap ≤ before.length
      · rw [addPlace_of_full hfull] at hroom
        omega
      · have hroom' : (before.length : Int) < cap := by omega
        rw [addPlace_of_new hroom' hknown]
        refine List.append_subset.2 ⟨fun p hp => ?_, by simp⟩
        exact List.mem_append_left _ (ih (by omega) hp)

/-- Adding a capped list is adding all the places that it was made of. -/
theorem foldl_addPlace_assoc (places : List Place) {others : List Place} (hothers : others.Nodup)
    (more : List Place) :
    (more.foldl (addPlace cap) others).foldl (addPlace cap) places =
      more.foldl (addPlace cap) (others.foldl (addPlace cap) places) := by
  induction more using List.reverseRecOn with
  | nil => rfl
  | append_singleton more place ih =>
    rw [List.foldl_append, List.foldl_append, List.foldl_cons, List.foldl_nil, List.foldl_cons,
      List.foldl_nil, ← ih]
    have hnodup : (more.foldl (addPlace cap) others).Nodup := nodup_foldl_addPlace hothers more
    generalize more.foldl (addPlace cap) others = capped at hnodup ⊢
    have hall := subset_foldl_addPlace cap places capped
    by_cases hfull : cap ≤ (capped.foldl (addPlace cap) places).length
    · -- The target is full already, whether or not the capped list takes in the place.
      rw [addPlace_of_full hfull]
      unfold addPlace
      split
      · rw [List.foldl_append, List.foldl_cons, List.foldl_nil]
        exact addPlace_of_full hfull
      · rfl
    · have hsubset := hall (by omega)
      by_cases hknown : place ∈ capped
      · rw [addPlace_of_known hknown, addPlace_of_known (hsubset hknown)]
      · -- The target has room, so the capped list, all of which it contains, has room too.
        have hshorter : capped.length ≤ (capped.foldl (addPlace cap) places).length :=
          (List.subperm_of_subset hnodup hsubset).length_le
        have hroom : (capped.length : Int) < cap := by omega
        rw [addPlace_of_new hroom hknown, List.foldl_append, List.foldl_cons, List.foldl_nil]

end Phrasebook.Glue
