import Mathlib.Data.List.Nodup
import Mathlib.Data.List.Pairwise
import Phrasebook.Key.Order

/-!
# The order of keys

Code point order is a total order of texts, and so is key order. A list of keys that are in key order
is therefore what sorting makes of it.
-/

namespace Phrasebook

namespace Text

variable {α : Type} [DecidableEq α] {before : α → α → Bool}

/-- Lists are compared one way or the other when their elements are. -/
theorem firstDifferenceLe_total (hbefore : ∀ a b, (before a b || before b a) = true)
    (s t : List α) :
    (firstDifferenceLe before s t || firstDifferenceLe before t s) = true := by
  induction s generalizing t with
  | nil => simp [firstDifferenceLe]
  | cons a s ih =>
    cases t with
    | nil => simp [firstDifferenceLe]
    | cons b t =>
      by_cases h : a = b
      · simpa [firstDifferenceLe, h] using ih t
      · simpa [firstDifferenceLe, h, Ne.symm h] using hbefore a b

/-- The order by the first difference is transitive when the order of the elements is one. -/
theorem firstDifferenceLe_trans
    (htrans : ∀ a b c, before a b = true → before b c = true → before a c = true)
    (hantisymm : ∀ a b, before a b = true → before b a = true → a = b) {s t u : List α}
    (hst : firstDifferenceLe before s t = true) (htu : firstDifferenceLe before t u = true) :
    firstDifferenceLe before s u = true := by
  induction s generalizing t u with
  | nil => rfl
  | cons a s ih =>
    obtain _ | ⟨b, t⟩ := t
    · simp [firstDifferenceLe] at hst
    obtain _ | ⟨c, u⟩ := u
    · simp [firstDifferenceLe] at htu
    rw [firstDifferenceLe] at hst htu ⊢
    by_cases hab : a = b
    · subst hab
      by_cases hac : a = c
      · subst hac
        rw [if_pos rfl] at hst htu ⊢
        exact ih hst htu
      · rw [if_neg hac] at htu ⊢
        exact htu
    · rw [if_neg hab] at hst
      by_cases hbc : b = c
      · subst hbc
        rw [if_neg hab]
        exact hst
      · rw [if_neg hbc] at htu
        -- The elements differ: the first is before the last, since it is before the middle one.
        have hac : a ≠ c := fun h => hab (hantisymm a b hst (h ▸ htu))
        rw [if_neg hac]
        exact htrans a b c hst htu

/-- Of two texts, one does not come after the other. -/
theorem le_total (a b : Text) : (le a b || le b a) = true :=
  firstDifferenceLe_total (fun c d => by simpa using Nat.le_total c.toNat d.toNat) a b

/-- No text comes after itself. -/
theorem le_refl (t : Text) : le t t = true := by
  simpa using le_total t t

/-- Code point order is transitive. -/
theorem le_trans {a b c : Text} (hab : le a b = true) (hbc : le b c = true) : le a c = true := by
  refine firstDifferenceLe_trans (fun x y z hxy hyz => ?_) (fun x y hxy hyx => ?_) hab hbc
  · simp only [decide_eq_true_eq] at hxy hyz ⊢
    omega
  · simp only [decide_eq_true_eq] at hxy hyx
    exact Char.toNat_inj.1 (by omega)

/-- Texts that do not come after each other are the same. -/
theorem le_antisymm {a b : Text} (hab : le a b = true) (hba : le b a = true) : a = b := by
  induction a generalizing b with
  | nil =>
    cases b with
    | nil => rfl
    | cons d b => simp [le, firstDifferenceLe] at hba
  | cons c a ih =>
    obtain _ | ⟨d, b⟩ := b
    · simp [le, firstDifferenceLe] at hab
    by_cases hcd : c = d
    · subst hcd
      rw [ih (by simpa [le, firstDifferenceLe] using hab)
        (by simpa [le, firstDifferenceLe] using hba)]
    · simp only [le, firstDifferenceLe, if_neg hcd, if_neg (Ne.symm hcd), decide_eq_true_eq]
        at hab hba
      exact absurd (Char.toNat_inj.1 (by omega)) hcd

/-- Texts that start with parts of one length are compared by these parts, and by the rest when the
parts are the same. -/
theorem le_append {a b s t : Text} (h : a.length = b.length) :
    le (a ++ s) (b ++ t) = if a = b then le s t else le a b := by
  induction a generalizing b with
  | nil =>
    obtain rfl : b = [] := List.length_eq_zero_iff.1 h.symm
    simp
  | cons c a ih =>
    cases b with
    | nil => simp at h
    | cons d b =>
      have hrest := ih (by simpa using h)
      by_cases hcd : c = d
      · subst hcd
        simpa [le, firstDifferenceLe] using hrest
      · simp [le, firstDifferenceLe, hcd]

/-- Sorted texts are in order. -/
theorem pairwise_sort (texts : List Text) :
    (sort texts).Pairwise fun a b => le a b = true :=
  @List.pairwise_mergeSort _ le (fun _ _ _ hab hbc => le_trans hab hbc) le_total texts

/-- Selecting texts before or after sorting them makes no difference. -/
theorem filter_sort (texts : List Text) (keep : Text → Bool) :
    (sort texts).filter keep = sort (texts.filter keep) := by
  have hperm : ((sort texts).filter keep).Perm (sort (texts.filter keep)) :=
    ((List.mergeSort_perm _ _).filter keep).trans (List.mergeSort_perm _ _).symm
  exact hperm.eq_of_pairwise (fun _ _ _ _ => le_antisymm) ((pairwise_sort texts).filter keep)
    (pairwise_sort _)

/-- The last of texts in order is the one that does not come before another one. -/
theorem getLast?_eq_some {texts : List Text} (hsorted : texts.Pairwise fun a b => le a b = true)
    {last : Text} (hmem : last ∈ texts) (hle : ∀ t ∈ texts, le t last = true) :
    texts.getLast? = some last := by
  have hne := List.ne_nil_of_mem hmem
  have hlast := hsorted.rel_getLast_of_rel_getLast_getLast hmem (le_refl _)
  rw [List.getLast?_eq_some_getLast hne, le_antisymm hlast (hle _ (List.getLast_mem hne))]

end Text

/-- Of two keys, one does not come after the other. -/
theorem keyLe_total (a b : Text) : (keyLe a b || keyLe b a) = true := by
  by_cases h : Text.fold a = Text.fold b
  · simpa [keyLe, h] using Text.le_total a b
  · simpa [keyLe, h, Ne.symm h] using Text.le_total (Text.fold a) (Text.fold b)

/-- Key order is transitive. -/
theorem keyLe_trans (a b c : Text) (hab : keyLe a b = true) (hbc : keyLe b c = true) :
    keyLe a c = true := by
  simp only [keyLe] at hab hbc ⊢
  by_cases h : Text.fold a = Text.fold b
  · rw [h] at hab ⊢
    rw [if_pos rfl] at hab
    by_cases h' : Text.fold b = Text.fold c
    · rw [if_pos h'] at hbc ⊢
      exact Text.le_trans hab hbc
    · rw [if_neg h'] at hbc ⊢
      exact hbc
  · rw [if_neg h] at hab
    by_cases h' : Text.fold b = Text.fold c
    · rw [if_neg (h' ▸ h), ← h']
      exact hab
    · rw [if_neg h'] at hbc
      -- The folded forms differ throughout, since the first would else be the middle one.
      have hne : Text.fold a ≠ Text.fold c := fun hac =>
        h (Text.le_antisymm hab (hac ▸ hbc))
      rw [if_neg hne]
      exact Text.le_trans hab hbc

/-- Keys that do not come after each other are the same. -/
theorem keyLe_antisymm {a b : Text} (hab : keyLe a b = true) (hba : keyLe b a = true) : a = b := by
  simp only [keyLe] at hab hba
  by_cases h : Text.fold a = Text.fold b
  · rw [if_pos h] at hab
    rw [if_pos h.symm] at hba
    exact Text.le_antisymm hab hba
  · rw [if_neg h] at hab
    rw [if_neg (Ne.symm h)] at hba
    exact absurd (Text.le_antisymm hab hba) h

/-- Sorting keys leaves none out. -/
theorem sortKeys_perm (keys : List Text) : (sortKeys keys).Perm keys :=
  List.mergeSort_perm _ _

/-- Sorted keys are in key order. -/
theorem pairwise_sortKeys (keys : List Text) :
    (sortKeys keys).Pairwise fun a b => keyLe a b = true :=
  List.pairwise_mergeSort keyLe_trans keyLe_total keys

/-- Entries that are sorted by their keys are in key order. -/
theorem pairwise_mergeSort_keyLe {V : Type} (entries : List (Text × V)) :
    (entries.mergeSort fun a b => keyLe a.1 b.1).Pairwise fun a b => keyLe a.1 b.1 = true :=
  List.pairwise_mergeSort (fun a b c => keyLe_trans a.1 b.1 c.1) (fun a b => keyLe_total a.1 b.1)
    entries

/-- Entries with different keys stand in key order in one way only. -/
theorem eq_of_perm_of_pairwise_keyLe {V : Type} {entries entries' : List (Text × V)}
    (h : entries.Perm entries') (hsorted : entries.Pairwise fun a b => keyLe a.1 b.1 = true)
    (hsorted' : entries'.Pairwise fun a b => keyLe a.1 b.1 = true)
    (hkeys : (entries.map (·.1)).Nodup) : entries = entries' :=
  h.eq_of_pairwise (fun _ _ ha hb hab hba =>
    List.inj_on_of_nodup_map hkeys ha (h.mem_iff.2 hb) (keyLe_antisymm hab hba)) hsorted hsorted'

/-- Entries are sorted by their keys as the keys are. -/
theorem sortKeys_map_fst {V : Type} (entries : List (Text × V)) :
    sortKeys (entries.map (·.1)) = (entries.mergeSort fun a b => keyLe a.1 b.1).map (·.1) := by
  have hkeys : ∀ a ∈ entries, ∀ b ∈ entries, keyLe a.1 b.1 = keyLe a.1 b.1 :=
    fun _ _ _ _ => rfl
  exact (List.map_mergeSort hkeys).symm

/-- Selecting entries before or after sorting them by their keys makes no difference. -/
theorem filter_mergeSort_keyLe {V : Type} {entries : List (Text × V)}
    (hkeys : (entries.map (·.1)).Nodup) (keep : Text × V → Bool) :
    (entries.mergeSort fun a b => keyLe a.1 b.1).filter keep =
      (entries.filter keep).mergeSort fun a b => keyLe a.1 b.1 := by
  have hperm := List.mergeSort_perm entries fun a b => keyLe a.1 b.1
  refine eq_of_perm_of_pairwise_keyLe ((hperm.filter keep).trans (List.mergeSort_perm _ _).symm)
    ((pairwise_mergeSort_keyLe entries).filter keep) (pairwise_mergeSort_keyLe _) ?_
  exact (List.filter_sublist.map _).nodup ((hperm.map _).nodup_iff.2 hkeys)

/-- Keys that are in key order are what sorting makes of them, however they were listed before. -/
theorem eq_sortKeys_of_perm {sorted keys : List Text}
    (hsorted : sorted.Pairwise fun a b => keyLe a b = true) (h : sorted.Perm keys) :
    sorted = sortKeys keys :=
  (h.trans (sortKeys_perm keys).symm).eq_of_pairwise (fun _ _ _ _ => keyLe_antisymm) hsorted
    (pairwise_sortKeys keys)

end Phrasebook
