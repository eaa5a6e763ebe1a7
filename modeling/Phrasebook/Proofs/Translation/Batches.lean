import Mathlib.Data.List.Flatten
import Mathlib.Data.List.Pairwise
import Phrasebook.Proofs.Key.Lexicon
import Phrasebook.Proofs.Translation.Sending

/-!
# Batches and what becomes of them

The texts that are sent are cut into batches. Each batch has an outcome of its own, which is that of
its request. Since no text is sent twice, the translations that the batches add up to have, for each
text, what the outcome of its own batch says.
-/

namespace Phrasebook.Translation

variable {replies : Nat → Request → Reply} {s : Service} {target : Text}

/-- Without repetitions, the kept texts stand in the order in which they were seen first. -/
theorem pairwise_idxOf_eraseDups_filter (texts : List Text) (keep : Text → Bool) :
    (texts.filter keep).eraseDups.Pairwise fun t t' => texts.idxOf t < texts.idxOf t' := by
  induction texts generalizing keep with
  | nil => exact List.Pairwise.nil
  | cons x texts ih =>
    -- Behind a text other than `x` the places are counted from 1.
    have hshift : ∀ keep' : Text → Bool, keep' x = false →
        (texts.filter keep').eraseDups.Pairwise fun t t' =>
          (x :: texts).idxOf t < (x :: texts).idxOf t' := by
      intro keep' hx
      refine (ih keep').imp_of_mem fun {t t'} ht ht' hlt => ?_
      have hne : ∀ u ∈ (texts.filter keep').eraseDups, x ≠ u := by
        rintro u hu rfl
        have := (List.mem_filter.1 (List.mem_eraseDups.1 hu)).2
        exact absurd (hx.symm.trans this) Bool.false_ne_true
      rw [List.idxOf_cons_ne _ (hne t ht), List.idxOf_cons_ne _ (hne t' ht')]
      exact Nat.succ_lt_succ hlt
    by_cases hx : keep x = true
    · rw [List.filter_cons_of_pos hx, List.eraseDups_cons, List.filter_filter]
      refine List.pairwise_cons.2 ⟨fun t ht => ?_, hshift _ (by simp)⟩
      have hne : x ≠ t := by
        rintro rfl
        simpa using (List.mem_filter.1 (List.mem_eraseDups.1 ht)).2
      rw [List.idxOf_cons_self, List.idxOf_cons_ne _ hne]
      exact Nat.succ_pos _
    · rw [List.filter_cons_of_neg hx]
      exact hshift keep (by simpa using hx)

namespace Service

/-- A text is sent exactly when it is one of the texts and not blank. -/
theorem mem_worklist {texts : List Text} {t : Text} :
    t ∈ worklist texts ↔ t ∈ texts ∧ Text.isBlankText t = false := by
  simp [worklist, List.mem_eraseDups]

/-- The texts are sent in the order in which they were seen first. -/
theorem pairwise_worklist (texts : List Text) :
    (worklist texts).Pairwise fun t t' => texts.idxOf t < texts.idxOf t' :=
  pairwise_idxOf_eraseDups_filter texts _

/-- No text is sent twice. -/
theorem nodup_worklist (texts : List Text) : (worklist texts).Nodup :=
  (pairwise_worklist texts).imp fun hlt heq => absurd (heq ▸ hlt) (Nat.lt_irrefl _)

/-- The pieces of a list together are the list. -/
theorem flatten_piecesOf {α : Type} {size left : Nat} (hsize : 0 < size) {xs : List α}
    (hxs : xs.length ≤ left) : (piecesOf size left xs).flatten = xs := by
  induction left generalizing xs with
  | zero => simpa [piecesOf] using (List.length_eq_zero_iff.1 (Nat.le_zero.1 hxs)).symm
  | succ left ih =>
    cases xs with
    | nil => rfl
    | cons x xs =>
      have hdrop : ((x :: xs).drop size).length ≤ left := by
        rw [List.length_drop]
        rw [List.length_cons] at hxs ⊢
        omega
      rw [piecesOf, List.flatten_cons, ih hdrop, List.take_append_drop]

/-- No piece is empty, and none is longer than the size. -/
theorem length_of_mem_piecesOf {α : Type} {size left : Nat} (hsize : 0 < size) {xs piece : List α}
    (h : piece ∈ piecesOf size left xs) : 0 < piece.length ∧ piece.length ≤ size := by
  induction left generalizing xs with
  | zero => exact absurd h List.not_mem_nil
  | succ left ih =>
    cases xs with
    | nil => exact absurd h List.not_mem_nil
    | cons x xs =>
      rcases List.mem_cons.1 h with rfl | hrest
      · rw [List.length_take, List.length_cons]
        omega
      · exact ih hrest

/-- A batch has room for a text at least. -/
theorem size_pos (s : Service) : 0 < s.size :=
  Nat.lt_of_lt_of_le Nat.one_pos (Nat.le_max_left _ _)

/-- The batches together are the texts. -/
theorem flatten_batches (s : Service) (texts : List Text) : (s.batches texts).flatten = texts :=
  flatten_piecesOf s.size_pos (Nat.le_refl _)

end Service

/-- A batch of texts with the final outcome of its request. -/
structure SettledBatch where
  /-- The texts of the batch. -/
  texts : List Text
  /-- The final outcome of the request. -/
  outcome : Outcome
  /-- How often the request is sent again. -/
  repeats : Nat

namespace SettledBatch

/-- The texts of a batch with their translations. -/
def pairs (b : SettledBatch) : List (Text × Text) :=
  b.texts.zip b.outcome.texts

/-- The report about a batch, when `processed` texts of `total` are translated by now. -/
def progress (b : SettledBatch) (total processed : Nat) : TranslationProgress :=
  match b.outcome.result with
  | .ok _ => ⟨processed, total, b.texts.getLast?, none⟩
  | .error what => ⟨processed, total, none, some what⟩

@[simp] theorem processed_progress (b : SettledBatch) (total processed : Nat) :
    (b.progress total processed).processed = processed := by
  unfold progress
  split <;> rfl

/-- Only texts of a batch are translated with it, each at most once. -/
theorem sublist_fst_pairs (b : SettledBatch) : (b.pairs.map (·.1)).Sublist b.texts := by
  suffices ∀ texts translations : List Text,
      ((texts.zip translations).map (·.1)).Sublist texts from this b.texts b.outcome.texts
  intro texts translations
  induction texts generalizing translations with
  | nil => exact List.nil_sublist _
  | cons t texts ih =>
    cases translations with
    | nil => exact List.nil_sublist _
    | cons _ translations => exact (ih translations).cons_cons t

end SettledBatch

/-- The batches have these outcomes when the replies come one after another. -/
inductive Settles (s : Service) (target : Text) :
    (Nat → Request → Reply) → List SettledBatch → Prop
  | nil (replies : Nat → Request → Reply) : Settles s target replies []
  | cons {replies : Nat → Request → Reply} {b : SettledBatch} {rest : List SettledBatch}
      (first : IsSettled replies (s.request b.texts target) s.retries.toNat b.outcome b.repeats)
      (later : Settles s target (fun i => replies (b.repeats + 1 + i)) rest) :
      Settles s target replies (b :: rest)

/-- Every list of batches has outcomes. -/
theorem exists_settles (s : Service) (target : Text) (batches : List (List Text))
    (replies : Nat → Request → Reply) :
    ∃ settled, Settles s target replies settled ∧ settled.map (·.texts) = batches := by
  induction batches generalizing replies with
  | nil => exact ⟨[], .nil replies, rfl⟩
  | cons batch batches ih =>
    obtain ⟨outcome, repeats, hfirst⟩ :=
      exists_isSettled replies (s.request batch target) s.retries.toNat
    obtain ⟨settled, hlater, rfl⟩ := ih fun i => replies (repeats + 1 + i)
    exact ⟨⟨batch, outcome, repeats⟩ :: settled, .cons hfirst hlater, rfl⟩

/-- Each batch is settled by the replies from some place on. -/
theorem Settles.isSettled_of_mem {settled : List SettledBatch}
    (h : Settles s target replies settled) {b : SettledBatch} (hb : b ∈ settled) :
    ∃ start, IsSettled (fun i => replies (start + i)) (s.request b.texts target) s.retries.toNat
      b.outcome b.repeats := by
  induction h with
  | nil => exact absurd hb List.not_mem_nil
  | @cons replies first' rest first later ih =>
    rcases List.mem_cons.1 hb with rfl | hrest
    · exact ⟨0, by simpa using first⟩
    · obtain ⟨start, hstart⟩ := ih hrest
      refine ⟨first'.repeats + 1 + start, ?_⟩
      simpa only [Nat.add_assoc] using hstart

/-- The translations that the batches add up to. -/
def translatedPairs (settled : List SettledBatch) : List (Text × Text) :=
  settled.flatMap SettledBatch.pairs

/-- The reports about batches, when `processed` texts of `total` are translated before them. -/
def progressReports (total : Nat) : Nat → List SettledBatch → List TranslationProgress
  | _, [] => []
  | processed, b :: rest =>
    b.progress total (processed + b.pairs.length) ::
      progressReports total (processed + b.pairs.length) rest

/-- There is one report about each batch, which counts the texts that are translated by then. -/
theorem getElem?_progressReports (total processed : Nat) (settled : List SettledBatch) (i : Nat) :
    (progressReports total processed settled)[i]? = settled[i]?.map fun b =>
      b.progress total (processed + (translatedPairs (settled.take (i + 1))).length) := by
  induction settled generalizing processed i with
  | nil => simp [progressReports]
  | cons b rest ih =>
    cases i with
    | zero => simp [progressReports, translatedPairs]
    | succ i => simp [progressReports, ih, translatedPairs, Nat.add_assoc]

/-- There are as many reports as batches. -/
theorem length_progressReports (total processed : Nat) (settled : List SettledBatch) :
    (progressReports total processed settled).length = settled.length := by
  induction settled generalizing processed with
  | nil => rfl
  | cons b rest ih => rw [progressReports, List.length_cons, ih, List.length_cons]

/-- The number of translated texts never decreases. -/
theorem pairwise_progressReports (total processed : Nat) (settled : List SettledBatch) :
    (progressReports total processed settled).Pairwise fun p p' => p.processed ≤ p'.processed := by
  rw [List.pairwise_iff_getElem]
  intro i j hi hj hij
  have hmono : ∀ k (hk : k < (progressReports total processed settled).length),
      (progressReports total processed settled)[k].processed =
        processed + (translatedPairs (settled.take (k + 1))).length := by
    intro k hk
    have hget := getElem?_progressReports total processed settled k
    rw [List.getElem?_eq_getElem hk] at hget
    obtain ⟨b, -, hb⟩ := Option.map_eq_some_iff.1 hget.symm
    rw [← hb, SettledBatch.processed_progress]
  rw [hmono, hmono]
  have hprefix : settled.take (i + 1) <+: settled.take (j + 1) :=
    List.take_prefix_take_left (by omega)
  obtain ⟨more, hmore⟩ := hprefix
  rw [← hmore, translatedPairs, translatedPairs, List.flatMap_append, List.length_append]
  omega

/-- When no text is sent twice, no text is translated twice. -/
theorem nodup_fst_translatedPairs {settled : List SettledBatch}
    (h : (settled.flatMap (·.texts)).Nodup) : ((translatedPairs settled).map (·.1)).Nodup := by
  have hsub : ((translatedPairs settled).map (·.1)).Sublist (settled.flatMap (·.texts)) := by
    rw [translatedPairs, List.map_flatMap]
    exact List.Sublist.flatMap_right _ fun b _ => b.sublist_fst_pairs
  exact hsub.nodup h

/-- When no text is sent twice, a text has the translation that the outcome of its own batch has at
the place of the text in the batch. -/
theorem get?_of_translatedPairs {settled : List SettledBatch} {known : Dictionary Text}
    (hknown : known.entries = translatedPairs settled)
    (hnodup : (settled.flatMap (·.texts)).Nodup) {b : SettledBatch} (hb : b ∈ settled) {i : Nat}
    {text : Text} (hi : b.texts[i]? = some text) : known.get? text = b.outcome.texts[i]? := by
  obtain ⟨hbatch, hdisjoint⟩ := List.nodup_flatMap.1 hnodup
  have : Std.Symm (Function.onFun List.Disjoint fun b : SettledBatch => b.texts) :=
    ⟨fun _ _ h => List.disjoint_symm h⟩
  cases houtcome : b.outcome.texts[i]? with
  | some translation =>
    have hpair : (text, translation) ∈ b.pairs :=
      List.mem_of_getElem? (List.getElem?_zip_eq_some.2 ⟨hi, houtcome⟩)
    have hentry : (text, translation) ∈ known.entries :=
      hknown ▸ List.mem_flatMap.2 ⟨b, hb, hpair⟩
    exact Lexicon.get?_eq_some_iff.2 ⟨text, hentry, rfl⟩
  | none =>
    refine Lexicon.get?_eq_none_iff.2 fun e he htext => ?_
    obtain ⟨b', hb', hpair⟩ := List.mem_flatMap.1 (hknown ▸ he)
    obtain rfl : e.1 = text := htext
    by_cases hsame : b = b'
    · -- In its own batch the text stands at one place only.
      subst hsame
      obtain ⟨j, hj⟩ := List.getElem?_of_mem hpair
      obtain ⟨hfst, hsnd⟩ := List.getElem?_zip_eq_some.1 hj
      obtain ⟨hlt, -⟩ := List.getElem?_eq_some_iff.1 hi
      obtain rfl := (List.getElem?_inj hlt (hbatch b hb)).1 (hi.trans hfst.symm)
      exact absurd (hsnd.symm.trans houtcome) (by simp)
    · exact hdisjoint.forall hb hb' hsame (List.mem_of_getElem? hi)
        (List.of_mem_zip hpair).1

end Phrasebook.Translation
