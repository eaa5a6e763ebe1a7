import Mathlib.Tactic.SplitIfs
import Phrasebook.Proofs.Source.Literal
import Phrasebook.Source.Escape

/-!
# Segments of texts

A text is cut into segments, each a run of backslashes with the other character behind it. Segments
are what escapes work on: reading a raw text and writing a value both replace every segment by
another one. Whether a raw text stays within double quotes, and which value comes back when a value
is written and read, is therefore seen from the lengths of the runs in the value.
-/

namespace Phrasebook.Source

/-- Backslashes in a row and the other character behind them. Only the last segment of a text has
no such character. -/
@[ext]
structure Segment where
  /-- The number of backslashes. -/
  count : Nat
  /-- The character behind them. -/
  next : Option Char
  /-- That character is no backslash. -/
  next_ne : next ≠ some '\\'
  deriving DecidableEq

namespace Segment

/-- The text of a segment. -/
def text (s : Segment) : Text :=
  List.replicate s.count '\\' ++ s.next.toList

/-- The segment of backslashes at the end of a text. -/
def last (count : Nat) : Segment :=
  ⟨count, none, by simp⟩

end Segment

/-- The segments of a text behind some backslashes. -/
def segmentsFrom (count : Nat) : Text → List Segment
  | [] => [.last count]
  | c :: t =>
    if h : c = '\\' then segmentsFrom (count + 1) t
    else ⟨count, some c, by simpa using h⟩ :: segmentsFrom 0 t

/-- The segments of a text. -/
def segments (t : Text) : List Segment :=
  segmentsFrom 0 t

/-- Every text is made of segments: its last one, and others in front of a text. -/
@[elab_as_elim]
theorem segment_induction {motive : Text → Prop}
    (last : ∀ count, motive (Segment.last count).text)
    (cons : ∀ (s : Segment) (t : Text), s.next.isSome = true → motive t → motive (s.text ++ t))
    (t : Text) : motive t := by
  suffices ∀ count, motive (List.replicate count '\\' ++ t) from this 0
  induction t with
  | nil => exact last
  | cons c t ih =>
    intro count
    by_cases hc : c = '\\'
    · have hrun := ih (count + 1)
      rw [List.replicate_succ', List.append_assoc, List.singleton_append] at hrun
      exact hc ▸ hrun
    · have hfront := cons ⟨count, some c, by simpa using hc⟩ t rfl (ih 0)
      simpa [Segment.text] using hfront

/-- Backslashes in front of a text belong to its first segment. -/
theorem segmentsFrom_replicate_append (m n : Nat) (t : Text) :
    segmentsFrom m (List.replicate n '\\' ++ t) = segmentsFrom (m + n) t := by
  induction n generalizing m with
  | zero => rfl
  | succ n ih =>
    rw [List.replicate_succ, List.cons_append, segmentsFrom, dif_pos rfl, ih]
    congr 1
    omega

/-- The last segment of a text is the only one of its own text. -/
theorem segments_text {s : Segment} (h : s.next = none) : segments s.text = [s] := by
  obtain ⟨count, next, hne⟩ := s
  obtain rfl : next = none := h
  simp only [segments, Segment.text, segmentsFrom_replicate_append]
  simp [segmentsFrom, Segment.last]

/-- A segment in front of a text is the first one. -/
theorem segments_text_append {s : Segment} (h : s.next.isSome = true) (t : Text) :
    segments (s.text ++ t) = s :: segments t := by
  obtain ⟨count, next, hne⟩ := s
  obtain ⟨c, rfl⟩ := Option.isSome_iff_exists.1 h
  have hc : c ≠ '\\' := by simpa using hne
  simp only [segments, Segment.text, List.append_assoc, segmentsFrom_replicate_append]
  simp [segmentsFrom, hc]

/-- The segments of a text make up the text. -/
theorem flatMap_text_segments (t : Text) : (segments t).flatMap Segment.text = t := by
  induction t using segment_induction with
  | last count => rw [segments_text rfl, List.flatMap_singleton]
  | cons s t hs ih => rw [segments_text_append hs, List.flatMap_cons, ih]

/-- Segments that are replaced one by one are the segments of the new text. -/
theorem segments_flatMap {f : Segment → Segment} (hf : ∀ s, (f s).next.isSome = s.next.isSome)
    (t : Text) : segments ((segments t).flatMap fun s => (f s).text) = (segments t).map f := by
  induction t using segment_induction with
  | last count =>
    have hlast : (f (.last count)).next = none := by
      simpa [Segment.last] using hf (.last count)
    rw [segments_text rfl, List.flatMap_singleton, segments_text hlast, List.map_singleton]
  | cons s t hs ih =>
    rw [segments_text_append hs, List.flatMap_cons, segments_text_append (by rw [hf, hs]), ih,
      List.map_cons]

/-- Two backslashes in a row are a pair of a raw text. -/
theorem isRaw_replicate_append (quote : Char) (n : Nat) (t : Text) :
    isRaw quote (List.replicate (2 * n) '\\' ++ t) = isRaw quote t := by
  induction n with
  | zero => rfl
  | succ n ih => simpa [Nat.mul_succ, List.replicate_succ, isRaw] using ih

/-- Two backslashes in a row stand for one. -/
theorem unescape_replicate_append (n : Nat) (t : Text) :
    unescape (List.replicate (2 * n) '\\' ++ t) = List.replicate n '\\' ++ unescape t := by
  induction n with
  | zero => rfl
  | succ n ih => simpa [Nat.mul_succ, List.replicate_succ, unescape, escaped?] using ih

/-- A run of backslashes is made of pairs, up to the last backslash. -/
theorem replicate_eq_pairs (n : Nat) (t : Text) :
    List.replicate n '\\' ++ t =
      List.replicate (2 * (n / 2)) '\\' ++ (List.replicate (n % 2) '\\' ++ t) := by
  rw [← List.append_assoc, List.replicate_append_replicate, Nat.div_add_mod]

/-- A character that is no backslash stands for itself. -/
theorem unescape_cons {c : Char} (hc : c ≠ '\\') (t : Text) :
    unescape (c :: t) = c :: unescape t := by
  conv => lhs; unfold unescape
  simp [hc]

/-- Only the escape of the backslash stands for a backslash. -/
theorem eq_backslash_of_escaped? {c : Char} (h : escaped? c = some '\\') : c = '\\' := by
  unfold escaped? at h
  split_ifs at h
  · simp at h
  · simp at h
  · simp at h
  · exact Option.some.inj h

namespace Segment

/-- A segment of a raw text: a double quote stands behind a backslash that takes it along, and no
backslash is left over at the end. -/
def IsRaw (s : Segment) : Prop :=
  (s.next = some '"' → s.count % 2 = 1) ∧ (s.next = none → s.count % 2 = 0)

/-- What a segment of a raw text stands for: half of the backslashes, where the last one of an odd
number makes an escape with the character behind it, or else stays. -/
def read (s : Segment) : Segment where
  count := s.count / 2 + if s.count % 2 = 1 ∧ s.next.bind escaped? = none then 1 else 0
  next := if s.count % 2 = 1 then (s.next.bind escaped?).or s.next else s.next
  next_ne := by
    obtain ⟨count, next, hne⟩ := s
    dsimp only
    split_ifs
    · cases next with
      | none => simp
      | some c =>
        cases hc : escaped? c with
        | none => simpa [hc] using hne
        | some d =>
          have hd : d ≠ '\\' := by
            rintro rfl
            exact hne (congrArg some (eq_backslash_of_escaped? hc))
          simpa [hc] using hd
    · exact hne

/-- The last segment stands for the last one. -/
theorem isSome_next_read (s : Segment) : s.read.next.isSome = s.next.isSome := by
  simp only [read]
  split_ifs
  · cases s.next with
    | none => rfl
    | some c => cases hc : escaped? c <;> simp [hc]
  · rfl

/-- A segment in front of a text, or at the end, belongs to a raw text exactly when it is raw itself
and the rest is. -/
theorem isRaw_text_append {s : Segment} {t : Text} (h : s.next = none → t = []) :
    isRaw '"' (s.text ++ t) = true ↔ s.IsRaw ∧ isRaw '"' t = true := by
  obtain ⟨count, next, hne⟩ := s
  rw [text, List.append_assoc, replicate_eq_pairs, isRaw_replicate_append]
  have hparity := Nat.mod_two_eq_zero_or_one count
  cases next with
  | none =>
    obtain rfl := h rfl
    rcases hparity with heven | hodd
    · simp [IsRaw, heven, isRaw]
    · simp [IsRaw, hodd, isRaw]
  | some c =>
    have hc : c ≠ '\\' := by simpa using hne
    rcases hparity with heven | hodd
    · simp [IsRaw, heven, isRaw_cons hc]
    · simp [IsRaw, hodd, isRaw]

/-- A segment in front of a text, or at the end, is read by itself. -/
theorem unescape_text_append {s : Segment} {t : Text} (h : s.next = none → t = []) :
    unescape (s.text ++ t) = s.read.text ++ unescape t := by
  obtain ⟨count, next, hne⟩ := s
  rw [text, List.append_assoc, replicate_eq_pairs, unescape_replicate_append]
  have hparity := Nat.mod_two_eq_zero_or_one count
  cases next with
  | none =>
    obtain rfl := h rfl
    rcases hparity with heven | hodd
    · simp [read, text, heven, unescape]
    · simp [read, text, hodd, unescape, List.replicate_succ']
  | some c =>
    have hc : c ≠ '\\' := by simpa using hne
    rcases hparity with heven | hodd
    · simp [read, text, heven, unescape_cons hc]
    · cases he : escaped? c with
      | none => simp [read, text, hodd, he, unescape, List.replicate_succ']
      | some d => simp [read, text, hodd, he, unescape]

end Segment

/-- A text is raw when all of its segments are. -/
theorem isRaw_iff {t : Text} : isRaw '"' t = true ↔ ∀ s ∈ segments t, s.IsRaw := by
  induction t using segment_induction with
  | last count =>
    have hlast := @Segment.isRaw_text_append (.last count) [] fun _ => rfl
    rw [List.append_nil] at hlast
    rw [hlast, segments_text rfl, List.forall_mem_singleton]
    exact and_iff_left rfl
  | cons s t hs ih =>
    have hnext : s.next = none → t = [] := fun hnone => by simp [hnone] at hs
    rw [Segment.isRaw_text_append hnext, ih, segments_text_append hs, List.forall_mem_cons]

/-- A raw text is read segment by segment. -/
theorem unescape_eq (t : Text) : unescape t = (segments t).flatMap fun s => s.read.text := by
  induction t using segment_induction with
  | last count =>
    have hlast := @Segment.unescape_text_append (.last count) [] fun _ => rfl
    rw [List.append_nil] at hlast
    rw [hlast, segments_text rfl, List.flatMap_singleton]
    exact List.append_nil _
  | cons s t hs ih =>
    have hnext : s.next = none → t = [] := fun hnone => by simp [hnone] at hs
    rw [Segment.unescape_text_append hnext, ih, segments_text_append hs, List.flatMap_cons]

end Phrasebook.Source
