import Mathlib.Data.List.Chain
import Phrasebook.Proofs.Source.Segment

/-!
# Escaping values segment by segment

What is written for a segment of a value depends on that segment only. Of its backslashes only the
last one may be doubled, and the character behind them gets a backslash of its own when it needs
one. So the lengths of the runs of backslashes decide whether the raw text of a value is a literal
that closes where it should, and whether that literal stands for the value again.

Writing leaves alone what looks escaped already, so a value in which a backslash stands before the
letter of a common escape is not what its raw text stands for. A value without such a pair is plain,
and comes back from what is written for it.
-/

namespace Phrasebook.Source

namespace Segment

/-- The letter that a control character is written with; other characters stand for themselves. -/
def letter (c : Char) : Char :=
  if c = '\n' then 'n' else if c = '\r' then 'r' else if c = '\t' then 't' else c

/-- Only the backslash is written with a backslash for its letter. -/
theorem eq_backslash_of_letter {c : Char} (h : letter c = '\\') : c = '\\' := by
  unfold letter at h
  split_ifs at h
  · simp at h
  · simp at h
  · simp at h
  · exact h

/-- Whether the character behind the backslashes gets one of its own: control characters do, and so
does a double quote, unless exactly one backslash stands in front of it. -/
def isMarked (s : Segment) : Bool :=
  s.next.any fun c => c = '\n' || c = '\r' || c = '\t' || c = '"' && s.count ≠ 1

/-- What is written for a segment of a value. The last backslash is doubled unless it seems to start
an escape. -/
def written (s : Segment) : Segment where
  count := (if s.count = 0 || s.next.any keepsBackslash then s.count else s.count + 1) +
    if s.isMarked then 1 else 0
  next := s.next.map letter
  next_ne := by
    intro h
    obtain ⟨c, hnext, hc⟩ := Option.map_eq_some_iff.1 h
    exact s.next_ne (by rw [hnext, eq_backslash_of_letter hc])

/-- The last segment is written as the last one. -/
theorem isSome_next_written (s : Segment) : s.written.next.isSome = s.next.isSome :=
  Option.isSome_map

end Segment

/-- Of backslashes in a row, the last one is doubled when it starts no escape. -/
theorem escapeFrom_replicate_append (before previous : Option Char) (n : Nat) (t : Text) :
    escapeFrom before previous (List.replicate (n + 1) '\\' ++ t) =
      List.replicate (n + if t.head?.any keepsBackslash then 1 else 2) '\\' ++
        escapeFrom (if n = 0 then previous else some '\\') (some '\\') t := by
  induction n generalizing before previous with
  | zero =>
    by_cases h : t.head?.any keepsBackslash = true <;> simp [escapeFrom, escapeChar, h]
  | succ n ih =>
    have hkeeps : keepsBackslash '\\' = true := rfl
    rw [List.replicate_succ, List.cons_append, escapeFrom, ih, Nat.add_right_comm,
      List.replicate_succ]
    simp [escapeChar, List.replicate_succ, hkeeps]

namespace Segment

/-- The character behind the backslashes is written with a backslash of its own or without. -/
theorem escapeChar_eq {s : Segment} {c : Char} (hnext : s.next = some c)
    {before previous : Option Char} (hquote : isEscapedAfter before previous = decide (s.count = 1))
    (following : Option Char) : escapeChar before previous c following =
      List.replicate (if s.isMarked then 1 else 0) '\\' ++ [letter c] := by
  have hc : c ≠ '\\' := by
    have hne := s.next_ne
    rw [hnext] at hne
    simpa using hne
  unfold escapeChar letter
  split_ifs with hq he hn hr ht <;> simp_all [isMarked]

/-- A segment in front of a text is written by itself. -/
theorem escapeFrom_text_append {s : Segment} {c : Char} (hnext : s.next = some c)
    {before previous : Option Char} (hprevious : previous ≠ some '\\') (t : Text) :
    ∃ before', escapeFrom before previous (s.text ++ t) =
      s.written.text ++ escapeFrom before' (some c) t := by
  cases hcount : s.count with
  | zero =>
    have hquote : isEscapedAfter before previous = decide (s.count = 1) := by
      simp [isEscapedAfter, hprevious, hcount]
    refine ⟨previous, ?_⟩
    have hchar := escapeChar_eq hnext hquote t.head?
    simp [text, written, hnext, hcount, escapeFrom, hchar]
  | succ n =>
    have hquote : isEscapedAfter (if n = 0 then previous else some '\\') (some '\\') =
        decide (s.count = 1) := by
      by_cases hn : n = 0 <;> simp [isEscapedAfter, hn, hprevious, hcount]
    have hwritten : s.written.count = (n + if keepsBackslash c then 1 else 2) +
        if s.isMarked then 1 else 0 := by
      simp only [written, hcount, hnext]
      split_ifs <;> simp_all
    have hletter : s.written.next = some (letter c) := congrArg (Option.map letter) hnext
    have hrun := escapeFrom_replicate_append before previous n (c :: t)
    rw [escapeFrom, escapeChar_eq hnext hquote, List.append_assoc, ← List.append_assoc,
      List.replicate_append_replicate] at hrun
    refine ⟨some '\\', ?_⟩
    rw [text, text, hcount, hnext, hwritten, hletter, List.append_assoc, List.append_assoc]
    exact hrun

/-- The backslashes at the end of a value are written by themselves. -/
theorem escapeFrom_text_last (before previous : Option Char) (count : Nat) :
    escapeFrom before previous (last count).text = (last count).written.text := by
  cases count with
  | zero => rfl
  | succ n =>
    have hlast := escapeFrom_replicate_append before previous n []
    simpa [text, last, written, isMarked, escapeFrom] using hlast

end Segment

/-- A value is written segment by segment. -/
theorem escape_eq (value : Text) :
    escape value = (segments value).flatMap fun s => s.written.text := by
  suffices ∀ before previous, previous ≠ some '\\' →
      escapeFrom before previous value = (segments value).flatMap fun s => s.written.text from
    this none none (by simp)
  induction value using segment_induction with
  | last count =>
    intro before previous _
    rw [segments_text rfl, List.flatMap_singleton, Segment.escapeFrom_text_last]
  | cons s t hs ih =>
    intro before previous hprevious
    obtain ⟨c, hnext⟩ := Option.isSome_iff_exists.1 hs
    have hc : some c ≠ some '\\' := hnext ▸ s.next_ne
    obtain ⟨before', hfront⟩ := Segment.escapeFrom_text_append hnext hprevious t
    rw [hfront, ih _ _ hc, segments_text_append hs, List.flatMap_cons]

namespace Segment

/-- The raw text of the segment neither closes the literal early nor leaves it open. A double quote
stands behind at most one backslash or an even number of them, and the value ends in no backslash or
in an odd number of them. -/
def Closes (s : Segment) : Prop :=
  (s.next = some '"' → s.count ≤ 1 ∨ s.count % 2 = 0) ∧
    (s.next = none → s.count = 0 ∨ s.count % 2 = 1)

instance : DecidablePred Closes :=
  fun _ => inferInstanceAs (Decidable ((_ → _) ∧ (_ → _)))

/-- The longest run of backslashes that is read back before a character: none before the letters of
escapes and the double quote, one before the characters that would be escaped by a second one, and
two elsewhere. -/
def limit (s : Segment) : Nat :=
  if s.next.any fun c => c = 'n' || c = 'r' || c = 't' || c = '"' then 0
  else if s.next.any fun c => c = '\n' || c = '\r' || c = '\t' || c = '\'' then 1
  else 2

/-- A segment is written within the quotes exactly when it closes. -/
theorem isRaw_written_iff (s : Segment) : s.written.IsRaw ↔ s.Closes := by
  obtain ⟨count, next, hne⟩ := s
  cases next with
  | none => grind [written, isMarked, IsRaw, Closes]
  | some c => grind [written, isMarked, IsRaw, Closes, letter, keepsBackslash]

/-- A segment is read back exactly when its run of backslashes is not too long. -/
theorem read_written_iff (s : Segment) : s.written.read = s ↔ s.count ≤ s.limit := by
  obtain ⟨count, next, hne⟩ := s
  simp only [Segment.ext_iff, read, written, isMarked, limit]
  cases next with
  | none =>
    simp only [Option.map_none, Option.any_none, Option.bind_none]
    grind
  | some c =>
    simp only [Option.map_some, Option.any_some, Option.bind_some]
    -- each of these characters is written or read by a rule of its own
    by_cases hc : c ∈ ['"', 'n', 'r', 't', '\n', '\r', '\t', '\'']
    · simp only [List.mem_cons, List.not_mem_nil, or_false] at hc
      rcases hc with rfl | rfl | rfl | rfl | rfl | rfl | rfl | rfl <;>
        grind [letter, keepsBackslash, escaped?]
    · simp only [List.mem_cons, List.not_mem_nil, or_false, not_or] at hc
      grind [letter, keepsBackslash, escaped?]

end Segment

/-- The raw text of a value stays within double quotes exactly when all of its segments close. -/
theorem isRaw_escape_iff {value : Text} :
    isRaw '"' (escape value) = true ↔ ∀ s ∈ segments value, s.Closes := by
  rw [isRaw_iff, escape_eq, segments_flatMap Segment.isSome_next_written, List.forall_mem_map]
  exact forall₂_congr fun s _ => s.isRaw_written_iff

/-- A written value between double quotes is one literal, which ends with the last character,
exactly when every segment of the value closes. -/
theorem literalAt_escape_iff (value : Text) :
    literalAt ('"' :: escape value ++ ['"']) 0 =
        some ⟨escape value, '"', 0, ('"' :: escape value ++ ['"']).length⟩ ↔
      ∀ s ∈ segments value, s.Closes := by
  rw [← isRaw_escape_iff]
  have hquote : isQuote '"' = true := rfl
  constructor
  · intro h
    simp only [literalAt, List.drop_zero, List.cons_append, hquote, if_true] at h
    obtain ⟨⟨raw, rest⟩, hclose, he⟩ := Option.map_eq_some_iff.1 h
    obtain rfl : raw = escape value := congrArg Literal.raw he
    exact (closeLiteral_eq_some hclose).1
  · intro h
    have hclose := closeLiteral_append (by decide) h []
    simp only [literalAt, List.drop_zero, List.cons_append, hquote, if_true, hclose]
    simp

/-- Two backslashes at the end of a value leave the literal open. -/
theorem literalAt_escape_ne_of_two_backslashes :
    literalAt ('"' :: escape ['\\', '\\'] ++ ['"']) 0 ≠
      some ⟨escape ['\\', '\\'], '"', 0, ('"' :: escape ['\\', '\\'] ++ ['"']).length⟩ :=
  fun h => absurd ((literalAt_escape_iff ['\\', '\\']).1 h) (by decide)

/-- The segments of what is read for a value that was written. -/
theorem segments_unescape_escape (value : Text) :
    segments (unescape (escape value)) = (segments value).map fun s => s.written.read := by
  have hisSome : ∀ s : Segment, s.written.read.next.isSome = s.next.isSome := fun s => by
    rw [Segment.isSome_next_read, Segment.isSome_next_written]
  have hread : unescape (escape value) =
      (segments value).flatMap fun s => s.written.read.text := by
    rw [unescape_eq, escape_eq, segments_flatMap Segment.isSome_next_written, List.flatMap_map]
  rw [hread, segments_flatMap hisSome]

/-- A value is what its raw text stands for exactly when none of its runs of backslashes is too
long. -/
theorem unescape_escape_eq_self_iff {value : Text} :
    unescape (escape value) = value ↔ ∀ s ∈ segments value, s.count ≤ s.limit := by
  have hmap : (segments value).map (fun s => s.written.read) = segments value ↔
      ∀ s ∈ segments value, s.written.read = s := by
    conv => lhs; rhs; rw [← List.map_id (segments value)]
    exact List.map_inj_left
  have hsegments : unescape (escape value) = value ↔
      segments (unescape (escape value)) = segments value := by
    refine ⟨congrArg segments, fun h => ?_⟩
    rw [← flatMap_text_segments (unescape (escape value)), h, flatMap_text_segments]
  rw [hsegments, segments_unescape_escape, hmap]
  exact forall₂_congr fun s _ => s.read_written_iff

/-- No backslash of the value looks as if it started a common escape. -/
def IsPlain (value : Text) : Prop :=
  value.IsChain fun c d => c = '\\' → keepsBackslash d = false

instance : DecidablePred IsPlain :=
  fun value => inferInstanceAs (Decidable (value.IsChain _))

/-- What is written for the value, between double quotes, is a literal that stands for it. -/
def IsFaithful (value : Text) : Prop :=
  isRaw '"' (escape value) = true ∧ unescape (escape value) = value

/-- A value is faithful when its runs of backslashes are short, with at most one backslash at the
end. -/
theorem isFaithful_of_segments {value : Text}
    (h : ∀ s ∈ segments value, s.count ≤ s.limit ∧ (s.next = none → s.count ≤ 1)) :
    IsFaithful value := by
  refine ⟨isRaw_escape_iff.2 fun s hs => ?_, unescape_escape_eq_self_iff.2 fun s hs => (h s hs).1⟩
  obtain ⟨hlimit, hend⟩ := h s hs
  refine ⟨fun hquote => Or.inl ?_, fun hnone => ?_⟩
  · have hzero : s.limit = 0 := by simp [Segment.limit, hquote]
    omega
  · have := hend hnone
    omega

/-- A plain value starts with at most one backslash, and with none before a character that would
keep it. -/
theorem IsPlain.length_le {n : Nat} {t : Text} (h : IsPlain (List.replicate n '\\' ++ t)) :
    n ≤ 1 ∧ (t.head?.any keepsBackslash = true → n = 0) := by
  match n with
  | 0 => simp
  | 1 =>
    refine ⟨le_rfl, fun hkeeps => ?_⟩
    cases t with
    | nil => simp at hkeeps
    | cons c t =>
      have hc : keepsBackslash c = false := (List.isChain_cons_cons.1 h).1 rfl
      simp [hc] at hkeeps
  | n + 2 =>
    have hc : keepsBackslash '\\' = false := (List.isChain_cons_cons.1 h).1 rfl
    simp [keepsBackslash] at hc

/-- The segments of a plain value have at most one backslash, and none before a character that would
keep it. -/
theorem IsPlain.count_le {value : Text} (h : IsPlain value) : ∀ s ∈ segments value,
    s.count ≤ 1 ∧ (s.next.any keepsBackslash = true → s.count = 0) := by
  induction value using segment_induction with
  | last count =>
    rw [segments_text rfl, List.forall_mem_singleton]
    exact ⟨h.length_le.1, by simp [Segment.last]⟩
  | cons s t hs ih =>
    rw [segments_text_append hs, List.forall_mem_cons]
    refine ⟨?_, ih h.right_of_append⟩
    obtain ⟨c, hnext⟩ := Option.isSome_iff_exists.1 hs
    rw [Segment.text, hnext, List.append_assoc] at h
    simpa [hnext] using h.length_le

/-- Plain values come back from what is written for them. -/
theorem IsPlain.isFaithful {value : Text} (h : IsPlain value) : IsFaithful value := by
  refine isFaithful_of_segments fun s hs => ?_
  obtain ⟨hone, hkeeps⟩ := h.count_le s hs
  refine ⟨?_, fun _ => hone⟩
  unfold Segment.limit
  split_ifs with hletter hcontrol
  · obtain ⟨c, hnext, hc⟩ := (Option.any_eq_true ..).1 hletter
    refine (hkeeps ((Option.any_eq_true ..).2 ⟨c, hnext, ?_⟩)).le
    simp only [Bool.or_eq_true, decide_eq_true_eq] at hc
    rcases hc with ((rfl | rfl) | rfl) | rfl <;> rfl
  · exact hone
  · omega

end Phrasebook.Source
