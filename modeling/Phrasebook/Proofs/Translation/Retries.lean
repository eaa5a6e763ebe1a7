import Phrasebook.Proofs.Translation.Sending

/-!
# Repeated requests

A request is repeated on timeouts only. It is over with the first answer or failure, or with the
last attempt that is allowed, and the outcome is that of this attempt. The waits in front of the
repetitions are 1, 2, 4, ... seconds. Behind the attempt 1024, counted from 0, the wait would leave
the range of the doubles, so a service that allows more attempts ends there with a fault.
-/

namespace Phrasebook.Translation

variable {replies : Nat → Request → Reply} {request : Request} {outcome : Outcome}
  {retries repeats : Nat} {w : World}

/-- An attempt has timed out exactly when the service gave no answer in time. What an answer says
does not matter. -/
theorem isTimeout_outcome_iff {reply : Reply} :
    (reply.outcome request).isTimeout = true ↔ ∃ what, reply = .timeout what := by
  cases reply with
  | answer status body =>
    refine iff_of_false ?_ (by simp)
    rw [Reply.outcome]
    split
    · split <;> simp [Outcome.isTimeout]
    · simp [Outcome.isTimeout]
  | timeout what => simp [Reply.outcome, Outcome.isTimeout]
  | noConnection what => simp [Reply.outcome, Outcome.isTimeout]

/-- A request is repeated on timeouts only: it has the outcome of the first attempt that does not
time out, or else of the last one. -/
structure IsRepeated (replies : Nat → Request → Reply) (request : Request) (retries : Nat)
    (outcome : Outcome) (repeats : Nat) : Prop
    extends IsSettled replies request retries outcome repeats where
  /-- All attempts in front of the last one time out. -/
  timeouts : ∀ i < repeats, ∃ what, replies i request = .timeout what
  /-- The outcome is a timeout exactly when all attempts that are allowed time out. -/
  exhausted : outcome.isTimeout = true ↔ ∀ i ≤ retries, ∃ what, replies i request = .timeout what
  /-- An answer has a translation for each text. -/
  whole : ∀ answer, outcome = .translated answer → answer.length = request.texts.length

/-- A request with a final outcome is repeated on timeouts only. -/
theorem IsSettled.isRepeated (h : IsSettled replies request retries outcome repeats) :
    IsRepeated replies request retries outcome repeats where
  toIsSettled := h
  timeouts i hi := isTimeout_outcome_iff.1 (h.before i hi)
  exhausted := by
    constructor
    · intro htimeout i hi
      obtain rfl := h.final htimeout
      rcases Nat.lt_or_eq_of_le hi with hlt | rfl
      · exact isTimeout_outcome_iff.1 (h.before i hlt)
      · exact isTimeout_outcome_iff.1 (h.last ▸ htimeout)
    · intro hall
      exact h.last ▸ isTimeout_outcome_iff.2 (hall repeats h.le)
  whole _ hanswer := length_of_translated (h.last.trans hanswer)

namespace Service

variable {s : Service}

/-- What is shown and asked for while a request is repeated some times. A note and a wait stand in
front of each repetition; the first wait is one second, and each other one is twice as long as the
one before. -/
def retryEvents (s : Service) (request : Request) (repeats : Nat) : List Event :=
  ((List.range repeats).flatMap fun i =>
    [.requested request, .recorded ⟨.warning, s.retryText i⟩, .slept (.ofInt (2 ^ i : Nat))]) ++
  [.requested request]

/-- The events from an attempt on, when it is followed by some repetitions. -/
theorem sendEvents_eq_flatMap (s : Service) (request : Request) (attempt repeats : Nat) :
    s.sendEvents request attempt repeats =
      ((List.range' attempt repeats).flatMap fun i =>
        [.requested request, .recorded ⟨.warning, s.retryText i⟩,
          .slept (.ofInt (2 ^ i : Nat))]) ++ [.requested request] := by
  induction repeats generalizing attempt with
  | zero => rfl
  | succ repeats ih =>
    rw [sendEvents, ih, wait, Nat.one_shiftLeft, List.range'_succ, List.flatMap_cons]
    rfl

/-- The events of a request that is repeated are those of its attempts in turn. -/
theorem sendEvents_eq_retryEvents (s : Service) (request : Request) (repeats : Nat) :
    s.sendEvents request 0 repeats = s.retryEvents request repeats := by
  rw [sendEvents_eq_flatMap, retryEvents, List.range_eq_range']

/-- A request that may be sent has an outcome. It ends with that outcome, within the range of the
waits, and leaves its attempts behind. -/
theorem exists_isRepeated (hretries : 0 ≤ s.retries) (request : Request) (w : World) :
    let sent := Job.outcome (s.send request 0 (s.retries + 1).toNat) w
    ∃ outcome repeats, IsRepeated w.reply request s.retries.toNat outcome repeats ∧
      (repeats ≤ 1024 →
        sent = (.ok outcome, w.advance (repeats + 1) (s.retryEvents request repeats))) ∧
      (1024 < repeats →
        sent = (.error .endlessPause, w.advance 1025 (s.retryEvents request 1024))) := by
  intro sent
  have hsent : sent = Job.outcome (s.send request 0 (s.retries.toNat + 1)) w := by
    rw [show s.retries.toNat + 1 = (s.retries + 1).toNat by omega]
  obtain ⟨outcome, repeats, h⟩ := exists_isSettled w.reply request s.retries.toNat
  refine ⟨outcome, repeats, h.isRepeated, fun hrange => ?_, fun hrange => ?_⟩
  · rw [hsent, outcome_send h (by omega), sendEvents_eq_retryEvents]
  · rw [hsent, outcome_send_endless h (by omega) (by omega), sendEvents_eq_retryEvents]

/-- The attempts are used up before the first one exactly when their number is negative. -/
theorem outcome_send_eq_noAttempts_iff (s : Service) (request : Request) (w : World) :
    (Job.outcome (s.send request 0 (s.retries + 1).toNat) w).1 = .error .noAttempts ↔
      s.retries < 0 := by
  constructor
  · intro hnone
    by_contra hretries
    obtain ⟨outcome, repeats, -, hwithin, hbeyond⟩ :=
      exists_isRepeated (Int.not_lt.1 hretries) request w
    rcases Nat.lt_or_ge 1024 repeats with hrange | hrange
    · rw [hbeyond hrange] at hnone
      exact absurd hnone (by simp)
    · rw [hwithin hrange] at hnone
      exact absurd hnone (by simp)
  · intro hretries
    rw [show (s.retries + 1).toNat = 0 by omega]
    rfl

/-- A request is repeated on timeouts only. When it is repeated 1024 times at most, it ends with its
outcome, each attempt has used up a reply, and the attempts are left behind with the waits between
them. Otherwise the request ends with a fault behind the attempt 1024. The waits are powers of two,
and the attempts are never used up before the first one, unless their number is negative. -/
theorem retries_follow_timeouts (s : Service) (texts : List Text) (target : Text) (w : World) :
    let request := s.request texts target
    let sent := Job.outcome (s.send request 0 (s.retries + 1).toNat) w
    (0 ≤ s.retries → ∃ outcome repeats,
      IsRepeated w.reply request s.retries.toNat outcome repeats ∧
      (repeats ≤ 1024 →
        sent = (.ok outcome, w.advance (repeats + 1) (s.retryEvents request repeats))) ∧
      (1024 < repeats →
        sent = (.error .endlessPause, w.advance 1025 (s.retryEvents request 1024)))) ∧
    (∀ i < 1024, (Double.ofInt (2 ^ i : Nat)).value? = some (2 ^ i)) ∧
    (sent.1 = .error .noAttempts ↔ s.retries < 0) ∧
    Job.outcome (s.translateTexts texts target) w = (sent.1.map Outcome.result, sent.2) := by
  intro request sent
  exact ⟨fun hretries => exists_isRepeated hretries request w,
    fun i hi => Double.value?_ofInt_two_pow hi, outcome_send_eq_noAttempts_iff s request w,
    outcome_translateTexts_eq s texts target w⟩

/-- With two more attempts, a request that times out is over when it is refused next, although the
status of the refusal is that of a gateway that timed out. With 1025 more attempts and never an
answer, the waits run out. -/
theorem retries_follow_timeouts_of_no_answer :
    let service : Int → Service := fun retries =>
      ⟨some "k".toList, "http:".toList, 1, .ofInt 0, retries, "en".toList⟩
    let refused : World := ⟨⟨[], []⟩, [], [fun _ => .timeout "t".toList,
      fun _ => .answer 504 none], fun _ => .timeout "t".toList, [], []⟩
    let unanswered : World := ⟨⟨[], []⟩, [], [], fun _ => .timeout "t".toList, [], []⟩
    let request := (service 2).request ["a".toList] "de".toList
    0 ≤ (service 2).retries ∧ 0 ≤ (service 1025).retries ∧
    Job.outcome ((service 2).send request 0 3) refused =
      (.ok (.failed (statusMessage request 504)),
        refused.advance 2 ((service 2).retryEvents request 1)) ∧
    Job.outcome ((service 1025).send request 0 1026) unanswered =
      (.error .endlessPause, unanswered.advance 1025 ((service 1025).retryEvents request 1024)) := by
  intro service refused unanswered request
  refine ⟨by decide, by decide, ?_, ?_⟩
  · obtain ⟨outcome, repeats, h, hwithin, -⟩ :=
      (retries_follow_timeouts (service 2) ["a".toList] "de".toList refused).1 (by decide)
    have hfirst : repeats ≠ 0 := by
      rintro rfl
      exact absurd (h.final (h.last ▸ rfl)) (by decide)
    have hsecond : repeats < 2 := by
      by_contra hmore
      obtain ⟨what, hreply⟩ := h.timeouts 1 (by omega)
      exact Reply.noConfusion hreply
    obtain rfl : repeats = 1 := by omega
    obtain rfl : .failed (statusMessage request 504) = outcome := h.last
    exact hwithin (by decide)
  · obtain ⟨outcome, repeats, h, -, hbeyond⟩ :=
      (retries_follow_timeouts (service 1025) ["a".toList] "de".toList unanswered).1 (by decide)
    have hrepeats : repeats = 1025 := h.final (h.last ▸ rfl)
    exact hbeyond (by omega)

end Service

end Phrasebook.Translation
