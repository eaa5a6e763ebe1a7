import Phrasebook.Proofs.Job
import Phrasebook.Proofs.Number.Power
import Phrasebook.Translation.Service

/-!
# Sending a request

A request is settled by the first reply that is an answer or a failure, or by the reply to the last
attempt. When it is settled within the range of the pauses, sending it ends with the outcome of that
reply and leaves behind the attempts, with the notes and pauses between them. Otherwise there is no
pause that would be long enough, and sending it ends with a fault.
-/

namespace Phrasebook

open Translation (Request Reply Outcome)

/-- What will come of the requests to the service, one after another. -/
def World.reply (w : World) (i : Nat) : Request → Reply :=
  (w.replies[i]?).getD w.fallback

/-- The world after some requests, with what has been shown and asked for meanwhile. -/
def World.advance (w : World) (requests : Nat) (events : List Event) : World :=
  { w with replies := w.replies.drop requests, trace := w.trace ++ events }

@[simp] theorem World.reply_advance (w : World) (requests : Nat) (events : List Event) :
    (w.advance requests events).reply = fun i => w.reply (requests + i) := by
  funext i
  simp [reply, advance]

@[simp] theorem World.advance_advance (w : World) (requests requests' : Nat)
    (events events' : List Event) :
    (w.advance requests events).advance requests' events' =
      w.advance (requests + requests') (events ++ events') := by
  simp [advance]

namespace Job

/-- An event takes the world on by no request. -/
theorem outcome_emit_advance (e : Event) (w : World) :
    outcome (emit e) w = (.ok ⟨⟩, w.advance 0 [e]) := rfl

/-- What comes of a request is the next reply. -/
theorem outcome_ask (request : Request) (w : World) :
    outcome (ask request) w = (.ok (w.reply 0 request), w.advance 1 [.requested request]) := by
  obtain ⟨disk, clock, replies, fallback, unwritable, trace⟩ := w
  cases replies <;> rfl

end Job

namespace Translation

variable {replies : Nat → Request → Reply} {request : Request} {outcome : Outcome}
  {retries repeats attempt : Nat} {w : World}

/-- Whether an outcome is that there was no answer in time. -/
def Outcome.isTimeout : Outcome → Bool
  | .timedOut _ => true
  | _ => false

/-- What an outcome comes to: an answer, or what went wrong. -/
def Outcome.result : Outcome → Except Text (List Text)
  | .translated texts => .ok texts
  | .timedOut what => .error what
  | .failed what => .error what

/-- The texts of an outcome; none when something went wrong. -/
def Outcome.texts (outcome : Outcome) : List Text :=
  match outcome.result with
  | .ok texts => texts
  | .error _ => []

/-- Only a good outcome comes to an answer. -/
theorem Outcome.result_eq_ok_iff {texts : List Text} :
    outcome.result = .ok texts ↔ outcome = .translated texts := by
  cases outcome <;> simp [result]

/-- An answer is good only if it has as many translations as there were texts. -/
theorem length_of_translated {reply : Reply} {texts : List Text}
    (h : reply.outcome request = .translated texts) : texts.length = request.texts.length := by
  have hbody : ∀ body, bodyTexts body request.texts.length = .ok texts →
      texts.length = request.texts.length := by
    intro body hbody
    unfold bodyTexts at hbody
    split at hbody
    · exact absurd hbody (by simp)
    · split at hbody
      · split at hbody
        · rename_i items _
          cases hitems : items.mapM entryText with
          | error fault =>
            rw [hitems] at hbody
            exact absurd hbody (by simp [bind, Except.bind])
          | ok found =>
            rw [hitems] at hbody
            simp only [bind, Except.bind] at hbody
            split at hbody
            · rename_i hlength
              obtain rfl := Except.ok.inj hbody
              exact hlength
            · exact absurd hbody (by simp [throw, throwThe, MonadExceptOf.throw])
        · exact absurd hbody (by simp)
      · exact absurd hbody (by simp)
    · exact absurd hbody (by simp)
  cases reply with
  | answer status body =>
    rw [Reply.outcome] at h
    split at h
    · split at h
      · rename_i hgood
        obtain rfl := Outcome.translated.inj h
        exact hbody body hgood
      · exact absurd h (by simp)
    · exact absurd h (by simp)
  | timeout what => exact absurd h (by simp [Reply.outcome])
  | noConnection what => exact absurd h (by simp [Reply.outcome])

/-- The final outcome of a request that is sent again while there is no answer in time, at most
`retries` times, and how often it is sent again. -/
structure IsSettled (replies : Nat → Request → Reply) (request : Request) (retries : Nat)
    (outcome : Outcome) (repeats : Nat) : Prop where
  /-- It is not sent again more often than it may be. -/
  le : repeats ≤ retries
  /-- It is sent again only when there was no answer in time. -/
  before : ∀ i < repeats, ((replies i request).outcome request).isTimeout = true
  /-- The final outcome is that of the last reply. -/
  last : (replies repeats request).outcome request = outcome
  /-- It is sent again as long as there is no answer in time and an attempt is left. -/
  final : outcome.isTimeout = true → repeats = retries

/-- Every request has a final outcome. -/
theorem exists_isSettled (replies : Nat → Request → Reply) (request : Request) (retries : Nat) :
    ∃ outcome repeats, IsSettled replies request retries outcome repeats := by
  induction retries generalizing replies with
  | zero => exact ⟨_, 0, ⟨Nat.le_refl 0, by omega, rfl, fun _ => rfl⟩⟩
  | succ retries ih =>
    cases hfirst : ((replies 0 request).outcome request).isTimeout with
    | false =>
      exact ⟨_, 0, ⟨by omega, by omega, rfl, fun h => absurd (hfirst.symm.trans h) (by simp)⟩⟩
    | true =>
      obtain ⟨outcome, repeats, hle, hbefore, hlast, hfinal⟩ := ih fun i => replies (1 + i)
      refine ⟨outcome, repeats + 1, by omega, fun i hi => ?_, ?_, fun h => by rw [hfinal h]⟩
      · cases i with
        | zero => exact hfirst
        | succ i => exact Nat.add_comm 1 i ▸ hbefore i (by omega)
      · exact Nat.add_comm 1 repeats ▸ hlast

/-- A request that is sent again is settled by the later replies. -/
theorem IsSettled.tail (h : IsSettled replies request (retries + 1) outcome (repeats + 1)) :
    IsSettled (fun i => replies (1 + i)) request retries outcome repeats where
  le := Nat.le_of_succ_le_succ h.le
  before i hi := h.before (1 + i) (by omega)
  last := by simpa only [Nat.add_comm] using h.last
  final htimeout := Nat.succ.inj (h.final htimeout)

namespace Service

variable {s : Service}

/-- A pause is in range up to the attempt 1023, counted from 0. -/
theorem isFinite_wait (attempt : Nat) : (wait attempt).isFinite = decide (attempt < 1024) := by
  rw [wait, Nat.one_shiftLeft, Double.isFinite_ofInt_two_pow]

/-- What is shown and asked for while a request is sent, and sent again some times. -/
def sendEvents (s : Service) (request : Request) : Nat → Nat → List Event
  | _, 0 => [.requested request]
  | attempt, repeats + 1 =>
    .requested request :: .recorded ⟨.warning, s.retryText attempt⟩ :: .slept (wait attempt) ::
      s.sendEvents request (attempt + 1) repeats

/-- A request that is settled by its first reply is sent once. -/
theorem outcome_send_of_final {left : Nat}
    (h : ((w.reply 0 request).outcome request).isTimeout = true → left = 0) :
    Job.outcome (s.send request attempt (left + 1)) w =
      (.ok ((w.reply 0 request).outcome request), w.advance 1 [.requested request]) := by
  rw [send, Job.outcome_bind, Job.outcome_ask]
  simp only
  split
  · rename_i hreply
    exact absurd (h (by rw [hreply]; rfl)) (by simp)
  · rfl

/-- A request without an answer in time is sent again after a pause, if the pause is in range. -/
theorem outcome_send_of_timeout {left : Nat}
    (h : ((w.reply 0 request).outcome request).isTimeout = true) :
    Job.outcome (s.send request attempt (left + 2)) w =
      if attempt < 1024 then
        Job.outcome (s.send request (attempt + 1) (left + 1)) (w.advance 1
          [.requested request, .recorded ⟨.warning, s.retryText attempt⟩, .slept (wait attempt)])
      else (.error .endlessPause, w.advance 1 [.requested request]) := by
  obtain ⟨what, hreply⟩ : ∃ what, (w.reply 0 request).outcome request = .timedOut what := by
    cases hreply : (w.reply 0 request).outcome request with
    | timedOut what => exact ⟨what, rfl⟩
    | translated texts => rw [hreply] at h; exact absurd h (by simp [Outcome.isTimeout])
    | failed what => rw [hreply] at h; exact absurd h (by simp [Outcome.isTimeout])
  rw [send, Job.outcome_bind, Job.outcome_ask]
  simp only [hreply, isFinite_wait]
  by_cases hattempt : attempt < 1024
  · simp only [hattempt, decide_true, if_true]
    rw [Job.outcome_bind, Job.record, Job.outcome_emit_advance]
    simp only
    rw [Job.outcome_bind, Job.sleep, Job.outcome_emit_advance]
    simp only [World.advance_advance]
    rfl
  · simp only [hattempt]
    rfl

/-- Sending a request within the range of the pauses ends with its final outcome. -/
theorem outcome_send (h : IsSettled w.reply request retries outcome repeats)
    (hattempt : attempt + repeats ≤ 1024) :
    Job.outcome (s.send request attempt (retries + 1)) w =
      (.ok outcome, w.advance (repeats + 1) (s.sendEvents request attempt repeats)) := by
  induction repeats generalizing w attempt retries with
  | zero =>
    have hfirst : ((w.reply 0 request).outcome request).isTimeout = true → retries = 0 := by
      intro htimeout
      exact (h.final (h.last ▸ htimeout)).symm
    rw [outcome_send_of_final hfirst, h.last]
    rfl
  | succ repeats ih =>
    obtain ⟨left, rfl⟩ : ∃ left, retries = left + 1 :=
      Nat.exists_eq_succ_of_ne_zero (by have := h.le; omega)
    rw [outcome_send_of_timeout (h.before 0 (by omega)), if_pos (by omega),
      ih (by simpa using h.tail) (by omega), World.advance_advance, Nat.add_comm 1]
    rfl

/-- Translating texts gives what comes of their request, unless sending it ends with a fault. -/
theorem outcome_translateTexts_eq (s : Service) (texts : List Text) (target : Text) (w : World) :
    let sent := Job.outcome (s.send (s.request texts target) 0 (s.retries + 1).toNat) w
    Job.outcome (s.translateTexts texts target) w = (sent.1.map Outcome.result, sent.2) := by
  intro sent
  rw [translateTexts, Job.outcome_bind, show Job.outcome _ w = sent from rfl]
  obtain ⟨fault | outcome, w'⟩ := sent
  · rfl
  · cases outcome <;> rfl

/-- Translating texts within the range of the pauses gives what the final outcome comes to. -/
theorem outcome_translateTexts {texts : List Text} {target : Text} (hretries : 0 ≤ s.retries)
    (h : IsSettled w.reply (s.request texts target) s.retries.toNat outcome repeats)
    (hrange : repeats ≤ 1024) :
    Job.outcome (s.translateTexts texts target) w =
      (.ok outcome.result,
        w.advance (repeats + 1) (s.sendEvents (s.request texts target) 0 repeats)) := by
  have hleft : (s.retries + 1).toNat = s.retries.toNat + 1 := by omega
  rw [outcome_translateTexts_eq, hleft, outcome_send h (by omega)]
  rfl

/-- Sending a request ends with a fault when the range of the pauses is left: the attempt 1024 is
the last one. -/
theorem outcome_send_endless (h : IsSettled w.reply request retries outcome repeats)
    (hattempt : attempt ≤ 1024) (hmany : 1024 < attempt + repeats) :
    Job.outcome (s.send request attempt (retries + 1)) w =
      (.error .endlessPause,
        w.advance (1025 - attempt) (s.sendEvents request attempt (1024 - attempt))) := by
  induction repeats generalizing w attempt retries with
  | zero => omega
  | succ repeats ih =>
    obtain ⟨left, rfl⟩ : ∃ left, retries = left + 1 :=
      Nat.exists_eq_succ_of_ne_zero (by have := h.le; omega)
    rw [outcome_send_of_timeout (h.before 0 (by omega))]
    by_cases hlast : attempt < 1024
    · have hleft : 1024 - attempt = 1024 - (attempt + 1) + 1 := by omega
      have hrequests : 1025 - attempt = 1 + (1025 - (attempt + 1)) := by omega
      rw [if_pos hlast, ih (by simpa using h.tail) (by omega) (by omega), World.advance_advance,
        hleft, hrequests]
      rfl
    · obtain rfl : attempt = 1024 := by omega
      rw [if_neg hlast]
      rfl

/-- Translating texts ends with a fault when the range of the pauses is left. -/
theorem outcome_translateTexts_endless {texts : List Text} {target : Text}
    (hretries : 0 ≤ s.retries)
    (h : IsSettled w.reply (s.request texts target) s.retries.toNat outcome repeats)
    (hrange : 1024 < repeats) :
    Job.outcome (s.translateTexts texts target) w =
      (.error .endlessPause, w.advance 1025 (s.sendEvents (s.request texts target) 0 1024)) := by
  have hleft : (s.retries + 1).toNat = s.retries.toNat + 1 := by omega
  rw [outcome_translateTexts_eq, hleft, outcome_send_endless h (by omega) (by omega)]
  rfl

end Service

end Translation

end Phrasebook
