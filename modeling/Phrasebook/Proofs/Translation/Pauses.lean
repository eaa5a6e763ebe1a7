import Mathlib.Algebra.GroupWithZero.Nat
import Phrasebook.Proofs.Translation.Isolation

/-!
# Pauses between batches

A run asks for requests and pauses. While a batch is sent, its request is repeated with a wait in
front of each repetition, and a batch that was translated is followed by one pause before the next
one. A batch that failed is not: the next one is sent at once. So there is a pause between any two
batches exactly when all of them but the last one are translated.
-/

namespace Phrasebook

/-- Whether an event is something that a job asks for: a request or a pause. -/
def Event.isAsked : Event → Bool
  | .requested _ => true
  | .slept _ => true
  | _ => false

/-- Records ask for nothing. -/
@[simp] theorem filter_isAsked_recorded (records : List Record) :
    (records.map Event.recorded).filter Event.isAsked = [] := by
  simp [List.filter_eq_nil_iff, Event.isAsked]

namespace Translation

variable {s : Service} {target : Text} {w : World} {settled : List SettledBatch}
  {report : TranslationProgress → Job Unit} {shown : TranslationProgress → List Event}

/-- Whether a batch was translated. -/
def SettledBatch.isTranslated (b : SettledBatch) : Bool :=
  match b.outcome with
  | .translated _ => true
  | _ => false

/-- The batches that are sent: those up to the first one whose repetitions leave the range of the
pauses. -/
def SettledBatch.reached : List SettledBatch → List SettledBatch
  | [] => []
  | b :: rest => b :: if b.repeats ≤ 1024 then reached rest else []

namespace Service

/-- A request and its repetitions, counted from an attempt on, with the wait in front of each. -/
def attempts (request : Request) : Nat → Nat → List Event
  | _, 0 => [.requested request]
  | attempt, repeats + 1 =>
    .requested request :: .slept (wait attempt) :: attempts request (attempt + 1) repeats

/-- What is asked for while a batch is sent. -/
def asked (s : Service) (target : Text) (b : SettledBatch) : List Event :=
  attempts (s.request b.texts target) 0 (min b.repeats 1024)

/-- What is asked for while batches are sent one after another, with a pause behind some of them.
The last one is followed by nothing. -/
def course (s : Service) (target : Text) (paused : SettledBatch → Bool) :
    List SettledBatch → List Event
  | [] => []
  | [b] => s.asked target b
  | b :: next :: rest =>
    s.asked target b ++ (if paused b then [.slept s.pause] else []) ++
      s.course target paused (next :: rest)

/-- Sending a request asks for it and its repetitions. -/
theorem filter_sendEvents (s : Service) (request : Request) (attempt repeats : Nat) :
    (s.sendEvents request attempt repeats).filter Event.isAsked =
      attempts request attempt repeats := by
  induction repeats generalizing attempt with
  | zero => rfl
  | succ repeats ih =>
    rw [sendEvents, attempts, ← ih (attempt + 1)]
    rfl

/-- A batch that was translated asks for a pause when others follow it. -/
theorem filter_batchEvents (hshown : ∀ p, (shown p).filter Event.isAsked = [])
    (hpause : s.pause.gtNat 0 = true) (total processed : Nat) (more : Bool) {b : SettledBatch}
    (hrange : b.repeats ≤ 1024) :
    (s.batchEvents target shown total processed more b).filter Event.isAsked =
      s.asked target b ++ if more && b.isTranslated then [.slept s.pause] else [] := by
  rw [batchEvents, List.filter_append, filter_sendEvents, asked, Nat.min_eq_left hrange]
  congr 1
  cases hb : b.outcome with
  | translated texts =>
    cases more <;>
      simp [Outcome.result, SettledBatch.isTranslated, hb, hshown, hpause, Event.isAsked]
  | timedOut what => simp [Outcome.result, SettledBatch.isTranslated, hb, hshown, Event.isAsked]
  | failed what => simp [Outcome.result, SettledBatch.isTranslated, hb, hshown, Event.isAsked]

/-- A run asks for what the batches that are sent ask for, with a pause behind those that were
translated. -/
theorem filter_runEvents (hshown : ∀ p, (shown p).filter Event.isAsked = [])
    (hpause : s.pause.gtNat 0 = true) (total processed : Nat) (settled : List SettledBatch) :
    (s.runEvents target shown total processed settled).filter Event.isAsked =
      s.course target (·.isTranslated) (SettledBatch.reached settled) := by
  induction settled generalizing processed with
  | nil => rfl
  | cons b rest ih =>
    rw [runEvents, SettledBatch.reached]
    by_cases hrange : b.repeats ≤ 1024
    · rw [if_pos hrange, if_pos hrange, List.filter_append, ih,
        filter_batchEvents hshown hpause _ _ _ hrange]
      cases rest with
      | nil => simp [SettledBatch.reached, course]
      | cons next rest => simp [SettledBatch.reached, course]
    · rw [if_neg hrange, if_neg hrange, filter_sendEvents, course, asked,
        Nat.min_eq_right (by omega)]

/-- The number of requests and pauses of a course. -/
theorem length_course (s : Service) (target : Text) (paused : SettledBatch → Bool)
    (sent : List SettledBatch) :
    (s.course target paused sent).length =
      (sent.map fun b => (s.asked target b).length).sum + sent.dropLast.countP paused := by
  fun_induction course s target paused sent with
  | case1 => rfl
  | case2 b => simp
  | case3 b next rest ih =>
    rw [List.length_append, List.length_append, ih, List.dropLast_cons_cons, List.countP_cons,
      List.map_cons, List.sum_cons]
    split <;> simp <;> omega

/-- There is a pause between any two batches exactly when each one but the last has its pause. -/
theorem course_eq_iff (s : Service) (target : Text) (paused : SettledBatch → Bool)
    (sent : List SettledBatch) :
    s.course target paused sent = s.course target (fun _ => true) sent ↔
      ∀ b ∈ sent.dropLast, paused b = true := by
  constructor
  · intro h
    have hlength := congrArg List.length h
    rw [length_course, length_course, List.countP_true] at hlength
    exact List.countP_eq_length.1 (by omega)
  · intro h
    fun_induction course s target paused sent with
    | case1 => rfl
    | case2 b => rfl
    | case3 b next rest ih =>
      rw [List.dropLast_cons_cons, List.forall_mem_cons] at h
      rw [course, ih h.2, if_pos h.1, if_pos rfl]

/-- Within the range of the pauses all batches are sent. -/
theorem reached_eq_self (h : ∀ b ∈ settled, b.repeats ≤ 1024) :
    SettledBatch.reached settled = settled := by
  induction settled with
  | nil => rfl
  | cons b rest ih =>
    obtain ⟨hfirst, hlater⟩ := List.forall_mem_cons.1 h
    rw [SettledBatch.reached, if_pos hfirst, ih hlater]

/-- What a run asks for. Without a key it asks for nothing. Else each batch that is sent asks for
its request and the repetitions with their waits, and a pause stands between a batch that was
translated and the next one. Behind a batch that failed there is none, nor behind the last one, so
there is a pause between any two batches exactly when all of them but the last are translated. -/
theorem pauses_follow_translations (hretries : 0 ≤ s.retries) (hpause : s.pause.gtNat 0 = true)
    (hreport : Shows report shown) (hshown : ∀ p, (shown p).filter Event.isAsked = [])
    (texts : List Text) (target : Text) (w : World) :
    (s.isConfigured = false → (Job.outcome (s.translateAll texts target report) w).2 = w) ∧
    (s.isConfigured = true → ∃ settled, Settles s target w.reply settled ∧
      s.IsBatched texts (settled.map (·.texts)) ∧
      ((∀ b ∈ settled, b.repeats ≤ 1024) → SettledBatch.reached settled = settled) ∧
      (Job.outcome (s.translateAll texts target report) w).2.trace.filter Event.isAsked =
        w.trace.filter Event.isAsked ++
          s.course target (·.isTranslated) (SettledBatch.reached settled) ∧
      (s.course target (·.isTranslated) (SettledBatch.reached settled) =
          s.course target (fun _ => true) (SettledBatch.reached settled) ↔
        ∀ b ∈ (SettledBatch.reached settled).dropLast, b.isTranslated = true)) := by
  refine ⟨fun hkey => ?_, fun hkey => ?_⟩
  · rw [translateAll, requireConfigured, if_neg (by simp [hkey])]
    rfl
  · obtain ⟨settled, hsettles, hbatches⟩ :=
      exists_settles s target (s.batches (worklist texts)) w.reply
    obtain ⟨w', before, after, hrun, htrace⟩ :=
      outcome_translateAll_of_settles hreport hkey hretries hsettles hbatches
    refine ⟨settled, hsettles, hbatches ▸ s.isBatched_batches texts, reached_eq_self, ?_,
      s.course_eq_iff target _ _⟩
    rw [hrun, htrace, List.filter_append, List.filter_append, List.filter_append,
      filter_isAsked_recorded, filter_isAsked_recorded, filter_runEvents hshown hpause,
      List.nil_append, List.append_nil]

/-- Behind a batch that the service refuses, the next request is sent at once. -/
theorem pauses_follow_translations_of_refusal :
    let service : Service :=
      ⟨some "k".toList, "http:".toList, 1, .ofDecimal false 5 (-1), 1, "en".toList⟩
    let answer : Value := .map [(.text "data".toList, .map [(.text "translations".toList,
      .list [.map [(.text "translatedText".toList, .text "B".toList)]])])]
    let w : World := ⟨⟨[], []⟩, [], [fun _ => .answer 500 none],
      fun _ => .answer 200 (some answer), [], []⟩
    0 ≤ service.retries ∧ service.pause.gtNat 0 = true ∧ service.isConfigured = true ∧
    ∃ settled, Settles service "de".toList w.reply settled ∧
      service.course "de".toList (·.isTranslated) (SettledBatch.reached settled) =
        [.requested (service.request ["a".toList] "de".toList),
          .requested (service.request ["b".toList] "de".toList)] := by
  intro service answer w
  have hsilent : Shows (fun _ => pure ⟨⟩) fun _ => [] := fun _ w => by simp [World.advance]
  obtain ⟨settled, hsettles, -, -, hasked, -⟩ := (pauses_follow_translations (s := service)
    (by decide) (by decide +kernel) hsilent (fun _ => rfl) ["a".toList, "b".toList] "de".toList
    w).2 rfl
  refine ⟨by decide, by decide +kernel, rfl, settled, hsettles, ?_⟩
  rw [← List.nil_append (service.course _ _ _)]
  refine hasked.symm.trans ?_
  decide +kernel

end Service

end Translation

end Phrasebook
