import Phrasebook.Proofs.Job.Course
import Phrasebook.Proofs.Job.Reading
import Phrasebook.Proofs.Translation.Sending

/-!
# What a job asks the service

The requests that a job has sent stand in its trace, and each of them has used up a reply. So the
exchanges of two jobs in a row are those of the first one, followed by those of the second one.
-/

namespace Phrasebook

open Translation (Request Outcome)

/-- The request that an event shows. -/
def Event.request? : Event → Option Request
  | .requested r => some r
  | _ => none

/-- The text on the screen that an event shows. -/
def Event.print? : Event → Option Text
  | .printed t => some t
  | _ => none

/-- Records are no requests. -/
@[simp] theorem filterMap_request?_recorded (records : List Record) :
    (records.map Event.recorded).filterMap Event.request? = [] := by
  simp [List.filterMap_eq_nil_iff, Event.request?]

/-- Records are no texts on the screen. -/
@[simp] theorem filterMap_print?_recorded (records : List Record) :
    (records.map Event.recorded).filterMap Event.print? = [] := by
  simp [List.filterMap_eq_nil_iff, Event.print?]

namespace World

variable {w w₁ w₂ : World} {events : List Event}

/-- The requests in the trace since another world, with their outcomes. -/
def exchanges (w w' : World) : List (Request × Outcome) :=
  ((w'.trace.drop w.trace.length).filterMap Event.request?).mapIdx fun i request =>
    (request, (w.reply i request).outcome request)

/-- The texts that were sent since another world to be translated into a language, with what they
were translated to. -/
def translations (w w' : World) (language : Text) : List (Text × Text) :=
  (w.exchanges w').flatMap fun e =>
    if e.1.target = language then e.1.texts.zip e.2.texts else []

/-- All requests since another world were answered, with translations that are not blank. -/
def IsAnswered (w w' : World) : Prop :=
  ∀ e ∈ w.exchanges w', ∃ texts, e.2 = .translated texts ∧
    ∀ t ∈ texts, Text.isBlankText t = false

/-- A world leads to another one when its trace goes on there, and each request since then has used
up a reply. -/
def LeadsTo (w w' : World) : Prop :=
  ∃ events, w'.trace = w.trace ++ events ∧
    w'.reply = fun i => w.reply ((events.filterMap Event.request?).length + i)

/-- The exchanges are those of the new events. -/
theorem exchanges_of_trace (h : w₁.trace = w.trace ++ events) :
    w.exchanges w₁ = (events.filterMap Event.request?).mapIdx fun i request =>
      (request, (w.reply i request).outcome request) := by
  rw [exchanges, h, List.drop_left]

namespace LeadsTo

/-- A world leads to itself. -/
theorem refl (w : World) : w.LeadsTo w :=
  ⟨[], (List.append_nil _).symm, by simp⟩

/-- A world leads to where a world leads that it leads to. -/
theorem trans (h : w.LeadsTo w₁) (h' : w₁.LeadsTo w₂) : w.LeadsTo w₂ := by
  obtain ⟨events, htrace, hreply⟩ := h
  obtain ⟨events', htrace', hreply'⟩ := h'
  refine ⟨events ++ events', by rw [htrace', htrace, List.append_assoc], ?_⟩
  rw [hreply', hreply]
  funext i
  rw [List.filterMap_append, List.length_append, Nat.add_assoc]

/-- The exchanges of two jobs in a row. -/
theorem exchanges_append (h : w.LeadsTo w₁) (h' : w₁.LeadsTo w₂) :
    w.exchanges w₂ = w.exchanges w₁ ++ w₁.exchanges w₂ := by
  obtain ⟨events, htrace, hreply⟩ := h
  obtain ⟨events', htrace', -⟩ := h'
  have hboth : w₂.trace = w.trace ++ (events ++ events') := by
    rw [htrace', htrace, List.append_assoc]
  rw [exchanges_of_trace htrace, exchanges_of_trace htrace', exchanges_of_trace hboth,
    List.filterMap_append, List.mapIdx_append, hreply]
  simp only [Nat.add_comm]

/-- Translations of either of two jobs in a row are translations of both. -/
theorem mem_translations (h : w.LeadsTo w₁) (h' : w₁.LeadsTo w₂) {language : Text}
    {pair : Text × Text} (hpair : pair ∈ w.translations w₁ language ∨
      pair ∈ w₁.translations w₂ language) : pair ∈ w.translations w₂ language := by
  rw [translations, h.exchanges_append h', List.flatMap_append, List.mem_append]
  exact hpair

/-- When all requests of two jobs in a row were answered, those of each one were. -/
theorem isAnswered (h : w.LeadsTo w₁) (h' : w₁.LeadsTo w₂) (hanswered : w.IsAnswered w₂) :
    w.IsAnswered w₁ ∧ w₁.IsAnswered w₂ := by
  rw [IsAnswered, h.exchanges_append h', List.forall_mem_append] at hanswered
  exact hanswered

/-- Events and requests go on from a world, when each request is shown. -/
theorem advance (w : World) {n : Nat} (hn : (events.filterMap Event.request?).length = n) :
    w.LeadsTo (w.advance n events) :=
  ⟨events, rfl, by rw [reply_advance, hn]⟩

/-- A world without further requests goes on with the same replies. -/
theorem of_no_request {w' : World} (htrace : w'.trace = w.trace ++ events)
    (hnone : events.filterMap Event.request? = []) (hreply : w'.reply = w.reply) : w.LeadsTo w' :=
  ⟨events, htrace, by simp [hnone, hreply]⟩

/-- Events that are no requests go on from a world. -/
theorem showing (w : World) (hnone : events.filterMap Event.request? = []) :
    w.LeadsTo (w.showing events) :=
  of_no_request rfl hnone rfl

/-- Records go on from a world. -/
theorem noted (w : World) (records : List Record) : w.LeadsTo (w.noted records) :=
  showing w (filterMap_request?_recorded records)

/-- The clock may be read. -/
theorem tick (w : World) : w.LeadsTo w.tick :=
  of_no_request (List.append_nil _).symm rfl rfl

/-- The disk may change. -/
theorem withDisk (w : World) (d : Disk) : w.LeadsTo (w.withDisk d) :=
  of_no_request (List.append_nil _).symm rfl rfl

end LeadsTo

end World

/-- A job that keeps what goes on from a world leads there from it. -/
theorem Job.Keeps.leadsTo {α : Type} {job : Job α} {w w' : World} {result : Except Fault α}
    (h : Keeps w.LeadsTo job) (hrun : outcome job w = (result, w')) : w.LeadsTo w' := by
  have hkept := h w (.refl w)
  rwa [hrun] at hkept

/-- A job that only reads goes on from the world that it is run in. -/
theorem Job.Yields.leadsTo {α : Type} {job : Job α} {a b : α} {w w' : World}
    (h : Yields w.disk job a) (hrun : outcome job w = (.ok b, w')) : w.LeadsTo w' := by
  obtain ⟨records, hyields⟩ := h w rfl
  obtain ⟨-, hworld⟩ := Prod.mk.inj (hrun.symm.trans hyields)
  exact hworld ▸ .noted w records

end Phrasebook
