import Phrasebook.Proofs.Job

/-!
# The course of a job

What a job does to its world besides the disk: the clock goes on when it is read, and records are
added to the trace. A job keeps a property of worlds when it does so whether it ends with a result or
with a fault, and a job keeps what its steps keep.
-/

namespace Phrasebook

/-- The report of a batch of saves that an event shows. -/
def Event.saveProgress? : Event → Option SaveProgress
  | .saved p => some p
  | _ => none

namespace World

variable {w : World} {time : Text}

/-- The time that the clock shows. -/
def now (w : World) : Text :=
  w.clock.headD []

/-- The world after the clock has been read. The last time stays. -/
def tick (w : World) : World :=
  { w with clock := if w.clock.length ≤ 1 then w.clock else w.clock.tail }

/-- The world with further events in its trace. -/
def showing (w : World) (events : List Event) : World :=
  { w with trace := w.trace ++ events }

/-- The world with further records in its trace. -/
def noted (w : World) (records : List Record) : World :=
  w.showing (records.map .recorded)

/-- The world with another disk. -/
def withDisk (w : World) (d : Disk) : World :=
  { w with disk := d }

@[simp] theorem disk_tick (w : World) : w.tick.disk = w.disk := rfl

@[simp] theorem unwritable_tick (w : World) : w.tick.unwritable = w.unwritable := rfl

@[simp] theorem trace_tick (w : World) : w.tick.trace = w.trace := rfl

@[simp] theorem disk_withDisk (w : World) (d : Disk) : (w.withDisk d).disk = d := rfl

@[simp] theorem clock_withDisk (w : World) (d : Disk) : (w.withDisk d).clock = w.clock := rfl

@[simp] theorem unwritable_withDisk (w : World) (d : Disk) :
    (w.withDisk d).unwritable = w.unwritable := rfl

@[simp] theorem trace_withDisk (w : World) (d : Disk) : (w.withDisk d).trace = w.trace := rfl

@[simp] theorem disk_showing (w : World) (events : List Event) :
    (w.showing events).disk = w.disk := rfl

@[simp] theorem clock_showing (w : World) (events : List Event) :
    (w.showing events).clock = w.clock := rfl

@[simp] theorem trace_showing (w : World) (events : List Event) :
    (w.showing events).trace = w.trace ++ events := rfl

@[simp] theorem showing_nil (w : World) : w.showing [] = w := by
  simp [showing]

@[simp] theorem showing_showing (w : World) (events events' : List Event) :
    (w.showing events).showing events' = w.showing (events ++ events') := by
  simp [showing]

@[simp] theorem disk_noted (w : World) (records : List Record) :
    (w.noted records).disk = w.disk := rfl

@[simp] theorem clock_noted (w : World) (records : List Record) :
    (w.noted records).clock = w.clock := rfl

@[simp] theorem unwritable_noted (w : World) (records : List Record) :
    (w.noted records).unwritable = w.unwritable := rfl

theorem noted_withDisk (w : World) (records : List Record) (d : Disk) :
    (w.noted records).withDisk d = (w.withDisk d).noted records := rfl

@[simp] theorem noted_noted (w : World) (records records' : List Record) :
    (w.noted records).noted records' = w.noted (records ++ records') := by
  simp [noted]

/-- The reports of saves that a list of reports shows. -/
@[simp] theorem reports_saved (reports : List SaveProgress) :
    (reports.map Event.saved).filterMap Event.saveProgress? = reports := by
  rw [List.filterMap_map]
  exact List.filterMap_some

/-- Records are no reports of saves. -/
@[simp] theorem reports_noted (w : World) (records : List Record) :
    (w.noted records).trace.filterMap Event.saveProgress? =
      w.trace.filterMap Event.saveProgress? := by
  have hnone : (records.map Event.recorded).filterMap Event.saveProgress? = [] := by
    simp [List.filterMap_eq_nil_iff, Event.saveProgress?]
  rw [noted, trace_showing, List.filterMap_append, hnone, List.append_nil]

/-- The times that the clock will show after it has been read. -/
theorem clock_tick_suffix (w : World) : w.tick.clock <:+ w.clock := by
  unfold tick
  dsimp only
  split
  · exact List.suffix_rfl
  · exact List.tail_suffix _

/-- A clock that has been read still shows a time. -/
theorem clock_tick_ne_nil (h : w.clock ≠ []) : w.tick.clock ≠ [] := by
  unfold tick
  dsimp only
  split
  · exact h
  · rename_i hlong
    intro hnil
    have hlength := congrArg List.length hnil
    rw [List.length_tail, List.length_nil] at hlength
    omega

/-- The clock shows the first of its times. -/
theorem now_mem (h : w.clock ≠ []) : w.now ∈ w.clock := by
  obtain ⟨time, later, htimes⟩ := List.exists_cons_of_ne_nil h
  simp [now, htimes]

/-- The time that the clock shows has no character that none of its times has. -/
theorem not_mem_now {c : Char} (h : ∀ time ∈ w.clock, c ∉ time) : c ∉ w.now := by
  by_cases hclock : w.clock = []
  · simp [now, hclock]
  · exact h _ (now_mem hclock)

end World

namespace Job

variable {α β γ : Type}

/-- Reading the clock gives the time that it shows. -/
theorem outcome_time (w : World) : outcome time w = (.ok w.now, w.tick) := by
  obtain ⟨disk, clock, replies, fallback, unwritable, trace⟩ := w
  obtain _ | ⟨now, _ | ⟨next, later⟩⟩ := clock <;> rfl

/-- A record is added to the trace. -/
theorem outcome_record_noted (level : Level) (message : Text) (w : World) :
    outcome (record level message) w = (.ok ⟨⟩, w.noted [⟨level, message⟩]) := rfl

/-- Several records are added to the trace. -/
theorem outcome_recordAll_noted (records : List Record) (w : World) :
    outcome (recordAll records) w = (.ok ⟨⟩, w.noted records) :=
  outcome_recordAll records w

/-- A job with a known result leaves some world. -/
theorem outcome_of_result {job : Job α} {result : Except Fault α} {w : World}
    (h : (outcome job w).1 = result) : outcome job w = (result, (outcome job w).2) :=
  Prod.ext h rfl

/-- Whatever becomes of a job, it keeps a property of its world. -/
def Keeps (I : World → Prop) (job : Job α) : Prop :=
  ∀ w, I w → I (outcome job w).2

namespace Keeps

variable {I : World → Prop}

/-- A result leaves the world as it is. -/
theorem pure (a : α) : Keeps I (Pure.pure a : Job α) :=
  fun _ hw => hw

/-- A fault leaves the world as it is. -/
theorem throw (fault : Fault) : Keeps I (MonadExcept.throw fault : Job α) :=
  fun _ hw => hw

/-- A failure leaves the world as it is. -/
theorem fail (f : Failure) : Keeps I (Job.fail f : Job α) :=
  throw _

/-- The world is at hand. -/
theorem get : Keeps I (MonadState.get : Job World) :=
  fun _ hw => hw

/-- A job is followed by one for each result with which it can end. -/
theorem bind_of_result {x : Job β} {f : β → Job α} (hx : Keeps I x)
    (hf : ∀ w b w', outcome x w = (.ok b, w') → Keeps I (f b)) : Keeps I (x >>= f) := by
  intro w hw
  have hfirst := hx w hw
  rw [outcome_bind]
  cases hresult : outcome x w with
  | mk result w' =>
    rw [hresult] at hfirst
    cases result with
    | error fault => exact hfirst
    | ok b => exact hf w b w' hresult w' hfirst

/-- A job is followed by the one that its result leads to. -/
theorem bind {x : Job β} {f : β → Job α} (hx : Keeps I x) (hf : ∀ b, Keeps I (f b)) :
    Keeps I (x >>= f) :=
  bind_of_result hx fun _ b _ _ => hf b

/-- A record is written to the trace. -/
theorem record (h : ∀ w records, I w → I (w.noted records)) (level : Level) (message : Text) :
    Keeps I (Job.record level message) :=
  fun w hw => h w [⟨level, message⟩] hw

/-- Several records are written to the trace. -/
theorem recordAll (h : ∀ w records, I w → I (w.noted records)) (records : List Record) :
    Keeps I (Job.recordAll records) := by
  intro w hw
  rw [outcome_recordAll_noted]
  exact h w records hw

/-- A result may be dropped. -/
theorem discard {job : Job α} (h : Keeps I job) : Keeps I (Functor.discard job) := by
  change Keeps I (Function.const α PUnit.unit <$> job)
  rw [map_eq_pure_bind]
  exact bind h fun _ => pure _

/-- An attempt keeps what its job keeps. -/
theorem attempt {job : Job α} (h : Keeps I job) : Keeps I (Job.attempt job) := by
  intro w hw
  rw [outcome_attempt]
  exact h w hw

/-- A loop keeps what its rounds keep. -/
theorem forM {f : γ → Job PUnit} {xs : List γ} (h : ∀ x ∈ xs, Keeps I (f x)) :
    Keeps I (xs.forM f) := by
  induction xs with
  | nil => exact pure _
  | cons x xs ih => exact bind (h x (by simp)) fun _ => ih fun y hy => h y (by simp [hy])

/-- A loop with a result keeps what its rounds keep. -/
theorem foldlM {f : β → γ → Job β} {xs : List γ} (h : ∀ b, ∀ x ∈ xs, Keeps I (f b x)) (b : β) :
    Keeps I (xs.foldlM f b) := by
  induction xs generalizing b with
  | nil => exact pure b
  | cons x xs ih =>
    rw [List.foldlM_cons]
    exact bind (h b x (by simp)) fun b' => ih (fun b y hy => h b y (by simp [hy])) b'

end Keeps

/-- Jobs are done one after another, whatever becomes of each of them. -/
def each (f : γ → Job α) (xs : List γ) : Job PUnit :=
  xs.forM fun x => Functor.discard (attempt (f x))

section Each

variable {f : γ → Job α}

/-- The first of several jobs is done before the others. -/
theorem outcome_each_cons (x : γ) (xs : List γ) (w : World) :
    outcome (each f (x :: xs)) w = outcome (each f xs) (outcome (f x) w).2 := by
  have hstep : each f (x :: xs) = Functor.discard (attempt (f x)) >>= fun _ => each f xs := rfl
  have hfirst : outcome (Functor.discard (attempt (f x))) w = (.ok ⟨⟩, (outcome (f x) w).2) := by
    rw [outcome_discard, outcome_attempt]
    rfl
  rw [hstep, outcome_bind, hfirst]

/-- Some jobs are done before others. -/
theorem outcome_each_append (xs ys : List γ) (w : World) :
    outcome (each f (xs ++ ys)) w = outcome (each f ys) (outcome (each f xs) w).2 := by
  induction xs generalizing w with
  | nil => rfl
  | cons x xs ih => rw [List.cons_append, outcome_each_cons, outcome_each_cons, ih]

/-- Several jobs keep what each of them keeps. -/
theorem Keeps.each {I : World → Prop} {xs : List γ} (h : ∀ x ∈ xs, Keeps I (f x)) :
    Keeps I (Job.each f xs) :=
  Keeps.forM fun x hx => Keeps.discard (Keeps.attempt (h x hx))

end Each

end Job

end Phrasebook
