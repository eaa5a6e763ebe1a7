import Phrasebook.Job

/-!
# Reasoning about jobs

A triple says what a job makes of a disk, whether it ends with a result or with a fault. Events, the
clock and the service do not matter for it. The triple of a job follows from those of its steps, and
a loop keeps what each of its rounds keeps.
-/

namespace Phrasebook.Job

variable {α β : Type} {P P' : Disk → Prop} {Q Q' : α → Disk → Prop} {R : β → Disk → Prop}
  {E E' : Disk → Prop}

/-- What becomes of a job and of the world it is run in. -/
def outcome (job : Job α) (w : World) : Except Fault α × World :=
  job.run w

@[simp] theorem outcome_pure (a : α) (w : World) : outcome (pure a) w = (.ok a, w) := rfl

@[simp] theorem outcome_throw (fault : Fault) (w : World) :
    outcome (throw fault : Job α) w = (.error fault, w) := rfl

@[simp] theorem outcome_get (w : World) : outcome (get : Job World) w = (.ok w, w) := rfl

@[simp] theorem outcome_set (w w' : World) : outcome (set w' : Job PUnit) w = (.ok ⟨⟩, w') := rfl

/-- A job is followed by the one that its result leads to; a fault ends it. -/
theorem outcome_bind (x : Job β) (f : β → Job α) (w : World) :
    outcome (x >>= f) w =
      match outcome x w with
      | (.ok b, w') => outcome (f b) w'
      | (.error fault, w') => (.error fault, w') := by
  change (match outcome x w with | (b, w') => (ExceptT.bindCont f b w' : Except Fault α × World)) = _
  rcases outcome x w with ⟨fault | b, w'⟩ <;> rfl

/-- A job with a result has gone through all of its steps. -/
theorem exists_of_outcome_bind {x : Job β} {f : β → Job α} {w w' : World} {a : α}
    (h : outcome (x >>= f) w = (.ok a, w')) :
    ∃ b w₁, outcome x w = (.ok b, w₁) ∧ outcome (f b) w₁ = (.ok a, w') := by
  rw [outcome_bind] at h
  generalize outcome x w = o at h ⊢
  rcases o with ⟨fault | b, w₁⟩
  · simp at h
  · exact ⟨b, w₁, rfl, h⟩

/-- A job whose result is dropped leaves the same world. -/
theorem outcome_discard (job : Job α) (w : World) :
    outcome (Functor.discard job) w =
      ((outcome job w).1.map fun _ => PUnit.unit, (outcome job w).2) := by
  change outcome (Function.const α PUnit.unit <$> job) w = _
  rw [map_eq_pure_bind, outcome_bind]
  rcases outcome job w with ⟨fault | a, w'⟩ <;> rfl

/-- A job whose result is dropped has a result. -/
theorem exists_of_outcome_discard {job : Job α} {u : PUnit} {w w' : World}
    (h : outcome (Functor.discard job) w = (.ok u, w')) : ∃ a, outcome job w = (.ok a, w') := by
  rw [outcome_discard] at h
  generalize outcome job w = o at h ⊢
  obtain ⟨fault | a, w₁⟩ := o
  · simp [Except.map] at h
  · obtain rfl : w₁ = w' := (Prod.mk.inj h).2
    exact ⟨a, rfl⟩

/-- An outcome with a result consists of the result and of the world that is left. -/
theorem outcome_eq_of_result {o : Except Fault α × World} {a : α} (h : o.1 = .ok a) :
    o = (.ok a, o.2) :=
  Prod.ext h rfl

/-- An attempt has the outcome of its job as its result. -/
theorem outcome_attempt (job : Job α) (w : World) :
    outcome (attempt job) w = (.ok (outcome job w).1, (outcome job w).2) := by
  have hmap : outcome (Except.ok <$> job : Job (Except Fault α)) w =
      ((outcome job w).1.map Except.ok, (outcome job w).2) := by
    rw [map_eq_pure_bind, outcome_bind]
    rcases outcome job w with ⟨fault | b, w'⟩ <;> rfl
  have hcatch : outcome (attempt job) w =
      match outcome (Except.ok <$> job : Job (Except Fault α)) w with
      | (.ok a, w') => (.ok a, w')
      | (.error fault, w') => (.ok (.error fault), w') := by
    unfold attempt outcome
    rw [ExceptT.run_tryCatch]
    simp only [bind, StateT.bind]
    rcases ExceptT.run (Except.ok <$> job) w with ⟨fault | b, w'⟩ <;> rfl
  rw [hcatch, hmap]
  rcases outcome job w with ⟨fault | b, w'⟩ <;> rfl

@[simp] theorem outcome_emit (e : Event) (w : World) :
    outcome (emit e) w = (.ok ⟨⟩, { w with trace := w.trace ++ [e] }) := rfl

@[simp] theorem outcome_record (level : Level) (message : Text) (w : World) :
    outcome (record level message) w =
      (.ok ⟨⟩, { w with trace := w.trace ++ [.recorded ⟨level, message⟩] }) := rfl

/-- Several records are added to the trace. -/
theorem outcome_recordAll (records : List Record) (w : World) :
    outcome (recordAll records) w =
      (.ok ⟨⟩, { w with trace := w.trace ++ records.map .recorded }) := by
  induction records generalizing w with
  | nil => simp [recordAll]
  | cons r records ih =>
    have hstep : recordAll (r :: records) = (emit (.recorded r) >>= fun _ => recordAll records) :=
      rfl
    rw [hstep, outcome_bind, outcome_emit]
    simp [ih]

/-- Started on a disk with `P`, a job ends with a result and a disk that `Q` relates, or with a
fault and a disk with `E`. -/
def Triple (P : Disk → Prop) (job : Job α) (Q : α → Disk → Prop) (E : Disk → Prop) : Prop :=
  ∀ w, P w.disk →
    match outcome job w with
    | (.ok a, w') => Q a w'.disk
    | (.error _, w') => E w'.disk

namespace Triple

/-- What a triple says about a run with a result. -/
theorem result {job : Job α} (h : Triple P job Q E) {w w' : World} {a : α} (hw : P w.disk)
    (hrun : outcome job w = (.ok a, w')) : Q a w'.disk := by
  have hall := h w hw
  rw [hrun] at hall
  exact hall

/-- A triple with a stronger premise and weaker conclusions. -/
theorem weaken {job : Job α} (h : Triple P job Q E) (hP : ∀ d, P' d → P d)
    (hQ : ∀ a d, Q a d → Q' a d) (hE : ∀ d, E d → E' d) : Triple P' job Q' E' := by
  intro w hw
  have hall := h w (hP _ hw)
  generalize outcome job w = o at hall ⊢
  rcases o with ⟨fault | a, w'⟩
  · exact hE _ hall
  · exact hQ _ _ hall

/-- What is known besides may be forgotten. -/
theorem forget {job : Job α} {S : α → Disk → Prop}
    (h : Triple P job (fun a d => P d ∧ S a d) E) : Triple P job (fun _ => P) E :=
  h.weaken (fun _ hd => hd) (fun _ _ hd => hd.1) fun _ hd => hd

/-- What holds of the disk at the start may be used. -/
theorem of_disk {job : Job α} (h : ∀ d, P d → Triple (fun d' => d' = d) job Q E) :
    Triple P job Q E :=
  fun w hw => h w.disk hw w rfl

/-- A result leaves the disk as it is. -/
theorem pure {a : α} (h : ∀ d, P d → Q a d) : Triple P (Pure.pure a) Q E :=
  fun w hw => h w.disk hw

/-- A fault leaves the disk as it is. -/
theorem throw {fault : Fault} (h : ∀ d, P d → E d) :
    Triple P (MonadExcept.throw fault : Job α) Q E :=
  fun w hw => h w.disk hw

/-- A failure leaves the disk as it is. -/
theorem fail {f : Failure} (h : ∀ d, P d → E d) : Triple P (Job.fail f : Job α) Q E :=
  throw h

/-- A job is followed by the one that its result leads to. -/
theorem bind {x : Job β} {f : β → Job α} (hx : Triple P x R E)
    (hf : ∀ b, Triple (R b) (f b) Q E) : Triple P (x >>= f) Q E := by
  intro w hw
  have hall := hx w hw
  rw [outcome_bind]
  generalize outcome x w = o at hall ⊢
  rcases o with ⟨fault | b, w'⟩
  · exact hall
  · exact hf b w' hall

/-- A result may be dropped. -/
theorem discard {job : Job α} {S : Disk → Prop} (h : Triple P job (fun _ => S) E) :
    Triple P (Functor.discard job) (fun _ => S) E := by
  change Triple P (Function.const α PUnit.unit <$> job) _ _
  rw [map_eq_pure_bind]
  exact bind h fun _ => pure fun _ hd => hd

/-- The outcome of an attempt is that of the job. -/
theorem attempt {job : Job α} (h : Triple P job Q E) :
    Triple P (Job.attempt job)
      (fun outcome d => match outcome with | .ok a => Q a d | .error _ => E d) E' := by
  intro w hw
  have hall := h w hw
  rw [outcome_attempt]
  generalize outcome job w = o at hall ⊢
  rcases o with ⟨fault | a, w'⟩ <;> exact hall

/-- The world is at hand. -/
theorem get : Triple P (MonadState.get : Job World) (fun w d => P d ∧ w.disk = d) E :=
  fun _ hw => ⟨hw, rfl⟩

/-- The world is replaced. -/
theorem set {w' : World} :
    Triple P (MonadState.set w' : Job PUnit) (fun _ d => d = w'.disk ∧ ∃ d', P d') E :=
  fun w hw => ⟨rfl, w.disk, hw⟩

/-- An event leaves the disk as it is. -/
theorem emit {e : Event} : Triple P (Job.emit e) (fun _ => P) E :=
  fun _ hw => hw

/-- A record leaves the disk as it is. -/
theorem record {level : Level} {message : Text} :
    Triple P (Job.record level message) (fun _ => P) E :=
  emit

/-- A text on the screen leaves the disk as it is. -/
theorem print {t : Text} : Triple P (Job.print t) (fun _ => P) E :=
  emit

/-- The clock leaves the disk as it is. -/
theorem time : Triple P Job.time (fun _ => P) E := by
  unfold Job.time
  refine bind get fun w => ?_
  split
  · exact pure fun d hd => hd.1
  · exact pure fun d hd => hd.1
  · refine bind set fun _ => pure ?_
    rintro d ⟨rfl, d', hd', rfl⟩
    exact hd'

/-- A loop without results keeps what its rounds keep. -/
theorem forM {γ : Type} {f : γ → Job PUnit} {xs : List γ}
    (h : ∀ x ∈ xs, Triple P (f x) (fun _ => P) E) : Triple P (xs.forM f) (fun _ => P) E := by
  induction xs with
  | nil => exact pure fun _ hd => hd
  | cons x xs ih =>
    exact bind (h x (by simp)) fun _ => ih fun y hy => h y (by simp [hy])

/-- A loop keeps an invariant about the part of its list that is done. -/
theorem foldlM_prefix {γ : Type} {S : List γ → β → Disk → Prop} {f : β → γ → Job β} {xs : List γ}
    {start : β} (h : ∀ before x after, xs = before ++ x :: after → ∀ b,
      Triple (S before b) (f b x) (S (before ++ [x])) E) :
    Triple (S [] start) (xs.foldlM f start) (S xs) E := by
  suffices ∀ rest before b, xs = before ++ rest →
      Triple (S before b) (rest.foldlM f b) (S xs) E from this xs [] start rfl
  intro rest
  induction rest with
  | nil =>
    intro before b hsplit
    rw [hsplit, List.append_nil]
    exact pure fun _ hd => hd
  | cons x rest ih =>
    intro before b hsplit
    rw [List.foldlM_cons]
    exact bind (h before x rest hsplit b) fun b' => ih (before ++ [x]) b' (by simp [hsplit])

/-- Several records leave the disk as it is. -/
theorem recordAll {records : List Record} : Triple P (Job.recordAll records) (fun _ => P) E :=
  forM fun _ _ => emit

end Triple

end Phrasebook.Job
