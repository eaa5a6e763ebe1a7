import Phrasebook.Proofs.Job

/-!
# Jobs that only read

A job that only reads has the same result wherever it finds the same disk. It changes nothing in the
world but for the records that it adds to the trace.
-/

namespace Phrasebook.Job

variable {α β γ : Type} {d : Disk}

/-- On a disk a job has a result, and it leaves nothing behind but records. -/
def Yields (d : Disk) (job : Job α) (a : α) : Prop :=
  ∀ w : World, w.disk = d → ∃ records : List Record,
    outcome job w = (.ok a, { w with trace := w.trace ++ records.map .recorded })

namespace Yields

/-- A run of a job that only reads has its result and keeps the disk. -/
theorem result {job : Job α} {a b : α} (h : Yields d job a) {w w' : World} (hw : w.disk = d)
    (hrun : outcome job w = (.ok b, w')) : b = a ∧ w'.disk = d := by
  obtain ⟨records, hyields⟩ := h w hw
  obtain ⟨hresult, hworld⟩ := Prod.mk.inj (hrun.symm.trans hyields)
  exact ⟨Except.ok.inj hresult, by rw [hworld, ← hw]⟩

/-- A result is at hand. -/
theorem pure (a : α) : Yields d (Pure.pure a) a :=
  fun w _ => ⟨[], by simp⟩

/-- A record may be left behind. -/
theorem record (level : Level) (message : Text) : Yields d (Job.record level message) ⟨⟩ :=
  fun w _ => ⟨[⟨level, message⟩], by simp⟩

/-- A job is followed by the one that its result leads to. -/
theorem bind {x : Job β} {f : β → Job α} {b : β} {a : α} (hx : Yields d x b)
    (hf : Yields d (f b) a) : Yields d (x >>= f) a := by
  intro w hw
  obtain ⟨first, hfirst⟩ := hx w hw
  obtain ⟨second, hsecond⟩ := hf { w with trace := w.trace ++ first.map .recorded } hw
  refine ⟨first ++ second, ?_⟩
  rw [outcome_bind, hfirst]
  simp only
  rw [hsecond]
  simp

/-- A job that looks at the disk only. -/
theorem get {f : World → Job α} {a : α} (h : ∀ w, w.disk = d → Yields d (f w) a) :
    Yields d (MonadState.get >>= f) a := by
  intro w hw
  obtain ⟨records, hyields⟩ := h w hw w hw
  exact ⟨records, by rw [outcome_bind, outcome_get]; exact hyields⟩

/-- A loop has the result that its rounds lead to. -/
theorem foldlM {f : β → γ → Job β} {g : β → γ → β} {xs : List γ} (b : β)
    (h : ∀ b, ∀ x ∈ xs, Yields d (f b x) (g b x)) : Yields d (xs.foldlM f b) (xs.foldl g b) := by
  induction xs generalizing b with
  | nil => exact pure b
  | cons x xs ih =>
    rw [List.foldlM_cons]
    exact bind (h b x (by simp)) (ih (g b x) fun b y hy => h b y (by simp [hy]))

end Yields

end Phrasebook.Job
