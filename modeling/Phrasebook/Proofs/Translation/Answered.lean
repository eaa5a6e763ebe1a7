import Phrasebook.Proofs.Job.Exchange
import Phrasebook.Proofs.Translation.Batches

/-!
# Translations when all requests are answered

While texts are translated, the trace goes on and each request uses up a reply. When every request is
answered, none is sent again, and each text that is sent gets the translation that was received for
it.
-/

namespace Phrasebook.Translation.Service

open Job (Keeps)

variable {s : Service} {target : Text} {w w' : World} {report : TranslationProgress → Job Unit}
  {known known' : Dictionary Text}

/-- The requests of a request that is sent again are all the same. -/
theorem filterMap_request?_sendEvents (s : Service) (request : Request) (attempt repeats : Nat) :
    (s.sendEvents request attempt repeats).filterMap Event.request? =
      List.replicate (repeats + 1) request := by
  induction repeats generalizing attempt with
  | zero => rfl
  | succ repeats ih =>
    rw [List.replicate_succ, ← ih (attempt + 1)]
    rfl

section Keeps

variable {I : World → Prop} (hI : ∀ w n events, (events.filterMap Event.request?).length = n →
  I w → I (w.advance n events))

include hI

/-- What is shown besides requests keeps what goes on. -/
theorem emit_keeps {e : Event} (he : e.request? = none) : Keeps I (Job.emit e) :=
  fun w hw => hI w 0 [e] (by simp [he]) hw

/-- A request keeps what goes on. -/
theorem ask_keeps (request : Request) : Keeps I (Job.ask request) := by
  intro w hw
  rw [Job.outcome_ask]
  exact hI w 1 [.requested request] rfl hw

/-- Sending a request keeps what goes on. -/
theorem send_keeps (s : Service) (request : Request) (attempt left : Nat) :
    Keeps I (s.send request attempt left) := by
  induction left generalizing attempt with
  | zero => exact Keeps.throw _
  | succ left ih =>
    rw [send]
    refine Keeps.bind (ask_keeps hI request) fun reply => ?_
    dsimp only
    split
    · split
      · exact Keeps.bind (emit_keeps hI rfl) fun _ => Keeps.bind (emit_keeps hI rfl) fun _ => ih _
      · exact Keeps.bind (Keeps.throw _) fun _ => Keeps.bind (emit_keeps hI rfl) fun _ =>
          Keeps.bind (emit_keeps hI rfl) fun _ => ih _
    · exact Keeps.pure _

/-- Translating texts keeps what goes on. -/
theorem translateTexts_keeps (s : Service) (texts : List Text) (target : Text) :
    Keeps I (s.translateTexts texts target) := by
  refine Keeps.bind (send_keeps hI s _ _ _) fun outcome => ?_
  cases outcome <;> exact Keeps.pure _

variable (hreport : ∀ p, Keeps I (report p))

include hreport

/-- Translating batches keeps what goes on. -/
theorem translateBatches_keeps (s : Service) (target : Text) (total processed : Nat)
    (known : Dictionary Text) (batches : List (List Text)) :
    Keeps I (s.translateBatches target total report processed known batches) := by
  induction batches generalizing processed known with
  | nil => exact Keeps.pure _
  | cons batch rest ih =>
    rw [translateBatches]
    refine Keeps.bind (translateTexts_keeps hI s batch target) fun result => ?_
    cases result with
    | error what =>
      exact Keeps.bind (emit_keeps hI rfl) fun _ => Keeps.bind (hreport _) fun _ => ih _ _
    | ok translations =>
      refine Keeps.bind (hreport _) fun _ => Keeps.bind (emit_keeps hI rfl) fun _ => ?_
      dsimp only
      split
      · exact Keeps.bind (emit_keeps hI rfl) fun _ => ih _ _
      · exact ih _ _

/-- Translating all texts keeps what goes on. -/
theorem translateAll_keeps (s : Service) (texts : List Text) (target : Text) :
    Keeps I (s.translateAll texts target report) := by
  rw [translateAll]
  refine Keeps.bind ?_ fun _ => ?_
  · rw [requireConfigured]
    split
    · exact Keeps.pure _
    · exact Keeps.fail _
  · dsimp only
    split
    · exact Keeps.pure _
    · exact Keeps.bind (emit_keeps hI rfl) fun _ =>
        Keeps.bind (translateBatches_keeps hI hreport s _ _ _ _ _) fun _ =>
          Keeps.bind (emit_keeps hI rfl) fun _ => Keeps.pure _

end Keeps

/-- While requests are sent, a world goes on to lead to. -/
theorem leadsTo_advance (w₀ w : World) (n : Nat) (events : List Event)
    (hn : (events.filterMap Event.request?).length = n) (h : w₀.LeadsTo w) :
    w₀.LeadsTo (w.advance n events) :=
  h.trans (.advance w hn)

/-- When its requests are answered, a batch is sent once, and its texts get the translations that
were received for them. -/
theorem translateTexts_of_answered {batch : List Text} {result : Except Text (List Text)}
    (hretries : 0 ≤ s.retries) (hrange : s.retries ≤ 1024)
    (hrun : Job.outcome (s.translateTexts batch target) w = (.ok result, w'))
    (hanswered : w.IsAnswered w') :
    ∃ texts, result = .ok texts ∧ texts.length = batch.length ∧
      (∀ t ∈ texts, Text.isBlankText t = false) ∧
        ∀ pair ∈ batch.zip texts, pair ∈ w.translations w' target := by
  obtain ⟨outcome, repeats, hsettled⟩ :=
    exists_isSettled w.reply (s.request batch target) s.retries.toNat
  have hle := hsettled.le
  rw [outcome_translateTexts hretries hsettled (by omega)] at hrun
  obtain ⟨hresult, rfl⟩ := Prod.mk.inj hrun
  have hfirst : ∀ first, (w.reply 0 (s.request batch target)).outcome (s.request batch target) =
      first → (s.request batch target, first) ∈ w.exchanges (w.advance (repeats + 1)
        (s.sendEvents (s.request batch target) 0 repeats)) := by
    rintro first rfl
    rw [World.exchanges_of_trace rfl, filterMap_request?_sendEvents, List.replicate_succ,
      List.mapIdx_cons]
    exact List.mem_cons_self
  obtain ⟨texts, htexts, hplain⟩ : ∃ texts, (w.reply 0 (s.request batch target)).outcome
      (s.request batch target) = .translated texts ∧ ∀ t ∈ texts, Text.isBlankText t = false :=
    hanswered _ (hfirst _ rfl)
  -- A request that was answered is not sent again.
  have honce : repeats = 0 := by
    by_contra hmore
    have htimeout := hsettled.before 0 (Nat.pos_of_ne_zero hmore)
    rw [htexts] at htimeout
    exact Bool.noConfusion htimeout
  subst honce
  obtain rfl : .translated texts = outcome := htexts.symm.trans hsettled.last
  refine ⟨texts, (Except.ok.inj hresult).symm, length_of_translated hsettled.last, hplain,
    fun pair hpair => List.mem_flatMap.2 ⟨_, hfirst _ htexts, ?_⟩⟩
  rw [if_pos (show (s.request batch target).target = target from rfl)]
  exact hpair

section Answered

variable (hretries : 0 ≤ s.retries) (hrange : s.retries ≤ 1024)
  (hreport : ∀ w₀ : World, ∀ p, Keeps w₀.LeadsTo (report p))

include hreport

/-- A run over batches sends the first one, and goes on with the others. -/
theorem exists_of_translateBatches_cons {batch : List Text} {rest : List (List Text)}
    {total processed : Nat} (hrun : Job.outcome (s.translateBatches target total report processed
      known (batch :: rest)) w = (.ok known', w')) :
    ∃ result w₁ w₂ processed',
      Job.outcome (s.translateTexts batch target) w = (.ok result, w₁) ∧ w₁.LeadsTo w₂ ∧
      Job.outcome (s.translateBatches target total report processed' (match result with
        | .ok texts => known.insertAll (batch.zip texts)
        | .error _ => known) rest) w₂ = (.ok known', w') := by
  rw [translateBatches] at hrun
  obtain ⟨result, w₁, hsent, hrun⟩ := Job.exists_of_outcome_bind hrun
  have hemitted : ∀ {e : Event} {w₂ w₃ : World}, e.request? = none →
      Job.outcome (Job.emit e) w₂ = (.ok ⟨⟩, w₃) → w₂.LeadsTo w₃ :=
    fun he => (emit_keeps (leadsTo_advance _) he).leadsTo
  cases result with
  | error what =>
    obtain ⟨_, w₂, hnoted, hrun⟩ := Job.exists_of_outcome_bind hrun
    obtain ⟨_, w₃, hshown, hrun⟩ := Job.exists_of_outcome_bind hrun
    exact ⟨_, _, _, _, hsent, (hemitted rfl hnoted).trans ((hreport _ _).leadsTo hshown), hrun⟩
  | ok texts =>
    obtain ⟨_, w₂, hshown, hrun⟩ := Job.exists_of_outcome_bind hrun
    obtain ⟨_, w₃, hnoted, hrun⟩ := Job.exists_of_outcome_bind hrun
    have hlater := ((hreport _ _).leadsTo hshown).trans (hemitted rfl hnoted)
    dsimp only at hrun
    split at hrun
    · obtain ⟨_, w₄, hslept, hrun⟩ := Job.exists_of_outcome_bind hrun
      exact ⟨_, _, _, _, hsent, hlater.trans (hemitted rfl hslept), hrun⟩
    · exact ⟨_, _, _, _, hsent, hlater, hrun⟩

include hretries hrange

/-- When all requests are answered, the texts of all batches get translations, and these are the ones
that were received. -/
theorem translateBatches_of_answered {batches : List (List Text)} {total processed : Nat}
    (hrun : Job.outcome (s.translateBatches target total report processed known batches) w =
      (.ok known', w')) (hanswered : w.IsAnswered w') :
    (∀ text t, known'.get? text = some t → known.get? text = some t ∨
      Text.isBlankText t = false ∧ (text, t) ∈ w.translations w' target) ∧
    ∀ text, text ∈ batches.flatten ∨ known.get? text ≠ none → known'.get? text ≠ none := by
  induction batches generalizing w processed known with
  | nil =>
    obtain ⟨hknown, -⟩ := Prod.mk.inj hrun
    obtain rfl := Except.ok.inj hknown
    exact ⟨fun text t ht => Or.inl ht, fun text htext => by simpa using htext⟩
  | cons batch rest ih =>
    obtain ⟨result, w₁, w₂, processed', hsent, hstep, hrun⟩ :=
      exists_of_translateBatches_cons hreport hrun
    have hfirst : w.LeadsTo w₁ :=
      (translateTexts_keeps (leadsTo_advance w) s batch target).leadsTo hsent
    have hrest : w₂.LeadsTo w' := (translateBatches_keeps (leadsTo_advance w₂) (hreport w₂) s target
      total processed' _ rest).leadsTo hrun
    obtain ⟨hanswered₁, hlater⟩ := hfirst.isAnswered (hstep.trans hrest) hanswered
    obtain ⟨-, hanswered₂⟩ := hstep.isAnswered hrest hlater
    obtain ⟨texts, rfl, hlength, hplain, hpairs⟩ :=
      translateTexts_of_answered hretries hrange hsent hanswered₁
    obtain ⟨hreceived, hfound⟩ := ih hrun hanswered₂
    refine ⟨fun text t ht => ?_, fun text htext => hfound text ?_⟩
    · rcases hreceived text t ht with hbefore | ⟨hb, hpair⟩
      · rcases Lexicon.get?_insertAll_cases hbefore with ⟨pair, hpair, rfl, rfl⟩ | hold
        · exact Or.inr ⟨hplain _ (List.of_mem_zip hpair).2,
            hfirst.mem_translations (hstep.trans hrest) (Or.inl (hpairs _ hpair))⟩
        · exact Or.inl hold
      · exact Or.inr ⟨hb, (hfirst.trans hstep).mem_translations hrest (Or.inr hpair)⟩
    · rw [List.flatten_cons, List.mem_append, or_assoc] at htext
      rcases htext with hbatch | hrest | hold
      · have hkey : text ∈ (batch.zip texts).map (·.1) := by
          rwa [List.map_fst_zip (Nat.le_of_eq hlength.symm)]
        obtain ⟨pair, hpair, rfl⟩ := List.mem_map.1 hkey
        exact Or.inr (Lexicon.get?_insertAll_ne_none (Or.inl ⟨pair, hpair, rfl⟩))
      · exact Or.inl hrest
      · exact Or.inr (Lexicon.get?_insertAll_ne_none (Or.inr hold))

/-- When all requests are answered, every text that is not blank gets a translation that is not blank
and was received for it, and no other text gets any. -/
theorem translateAll_of_answered {texts : List Text} {answer : Dictionary Text}
    (hrun : Job.outcome (s.translateAll texts target report) w = (.ok answer, w'))
    (hanswered : w.IsAnswered w') :
    (∀ text t, answer.get? text = some t →
      Text.isBlankText t = false ∧ (text, t) ∈ w.translations w' target) ∧
    ∀ text ∈ texts, Text.isBlankText text = false → answer.get? text ≠ none := by
  rw [translateAll] at hrun
  obtain ⟨_, w₁, hrequired, hrun⟩ := Job.exists_of_outcome_bind hrun
  obtain rfl : w = w₁ := by
    rw [requireConfigured] at hrequired
    split at hrequired
    · exact (Prod.mk.inj hrequired).2
    · simp [Job.fail] at hrequired
  dsimp only at hrun
  split at hrun
  · rename_i hempty
    obtain rfl := Except.ok.inj (Prod.mk.inj hrun).1
    refine ⟨fun text t ht => by simp at ht, fun text htext hb => ?_⟩
    have hsent := mem_worklist.2 ⟨htext, hb⟩
    rw [List.isEmpty_iff.1 hempty] at hsent
    simp at hsent
  · obtain ⟨_, w₂, hnoted, hrun⟩ := Job.exists_of_outcome_bind hrun
    obtain ⟨known, w₃, hbatches, hrun⟩ := Job.exists_of_outcome_bind hrun
    obtain ⟨_, w₄, hdone, hrun⟩ := Job.exists_of_outcome_bind hrun
    obtain ⟨hknown, rfl⟩ := Prod.mk.inj hrun
    obtain rfl := Except.ok.inj hknown
    have hstart : w.LeadsTo w₂ := (emit_keeps (leadsTo_advance w) rfl).leadsTo hnoted
    have hmiddle : w₂.LeadsTo w₃ := (translateBatches_keeps (leadsTo_advance w₂) (hreport w₂) s _ _ _
      _ _).leadsTo hbatches
    have hend : w₃.LeadsTo w₄ := (emit_keeps (leadsTo_advance w₃) rfl).leadsTo hdone
    obtain ⟨-, hlater⟩ := hstart.isAnswered (hmiddle.trans hend) hanswered
    obtain ⟨hanswered₃, -⟩ := hmiddle.isAnswered hend hlater
    obtain ⟨hreceived, hfound⟩ :=
      translateBatches_of_answered hretries hrange hreport hbatches hanswered₃
    refine ⟨fun text t ht => ?_, fun text htext hb => hfound text (Or.inl ?_)⟩
    · obtain ⟨hb, hpair⟩ := (hreceived text t ht).resolve_left (by simp)
      exact ⟨hb, hstart.mem_translations (hmiddle.trans hend)
        (Or.inr (hmiddle.mem_translations hend (Or.inl hpair)))⟩
    · rw [flatten_batches]
      exact mem_worklist.2 ⟨htext, hb⟩

end Answered

end Phrasebook.Translation.Service
