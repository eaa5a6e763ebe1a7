import Phrasebook.Proofs.Translation.Batches

/-!
# A run over all batches

A batch that fails costs its own texts only. As long as no request is sent again beyond the range of
the pauses, the run ends with a result, and the result and the reports are those that the outcomes
of the batches make up. Otherwise it ends with a fault.
-/

namespace Phrasebook

/-- The report of a batch translation that an event shows. -/
def Event.progress? : Event → Option TranslationProgress
  | .translated p => some p
  | _ => none

namespace Translation

/-- A way to report that never fails, with the events that it shows. -/
def Shows (report : TranslationProgress → Job Unit) (shown : TranslationProgress → List Event) :
    Prop :=
  ∀ p w, Job.outcome (report p) w = (.ok ⟨⟩, w.advance 0 (shown p))

variable {s : Service} {target : Text} {w : World} {settled : List SettledBatch}
  {report : TranslationProgress → Job Unit} {shown : TranslationProgress → List Event}
  {known : Dictionary Text}

/-- The translations are those of the batches: each text has the one at its own place in the answer
for its own batch, and has none when there is no such answer. -/
structure IsTranslated (texts : List Text) (settled : List SettledBatch)
    (known : Dictionary Text) : Prop where
  /-- A text has what the outcome of its batch has at its place. -/
  own : ∀ b ∈ settled, ∀ (i : Nat) (text : Text), b.texts[i]? = some text →
    known.get? text = b.outcome.texts[i]?
  /-- An answer has a translation for each text of the batch. -/
  whole : ∀ b ∈ settled, ∀ answer, b.outcome = .translated answer → answer.length = b.texts.length
  /-- No other text has a translation. -/
  only : ∀ text, text ∉ Service.worklist texts → known.get? text = none

/-- The reports are those about the batches. -/
structure IsReported (total : Nat) (settled : List SettledBatch) (known : Dictionary Text)
    (reports : List TranslationProgress) : Prop where
  /-- There is one report about each batch, in order, with the number of texts translated so far. -/
  each : ∀ i, reports[i]? = settled[i]?.map fun b : SettledBatch =>
    b.progress total (translatedPairs (settled.take (i + 1))).length
  /-- The number of translated texts never decreases. -/
  monotone : reports.Pairwise fun p p' => p.processed ≤ p'.processed
  /-- In the end it is the number of translations. -/
  last : ∀ p ∈ reports.getLast?, p.processed = known.size

namespace Service

/-- The texts are cut into batches as they should be. -/
structure IsBatched (s : Service) (texts : List Text) (batches : List (List Text)) : Prop where
  /-- The texts of the batches are distinct, in the order in which they were seen first. -/
  order : batches.flatten.Pairwise fun t t' => texts.idxOf t < texts.idxOf t'
  /-- The texts of the batches are those that are not blank. -/
  mem : ∀ t, t ∈ batches.flatten ↔ t ∈ texts ∧ Text.isBlankText t = false
  /-- No batch is empty, and none is longer than it may be. -/
  length : ∀ batch ∈ batches, 0 < batch.length ∧ (batch.length : Int) ≤ max 1 s.batchSize

/-- The batches of the texts that are sent. -/
theorem isBatched_batches (s : Service) (texts : List Text) :
    s.IsBatched texts (s.batches (worklist texts)) where
  order := by
    rw [flatten_batches]
    exact pairwise_worklist texts
  mem t := by
    rw [flatten_batches]
    exact mem_worklist
  length batch hbatch := by
    obtain ⟨hpos, hle⟩ := length_of_mem_piecesOf s.size_pos hbatch
    refine ⟨hpos, ?_⟩
    rw [size] at hle
    omega

/-- Sending a request shows no report. -/
theorem filterMap_sendEvents (s : Service) (request : Request) (attempt repeats : Nat) :
    (s.sendEvents request attempt repeats).filterMap Event.progress? = [] := by
  induction repeats generalizing attempt with
  | zero => rfl
  | succ repeats ih =>
    have htail := ih (attempt + 1)
    simpa [sendEvents, Event.progress?] using htail

/-- What is shown and asked for while a batch is translated, when `processed` texts of `total` are
translated with it. There is a pause when `more` batches follow it. -/
def batchEvents (s : Service) (target : Text) (shown : TranslationProgress → List Event)
    (total processed : Nat) (more : Bool) (b : SettledBatch) : List Event :=
  s.sendEvents (s.request b.texts target) 0 b.repeats ++
    match b.outcome.result with
    | .error what =>
      .recorded ⟨.error, "Batch translation to ".toList ++ target ++ " failed: ".toList ++ what⟩ ::
        shown (b.progress total processed)
    | .ok _ =>
      shown (b.progress total processed) ++ .recorded ⟨.debug, "Batch complete: ".toList ++
        Text.ofNat processed ++ '/' :: Text.ofNat total⟩ ::
        if more && s.pause.gtNat 0 then [.slept s.pause] else []

/-- What is shown and asked for while batches are translated, when `processed` texts of `total` are
translated before them. Where the range of the pauses is left, the run stops. -/
def runEvents (s : Service) (target : Text) (shown : TranslationProgress → List Event)
    (total : Nat) : Nat → List SettledBatch → List Event
  | _, [] => []
  | processed, b :: rest =>
    if b.repeats ≤ 1024 then
      s.batchEvents target shown total (processed + b.pairs.length) (!rest.isEmpty) b ++
        s.runEvents target shown total (processed + b.pairs.length) rest
    else s.sendEvents (s.request b.texts target) 0 1024

/-- The only reports about a batch are those that its progress shows. -/
theorem filterMap_batchEvents (total processed : Nat) (more : Bool) (b : SettledBatch) :
    (s.batchEvents target shown total processed more b).filterMap Event.progress? =
      (shown (b.progress total processed)).filterMap Event.progress? := by
  rw [batchEvents, List.filterMap_append, filterMap_sendEvents, List.nil_append]
  split
  · rfl
  · rw [List.filterMap_append]
    split <;> simp [Event.progress?]

/-- The reports of a run within the range of the pauses are those about its batches. -/
theorem filterMap_runEvents (hrange : ∀ b ∈ settled, b.repeats ≤ 1024) (total processed : Nat) :
    (s.runEvents target shown total processed settled).filterMap Event.progress? =
      ((progressReports total processed settled).flatMap shown).filterMap Event.progress? := by
  induction settled generalizing processed with
  | nil => rfl
  | cons b rest ih =>
    obtain ⟨hfirst, hlater⟩ := List.forall_mem_cons.1 hrange
    rw [runEvents, if_pos hfirst, List.filterMap_append, filterMap_batchEvents, ih hlater,
      progressReports, List.flatMap_cons, List.filterMap_append]

/-- What a batch makes of a run: its translations are added, and its events are shown. -/
theorem outcome_translateBatches_cons (hreport : Shows report shown) (hretries : 0 ≤ s.retries)
    {b : SettledBatch}
    (h : IsSettled w.reply (s.request b.texts target) s.retries.toNat b.outcome b.repeats)
    (hrange : b.repeats ≤ 1024) (total processed : Nat) (known : Dictionary Text)
    (rest : List (List Text)) :
    Job.outcome (s.translateBatches target total report processed known (b.texts :: rest)) w =
      Job.outcome (s.translateBatches target total report (processed + b.pairs.length)
        (known.insertAll b.pairs) rest) (w.advance (b.repeats + 1)
          (s.batchEvents target shown total (processed + b.pairs.length) (!rest.isEmpty) b)) := by
  rw [translateBatches, Job.outcome_bind, outcome_translateTexts hretries h hrange]
  cases hresult : b.outcome.result with
  | error what =>
    have hpairs : b.pairs = [] := by
      rw [SettledBatch.pairs, Outcome.texts, hresult, List.zip_nil_right]
    rw [batchEvents, hpairs, SettledBatch.progress, hresult]
    simp only
    rw [Job.outcome_bind, Job.record, Job.outcome_emit_advance]
    simp only
    rw [Job.outcome_bind, hreport _ _]
    simp only [World.advance_advance, List.append_assoc]
    rfl
  | ok answer =>
    have hpairs : b.pairs = b.texts.zip answer := by rw [SettledBatch.pairs, Outcome.texts, hresult]
    have hlength : b.pairs.length = b.texts.length := by
      have hanswer := length_of_translated (h.last.trans (Outcome.result_eq_ok_iff.1 hresult))
      rw [hpairs, List.length_zip]
      exact Nat.min_eq_left (Nat.le_of_eq hanswer.symm)
    rw [batchEvents, hlength, hpairs, SettledBatch.progress, hresult]
    simp only
    rw [Job.outcome_bind, hreport _ _]
    simp only
    rw [Job.outcome_bind, Job.record, Job.outcome_emit_advance]
    simp only
    by_cases hpause : (!rest.isEmpty && s.pause.gtNat 0) = true
    · rw [if_pos hpause, if_pos hpause, Job.outcome_bind, Job.sleep, Job.outcome_emit_advance]
      simp only [World.advance_advance, List.append_assoc]
      rfl
    · rw [if_neg hpause, if_neg hpause]
      simp only [World.advance_advance, List.append_assoc]

/-- A run ends with the translations of the batches, unless it leaves the range of the pauses, and
leaves its events behind. -/
theorem outcome_translateBatches (hreport : Shows report shown) (hretries : 0 ≤ s.retries)
    (h : Settles s target w.reply settled) (total processed : Nat) (known : Dictionary Text) :
    ∃ requests,
      Job.outcome (s.translateBatches target total report processed known
          (settled.map (·.texts))) w =
        (if ∀ b ∈ settled, b.repeats ≤ 1024 then .ok (known.insertAll (translatedPairs settled))
          else .error .endlessPause,
          w.advance requests (s.runEvents target shown total processed settled)) := by
  induction settled generalizing w processed known with
  | nil =>
    refine ⟨0, ?_⟩
    simp [translateBatches, World.advance, translatedPairs, Lexicon.insertAll, runEvents]
  | cons b rest ih =>
    cases h with
    | cons first later =>
      rw [List.map_cons]
      by_cases hfirst : b.repeats ≤ 1024
      · obtain ⟨requests, hrest⟩ := ih (w := w.advance (b.repeats + 1)
          (s.batchEvents target shown total (processed + b.pairs.length)
            (!(rest.map (·.texts)).isEmpty) b)) (by rwa [World.reply_advance])
            (processed + b.pairs.length) (known.insertAll b.pairs)
        refine ⟨b.repeats + 1 + requests, ?_⟩
        have hknown : (known.insertAll b.pairs).insertAll (translatedPairs rest) =
            known.insertAll (translatedPairs (b :: rest)) := by
          rw [Lexicon.insertAll, Lexicon.insertAll, ← List.foldl_append]
          rfl
        rw [outcome_translateBatches_cons hreport hretries first hfirst, hrest,
          World.advance_advance, hknown, runEvents, if_pos hfirst, List.isEmpty_map]
        simp only [List.forall_mem_cons, hfirst, true_and]
      · refine ⟨1025, ?_⟩
        rw [translateBatches, Job.outcome_bind,
          outcome_translateTexts_endless hretries first (by omega), runEvents, if_neg hfirst,
          if_neg fun hall => hfirst (hall b List.mem_cons_self)]

/-- Between a record at the start and one at the end, a run goes over the batches of the texts that
are sent, if there are any. -/
theorem outcome_translateAll_of_sent (hkey : s.isConfigured = true) {texts : List Text}
    (hsent : ¬ (worklist texts).isEmpty = true) (target : Text)
    (report : TranslationProgress → Job Unit) (w : World) :
    ∃ (first : Record) (last : Dictionary Text → Record),
      Job.outcome (s.translateAll texts target report) w =
        Job.outcome (do
          let known ← s.translateBatches target (worklist texts).length report 0 ∅
            (s.batches (worklist texts))
          Job.emit (.recorded (last known))
          return known) (w.advance 0 [.recorded first]) := by
  rw [translateAll, requireConfigured, if_pos hkey, Job.outcome_bind, Job.outcome_pure]
  simp only
  rw [if_neg hsent, Job.outcome_bind, Job.record, Job.outcome_emit_advance]
  exact ⟨_, fun known => ⟨.info, "Translated ".toList ++ Text.ofNat known.size ++ '/' ::
    Text.ofNat (worklist texts).length ++ " texts to ".toList ++ target⟩, rfl⟩

section Batches

variable (hreport : Shows report shown) (hkey : s.isConfigured = true) (hretries : 0 ≤ s.retries)
  {texts : List Text} (h : Settles s target w.reply settled)
  (hbatches : settled.map (·.texts) = s.batches (worklist texts))

include hreport hkey hretries h hbatches

/-- A run over the texts that are sent ends with the translations of their batches, unless it leaves
the range of the pauses. Besides its events, only records are left behind. -/
theorem outcome_translateAll_of_settles :
    ∃ (w' : World) (before after : List Record),
      Job.outcome (s.translateAll texts target report) w =
        (if ∀ b ∈ settled, b.repeats ≤ 1024 then .ok (Lexicon.ofList (translatedPairs settled))
          else .error .endlessPause, w') ∧
      w'.trace = w.trace ++ (before.map .recorded ++
        s.runEvents target shown (worklist texts).length 0 settled ++ after.map .recorded) := by
  by_cases hempty : (worklist texts).isEmpty = true
  · have hnil : settled = [] := by
      rw [List.isEmpty_iff.1 hempty] at hbatches
      exact List.map_eq_nil_iff.1 hbatches
    subst hnil
    rw [translateAll, requireConfigured, if_pos hkey, Job.outcome_bind, Job.outcome_pure]
    simp only
    rw [if_pos hempty]
    refine ⟨w, [], [], ?_, (List.append_nil _).symm⟩
    rw [if_pos (by simp)]
    rfl
  · obtain ⟨first, last, hall⟩ := outcome_translateAll_of_sent hkey hempty target report w
    obtain ⟨requests, hrun⟩ := outcome_translateBatches hreport hretries
      (w := w.advance 0 [.recorded first]) (by simpa using h) (worklist texts).length 0 ∅
    rw [hall, ← hbatches, Job.outcome_bind, hrun]
    by_cases hrange : ∀ b ∈ settled, b.repeats ≤ 1024
    · rw [if_pos hrange, if_pos hrange]
      refine ⟨_, [first], [last (Lexicon.insertAll ∅ (translatedPairs settled))], rfl, ?_⟩
      simp [World.advance]
    · rw [if_neg hrange, if_neg hrange]
      exact ⟨_, [first], [], rfl, by simp [World.advance]⟩

/-- A run over the texts that are sent, within the range of the pauses. -/
theorem outcome_translateAll (hrange : ∀ b ∈ settled, b.repeats ≤ 1024) :
    ∃ w', Job.outcome (s.translateAll texts target report) w =
        (.ok (Lexicon.ofList (translatedPairs settled)), w') ∧
      w'.trace.filterMap Event.progress? = w.trace.filterMap Event.progress? ++
        ((progressReports (worklist texts).length 0 settled).flatMap shown).filterMap
          Event.progress? := by
  obtain ⟨w', before, after, hrun, htrace⟩ :=
    outcome_translateAll_of_settles hreport hkey hretries h hbatches
  have hrecords : ∀ records : List Record,
      (records.map Event.recorded).filterMap Event.progress? = [] := by
    simp [List.filterMap_eq_nil_iff, Event.progress?]
  refine ⟨w', by rw [hrun, if_pos hrange], ?_⟩
  rw [htrace, List.filterMap_append, List.filterMap_append, List.filterMap_append, hrecords,
    hrecords, filterMap_runEvents hrange, List.nil_append, List.append_nil]

/-- A run over the texts that are sent that leaves the range of the pauses. -/
theorem outcome_translateAll_endless (hrange : ∃ b ∈ settled, 1024 < b.repeats) :
    ∃ w', Job.outcome (s.translateAll texts target report) w = (.error .endlessPause, w') := by
  obtain ⟨b, hb, hmany⟩ := hrange
  obtain ⟨w', -, -, hrun, -⟩ :=
    outcome_translateAll_of_settles hreport hkey hretries h hbatches
  exact ⟨w', by rw [hrun, if_neg fun hall => absurd (hall b hb) (by omega)]⟩

end Batches

end Service

/-- The translations that the batches add up to are those of the batches. -/
theorem isTranslated_of_settles {texts : List Text} {replies : Nat → Request → Reply}
    (h : Settles s target replies settled)
    (hbatches : settled.flatMap (·.texts) = Service.worklist texts)
    (hknown : known.entries = translatedPairs settled) : IsTranslated texts settled known where
  own b hb i text hi :=
    get?_of_translatedPairs hknown (hbatches ▸ Service.nodup_worklist texts) hb hi
  whole b hb answer houtcome := by
    obtain ⟨start, hsettled⟩ := h.isSettled_of_mem hb
    exact length_of_translated (hsettled.last.trans houtcome)
  only text htext := by
    refine Lexicon.get?_eq_none_iff.2 fun e he hsame => htext ?_
    obtain rfl : e.1 = text := hsame
    obtain ⟨b, hb, hpair⟩ := List.mem_flatMap.1 (hknown ▸ he)
    exact hbatches ▸ List.mem_flatMap.2 ⟨b, hb, (List.of_mem_zip hpair).1⟩

/-- The reports that a run makes are those about the batches. -/
theorem isReported_progressReports (total : Nat)
    (hknown : known.entries = translatedPairs settled) :
    IsReported total settled known (progressReports total 0 settled) where
  each i := by simpa using getElem?_progressReports total 0 settled i
  monotone := pairwise_progressReports total 0 settled
  last p hp := by
    rw [Option.mem_def, List.getLast?_eq_getElem?, length_progressReports, getElem?_progressReports,
      Option.map_eq_some_iff] at hp
    obtain ⟨b, hb, rfl⟩ := hp
    have hpos := (List.getElem?_eq_some_iff.1 hb).1
    rw [SettledBatch.processed_progress, Nat.zero_add, List.take_of_length_le (by omega), ← hknown,
      Lexicon.size]

namespace Service

/-- A run over batches. Each batch has an outcome of its own. When no request is sent again more
often than the pauses allow, the run ends with the translations that the outcomes make up, whether
there are reports or not, and the reports are those about the batches; otherwise the run ends with
a fault. -/
theorem translateAll_isolates (hkey : s.isConfigured = true) (hretries : 0 ≤ s.retries)
    (texts : List Text) (target : Text) (w : World) :
    ∃ settled, Settles s target w.reply settled ∧ s.IsBatched texts (settled.map (·.texts)) ∧
      ((∀ b ∈ settled, b.repeats ≤ 1024) → ∃ known reports,
        IsTranslated texts settled known ∧
        IsReported (worklist texts).length settled known reports ∧
        (∃ w', Job.outcome (s.translateAll texts target fun _ => pure ⟨⟩) w = (.ok known, w')) ∧
        ∃ w', Job.outcome (s.translateAll texts target fun p => Job.emit (.translated p)) w =
            (.ok known, w') ∧
          w'.trace.filterMap Event.progress? =
            w.trace.filterMap Event.progress? ++ reports) ∧
      ((∃ b ∈ settled, 1024 < b.repeats) → ∃ w',
        Job.outcome (s.translateAll texts target fun p => Job.emit (.translated p)) w =
          (.error .endlessPause, w')) := by
  obtain ⟨settled, hsettles, hbatches⟩ :=
    exists_settles s target (s.batches (worklist texts)) w.reply
  have hflat : settled.flatMap (·.texts) = worklist texts := by
    rw [List.flatMap_def, hbatches, flatten_batches]
  have hknown : (Lexicon.ofList (translatedPairs settled) : Dictionary Text).entries =
      translatedPairs settled :=
    Lexicon.entries_ofList (nodup_fst_translatedPairs (hflat ▸ nodup_worklist texts))
  have hreport : Shows (fun p => Job.emit (.translated p)) fun p => [.translated p] :=
    fun _ _ => rfl
  refine ⟨settled, hsettles, hbatches ▸ s.isBatched_batches texts, fun hrange => ?_,
    fun hmany => ?_⟩
  · refine ⟨_, _, isTranslated_of_settles hsettles hflat hknown,
      isReported_progressReports _ hknown, ?_, ?_⟩
    · have hsilent : Shows (fun _ => pure ⟨⟩) fun _ => [] := fun _ w => by simp [World.advance]
      obtain ⟨w', hrun, -⟩ := outcome_translateAll hsilent hkey hretries hsettles hbatches hrange
      exact ⟨w', hrun⟩
    · obtain ⟨w', hrun, hshown⟩ :=
        outcome_translateAll hreport hkey hretries hsettles hbatches hrange
      refine ⟨w', hrun, ?_⟩
      rw [hshown]
      simp [List.filterMap_flatMap, Event.progress?]
  · exact outcome_translateAll_endless hreport hkey hretries hsettles hbatches hmany

/-- With one text in a batch and one more attempt, a text without an answer does not cost the other
one its translation. With 1025 more attempts and never an answer, the pauses run out. -/
theorem translateAll_isolates_of_no_answer :
    let service : Int → Service := fun retries =>
      ⟨some "k".toList, "http:".toList, 1, .ofInt 0, retries, "en".toList⟩
    let answer : Value := .map [(.text "data".toList, .map [(.text "translations".toList,
      .list [.map [(.text "translatedText".toList, .text "A".toList)]])])]
    let answered : World := ⟨⟨[], []⟩, [], [fun _ => .answer 200 (some answer)],
      fun _ => .timeout "t".toList, [], []⟩
    let unanswered : World := ⟨⟨[], []⟩, [], [], fun _ => .timeout "t".toList, [], []⟩
    (service 1).isConfigured = true ∧ (service 1025).isConfigured = true ∧
    (∃ known w', Job.outcome ((service 1).translateAll ["a".toList, "b".toList] "de".toList
        fun p => Job.emit (.translated p)) answered = (.ok known, w') ∧
      known.entries = [("a".toList, "A".toList)]) ∧
    ∃ w', Job.outcome ((service 1025).translateAll ["b".toList] "de".toList
      fun p => Job.emit (.translated p)) unanswered = (.error .endlessPause, w') := by
  intro service answer answered unanswered
  have hkey : ∀ retries, (service retries).isConfigured = true := fun _ => rfl
  refine ⟨hkey 1, hkey 1025, ?_, ?_⟩
  · obtain ⟨settled, hsettles, -, hwithin, -⟩ := translateAll_isolates (hkey 1) (by decide)
      ["a".toList, "b".toList] "de".toList answered
    have hrange : ∀ b ∈ settled, b.repeats ≤ 1024 := by
      intro b hb
      obtain ⟨start, hsettled⟩ := hsettles.isSettled_of_mem hb
      exact Nat.le_trans hsettled.le (by decide)
    obtain ⟨known, reports, -, -, -, w', hrun, -⟩ := hwithin hrange
    refine ⟨known, w', hrun, ?_⟩
    have hresult : (Job.outcome ((service 1).translateAll ["a".toList, "b".toList] "de".toList
        fun p => Job.emit (.translated p)) answered).1.toOption.map (·.entries) =
        some [("a".toList, "A".toList)] := by decide +kernel
    rw [hrun] at hresult
    exact Option.some.inj hresult
  · obtain ⟨settled, hsettles, hbatched, -, hbeyond⟩ :=
      translateAll_isolates (hkey 1025) (by decide) ["b".toList] "de".toList unanswered
    have htext : "b".toList ∈ (settled.map (·.texts)).flatten :=
      (hbatched.mem _).2 ⟨by simp, by decide +kernel⟩
    obtain ⟨texts, htexts, -⟩ := List.mem_flatten.1 htext
    obtain ⟨b, hb, rfl⟩ := List.mem_map.1 htexts
    obtain ⟨start, hsettled⟩ := hsettles.isSettled_of_mem hb
    have hrepeats : b.repeats = 1025 := hsettled.final (hsettled.last ▸ rfl)
    exact hbeyond ⟨b, hb, by omega⟩

end Service

end Translation

end Phrasebook
