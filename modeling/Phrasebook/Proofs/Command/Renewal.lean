import Phrasebook.Command.Renew
import Phrasebook.Proofs.Command.Snapshot
import Phrasebook.Proofs.Translation.Answered
import Phrasebook.Proofs.Translation.Update
import Phrasebook.Proofs.Workspace.Batch
import Phrasebook.Proofs.Workspace.Dated

/-!
# What a renewal of machine translations writes

The machine translations of a base locale are due when some of their keys are orphans, or when some
texts of the source locale have none. When all requests are answered, a renewal writes the files of
the base locales that are due, and leaves the others: each file gets the entries that are kept, and
for each missing text a translation that was received for it.
-/

namespace Phrasebook

open Job (Keeps)

namespace World.LeadsTo

variable (w : World)

/-- A record may be left behind. -/
theorem record_keeps (level : Level) (message : Text) :
    Keeps w.LeadsTo (Job.record level message) :=
  Keeps.record (fun _ records h => h.trans (.noted _ records)) level message

/-- A text may be written. -/
theorem writeText_keeps (path content : Text) : Keeps w.LeadsTo (Files.writeText path content) := by
  intro w₁ hw
  rcases Files.writeText_cases path content w₁ with ⟨fault, hwritten⟩ | ⟨d, -, -, hwritten⟩
  · rwa [hwritten]
  · rw [hwritten]
    exact hw.trans (.withDisk w₁ d)

/-- A file may be backed up. -/
theorem create_keeps (file : Text) : Keeps w.LeadsTo (Backup.create file) := by
  refine Keeps.bind (Files.requireFile_keeps _) fun _ =>
    Keeps.bind (Files.readText_keeps _) fun content => ?_
  intro w₁ hw
  rcases Backup.write_cases file content w₁ with ⟨fault, hwritten⟩ | ⟨d, records, -, hwritten⟩
  · rw [hwritten]
    exact hw.trans (.tick w₁)
  · rw [hwritten]
    exact ((hw.trans (.tick w₁)).trans (.withDisk _ d)).trans (.noted _ records)

/-- Machine translations may be written. -/
theorem machine_keeps (style : Locale.Style) (directory base : Text) (texts : Dictionary Text)
    (backup : Bool) : Keeps w.LeadsTo (Save.machine style directory base texts backup) :=
  Save.machine_keeps (fun _ => create_keeps w _) (fun _ => writeText_keeps w _) (record_keeps w)
    texts backup

end World.LeadsTo

namespace Translation

variable {I : World → Prop}

/-- An update keeps what records and the translation keep. -/
theorem update_keeps (hrecord : ∀ level message, Keeps I (Job.record level message))
    {translate : List Text → Text → Job (Dictionary Text)}
    (htranslate : ∀ texts language, Keeps I (translate texts language)) (d : DataSet) (base : Text)
    (valid : Option KeySet) (source : Text) : Keeps I (update translate d base valid source) := by
  unfold update
  cases Locale.language? base with
  | none => exact Keeps.fail _
  | some language =>
    have hremoved : Keeps I (recordRemoved base (droppedKeys d.copy base valid)) := by
      unfold recordRemoved
      split
      · exact Keeps.pure _
      · exact hrecord _ _
    refine Keeps.bind hremoved fun _ => ?_
    dsimp only
    split
    · exact Keeps.bind (hrecord _ _) fun _ => Keeps.pure _
    · refine Keeps.bind (htranslate _ _) fun answer => Keeps.bind (hrecord _ _) fun _ => ?_
      split
      · exact Keeps.pure _
      · exact Keeps.fail _

/-- An update that ends with a result is one of a base locale of the catalog. -/
theorem exists_language_of_update {translate : List Text → Text → Job (Dictionary Text)}
    {d : DataSet} {base source : Text} {valid : Option KeySet} {u : Update} {w w' : World}
    (h : Job.outcome (update translate d base valid source) w = (.ok u, w')) :
    ∃ language, Locale.language? base = some language := by
  cases hlanguage : Locale.language? base with
  | some language => exact ⟨language, rfl⟩
  | none =>
    unfold update at h
    simp [hlanguage, Job.fail] at h

end Translation

namespace Renew

open Save (machineText)
open Text (isBlankText)
open Translation (IsUpdated answeredEntries keptEntries missingEntries)

variable {s : Session} {service : Translation.Service} {d d' : DataSet} {valid : KeySet}
  {base : Text} {w w' : World}

/-- The machine translations of a base locale are due: some of their keys are orphans, or some texts
of the source locale have none. -/
def isDue (d : DataSet) (valid : KeySet) (base : Text) : Bool :=
  !(d.machineOrphans base valid).isEmpty ||
    !(missingEntries d base (some valid) Locale.source).isEmpty

/-- Machine translations of a base locale that have been renewed with what was received: the ones
that are kept, and for each missing text one that was received for it. -/
structure IsRenewed (d : DataSet) (valid : KeySet) (base : Text) (received : List (Text × Text))
    (entries : List (Text × Text)) : Prop where
  /-- What is kept is there. -/
  kept : keptEntries d base (some valid) ⊆ entries
  /-- Every missing text has a translation that is not blank. -/
  filled : ∀ e ∈ missingEntries d base (some valid) Locale.source,
    ∃ t, (e.1, t) ∈ entries ∧ isBlankText t = false
  /-- What is not kept was received for a missing text. -/
  new : ∀ e ∈ entries, e ∈ keptEntries d base (some valid) ∨
    ∃ text, (e.1, text) ∈ missingEntries d base (some valid) Locale.source ∧
      (text, e.2) ∈ received

/-- More may have been received. -/
theorem IsRenewed.mono {received received' entries : List (Text × Text)}
    (h : IsRenewed d valid base received entries) (hmore : received ⊆ received') :
    IsRenewed d valid base received' entries :=
  ⟨h.kept, h.filled, fun e he => (h.new e he).imp_right fun ⟨text, hmissing, hpair⟩ =>
    ⟨text, hmissing, hmore hpair⟩⟩

/-- What is due depends on the texts and the machine translations of the base locale. -/
theorem keptEntries_congr (hmachine : d'.machine.get? base = d.machine.get? base) :
    keptEntries d' base (some valid) = keptEntries d base (some valid) := by
  simp only [keptEntries, DataSet.machineEntries, hmachine]

/-- What is missing depends on the texts and the machine translations of the base locale. -/
theorem missingEntries_congr (htexts : d'.texts = d.texts)
    (hmachine : d'.machine.get? base = d.machine.get? base) (source : Text) :
    missingEntries d' base (some valid) source = missingEntries d base (some valid) source := by
  simp only [missingEntries, htexts, keptEntries_congr hmachine]

/-- Whether a base locale is due depends on the texts and on its machine translations. -/
theorem isDue_congr (htexts : d'.texts = d.texts)
    (hmachine : d'.machine.get? base = d.machine.get? base) :
    isDue d' valid base = isDue d valid base := by
  simp only [isDue, missingEntries_congr htexts hmachine, DataSet.machineOrphans, hmachine]

/-- Renewed entries stay renewed for the same texts and machine translations. -/
theorem IsRenewed.congr {received entries : List (Text × Text)}
    (h : IsRenewed d' valid base received entries) (htexts : d'.texts = d.texts)
    (hmachine : d'.machine.get? base = d.machine.get? base) :
    IsRenewed d valid base received entries := by
  have hkept : keptEntries d' base (some valid) = keptEntries d base (some valid) :=
    keptEntries_congr hmachine
  have hmissing : missingEntries d' base (some valid) Locale.source =
      missingEntries d base (some valid) Locale.source :=
    missingEntries_congr htexts hmachine _
  exact ⟨hkept ▸ h.kept, hmissing ▸ h.filled, hkept ▸ hmissing ▸ h.new⟩

/-- When every missing text has an answer, all missing keys get a translation. -/
theorem map_fst_answeredEntries {missing : List (Text × Text)} {answer : Dictionary Text}
    (hall : ∀ e ∈ missing, answer.get? e.2 ≠ none) :
    (answeredEntries missing answer).map (·.1) = missing.map (·.1) := by
  induction missing with
  | nil => rfl
  | cons e missing ih =>
    obtain ⟨t, ht⟩ := Option.ne_none_iff_exists'.1 (hall e (by simp))
    rw [answeredEntries, List.filterMap_cons, ht, Option.map_some]
    simp only [List.map_cons]
    exact congrArg _ (ih fun e' he' => hall e' (by simp [he']))

/-- Sorting keys leaves none out. -/
theorem isEmpty_sortKeys (keys : List Text) : (sortKeys keys).isEmpty = keys.isEmpty := by
  rw [Bool.eq_iff_iff, List.isEmpty_iff, List.isEmpty_iff, ← List.length_eq_zero_iff,
    (sortKeys_perm keys).length_eq, List.length_eq_zero_iff]

/-- When every missing text has an answer, an update changes a base locale that is due, and renews
it with what was received. -/
theorem isRenewed_of_isUpdated {answer : Dictionary Text} {u : Translation.Update}
    {received : List (Text × Text)} (h : IsUpdated d base (some valid) Locale.source answer u)
    (hreceived : ∀ text t, answer.get? text = some t →
      isBlankText t = false ∧ (text, t) ∈ received)
    (hall : ∀ e ∈ missingEntries d base (some valid) Locale.source, answer.get? e.2 ≠ none) :
    u.changed = isDue d valid base ∧
      IsRenewed d valid base received (u.dataSet.machineEntries base) := by
  obtain ⟨new, hentries, hperm, -⟩ := h.entries
  have hnew : ∀ {e}, e ∈ new ↔ ∃ text, (e.1, text) ∈ missingEntries d base (some valid)
      Locale.source ∧ answer.get? text = some e.2 := by
    rintro ⟨key, t⟩
    rw [hperm.mem_iff, answeredEntries, List.mem_filterMap]
    constructor
    · rintro ⟨⟨k, text⟩, hmissing, hanswer⟩
      obtain ⟨t', ht', hsame⟩ := Option.map_eq_some_iff.1 hanswer
      obtain ⟨rfl, rfl⟩ := Prod.mk.inj hsame
      exact ⟨text, hmissing, ht'⟩
    · rintro ⟨text, hmissing, ht⟩
      exact ⟨(key, text), hmissing, by rw [ht, Option.map_some]⟩
  constructor
  · have hremoved : u.removed = d.machineOrphans base valid :=
      h.removed.trans (d.machineOrphans_eq base valid).symm
    have hadded : u.added.isEmpty =
        (missingEntries d base (some valid) Locale.source).isEmpty := by
      rw [h.added, isEmpty_sortKeys, map_fst_answeredEntries hall, List.isEmpty_map]
    rw [Translation.Update.changed, hremoved, hadded, isDue, Bool.or_comm]
  · rw [hentries]
    refine ⟨List.subset_append_left _ _, fun e he => ?_, fun e he => ?_⟩
    · obtain ⟨t, ht⟩ := Option.ne_none_iff_exists'.1 (hall e he)
      exact ⟨t, List.mem_append_right _ (hnew.2 ⟨e.2, he, ht⟩), (hreceived _ _ ht).1⟩
    · refine (List.mem_append.1 he).imp_right fun hmem => ?_
      obtain ⟨text, hmissing, ht⟩ := hnew.1 hmem
      exact ⟨text, hmissing, (hreceived _ _ ht).2⟩

/-- Showing how far a translation is keeps what goes on. -/
theorem showTranslation_keeps {I : World → Prop}
    (hI : ∀ w n events, (events.filterMap Event.request?).length = n → I w → I (w.advance n events))
    (p : TranslationProgress) : Keeps I (showTranslation p) := by
  unfold showTranslation
  split
  · exact Translation.Service.emit_keeps hI rfl
  · exact Translation.Service.emit_keeps hI rfl

/-- The missing texts of a base locale are translated by the service. -/
def translate (service : Translation.Service) (texts : List Text) (language : Text) :
    Job (Dictionary Text) :=
  service.translateAll texts language showTranslation

/-- An update by the service keeps what goes on. -/
theorem update_keeps {I : World → Prop}
    (hI : ∀ w n events, (events.filterMap Event.request?).length = n → I w → I (w.advance n events))
    (service : Translation.Service) (d : DataSet) (base : Text) (valid : KeySet) :
    Keeps I (Translation.update (translate service) d base (some valid) Locale.source) :=
  Translation.update_keeps (fun _ _ => Translation.Service.emit_keeps hI rfl)
    (fun texts language =>
      service.translateAll_keeps hI (showTranslation_keeps hI) texts language) _ _ _ _

/-- When its requests are answered, an update by the service comes to what the received translations
make of the data set, and each missing text has one of them. Without missing texts nothing is sent. -/
theorem exists_isUpdated_of_answered (hretries : 0 ≤ service.retries ∧ service.retries ≤ 1024)
    {language : Text} (hlanguage : Locale.language? base = some language) {u : Translation.Update}
    (hrun : Job.outcome (Translation.update (translate service) d base (some valid)
      Locale.source) w = (.ok u, w')) (hanswered : w.IsAnswered w') :
    ∃ answer, IsUpdated d base (some valid) Locale.source answer u ∧
      (∀ text t, answer.get? text = some t →
        isBlankText t = false ∧ (text, t) ∈ w.translations w' language) ∧
      ∀ e ∈ missingEntries d base (some valid) Locale.source, answer.get? e.2 ≠ none := by
  obtain ⟨hnone, hsome⟩ := Translation.update_spec hlanguage (translate service) d (some valid)
    Locale.source
  by_cases hmissing : missingEntries d base (some valid) Locale.source = []
  · obtain ⟨u', hupdated, hyields⟩ := hnone hmissing
    obtain ⟨records, hyields⟩ := hyields w
    obtain rfl := Except.ok.inj (Prod.mk.inj (hrun.symm.trans hyields)).1
    exact ⟨∅, hupdated, by simp, by simp [hmissing]⟩
  · obtain ⟨noted, hcase⟩ := hsome hmissing w
    generalize htranslated : Job.outcome (translate service ((missingEntries d base (some valid)
      Locale.source).map (·.2)) language) _ = o at hcase
    obtain ⟨fault | answer, w₁⟩ := o
    · simp only at hcase
      rw [hcase] at hrun
      simp at hrun
    · obtain ⟨u', hupdated, records, hcase⟩ := hcase
      obtain ⟨hresult, hworld⟩ := Prod.mk.inj (hrun.symm.trans hcase)
      obtain rfl := Except.ok.inj hresult
      subst hworld
      have hstart : w.LeadsTo (w.noted noted) := .noted w noted
      have hmiddle : (w.noted noted).LeadsTo w₁ :=
        (service.translateAll_keeps (Translation.Service.leadsTo_advance _)
          (showTranslation_keeps (Translation.Service.leadsTo_advance _)) _ _).leadsTo htranslated
      have hend : w₁.LeadsTo (w₁.noted records) := .noted w₁ records
      obtain ⟨-, hlater⟩ := hstart.isAnswered (hmiddle.trans hend) hanswered
      obtain ⟨hanswered₁, -⟩ := hmiddle.isAnswered hend hlater
      obtain ⟨hreceived, hfound⟩ := Translation.Service.translateAll_of_answered hretries.1
        hretries.2 (fun w₀ => showTranslation_keeps (Translation.Service.leadsTo_advance w₀))
        htranslated hanswered₁
      refine ⟨answer, hupdated, fun text t ht => ?_, fun e he => ?_⟩
      · obtain ⟨hblank, hpair⟩ := hreceived text t ht
        exact ⟨hblank, hstart.mem_translations (hmiddle.trans hend)
          (Or.inr (hmiddle.mem_translations hend (Or.inl hpair)))⟩
      · have hwanted := (Bool.and_eq_true_iff.1 (List.mem_filter.1 he).2).1
        have hblank := (Bool.and_eq_true_iff.1 hwanted).1
        exact hfound e.2 (List.mem_map_of_mem he) (by simpa using hblank)

/-- When its requests are answered, an update by the service leaves the disk as it is, changes a
base locale that is due, and renews it with what was received. -/
theorem update_of_answered (hretries : 0 ≤ service.retries ∧ service.retries ≤ 1024)
    {u : Translation.Update} (hrun : Job.outcome (Translation.update (translate service) d base
      (some valid) Locale.source) w = (.ok u, w')) (hanswered : w.IsAnswered w') :
    w'.disk = w.disk ∧ u.changed = isDue d valid base ∧ u.dataSet.texts = d.texts ∧
      (∀ other, Text.fold other ≠ Text.fold base →
        u.dataSet.machine.get? other = d.machine.get? other) ∧
      ∀ language, Locale.language? base = some language →
        IsRenewed d valid base (w.translations w' language) (u.dataSet.machineEntries base) := by
  have hdisk : w'.disk = w.disk := by
    have hkeeps := update_keeps (I := fun w₁ => w₁.disk = w.disk) (fun _ _ _ _ h => h) service d
      base valid w rfl
    rwa [hrun] at hkeeps
  obtain ⟨language, hlanguage⟩ := Translation.exists_language_of_update hrun
  obtain ⟨answer, hupdated, hreceived, hall⟩ :=
    exists_isUpdated_of_answered hretries hlanguage hrun hanswered
  obtain ⟨hchanged, hrenewed⟩ := isRenewed_of_isUpdated hupdated hreceived hall
  refine ⟨hdisk, hchanged, hupdated.texts, hupdated.others, fun language' hlanguage' => ?_⟩
  obtain rfl := Option.some.inj (hlanguage.symm.trans hlanguage')
  exact hrenewed

/-- A run has renewed machine translations of base locales. It has written the file of each one that
is due, and no others. -/
structure HasRenewed (s : Session) (d : DataSet) (valid : KeySet) (bases : List Text)
    (written : List (Text × Dictionary Text)) (w w' : World) : Prop where
  /-- The trace goes on, and the replies are used up by requests. -/
  leads : w.LeadsTo w'
  /-- The base locales are known. -/
  known : ∀ base ∈ bases, ∃ language, Locale.language? base = some language
  /-- Something is written for the base locales that are due. -/
  due : written.map (·.1) = bases.filter (isDue d valid)
  /-- The files have been written. -/
  disk : Written w.disk (written.map fun e => (s.machinePath e.1, machineText s.style e.1 e.2))
    w'.disk
  /-- What is written has been renewed. -/
  renewed : ∀ e ∈ written, e.1 ∈ Locale.machineBases ∧
    ∀ language, Locale.language? e.1 = some language →
      IsRenewed d valid e.1 (w.translations w' language) e.2.entries

/-- What is written for a base locale that is due. -/
theorem HasRenewed.mem_of_due {bases : List Text} {written : List (Text × Dictionary Text)}
    (h : HasRenewed s d valid bases written w w') (hbase : base ∈ bases)
    (hdue : isDue d valid base = true) : ∃ texts, (base, texts) ∈ written := by
  have hmem : base ∈ written.map (·.1) := h.due ▸ List.mem_filter.2 ⟨hbase, hdue⟩
  obtain ⟨e, he, rfl⟩ := List.mem_map.1 hmem
  exact ⟨e.2, he⟩

/-- Only base locales that are due are written. -/
theorem HasRenewed.due_of_mem {bases : List Text} {written : List (Text × Dictionary Text)}
    (h : HasRenewed s d valid bases written w w') {e : Text × Dictionary Text} (he : e ∈ written) :
    e.1 ∈ bases ∧ isDue d valid e.1 = true :=
  List.mem_filter.1 (h.due ▸ List.mem_map_of_mem he)

/-- What a step of a renewal does with the update of a base locale. -/
def finish (s : Session) (base : Text) (u : Translation.Update) : Job DataSet := do
  if u.changed then
    let path ← Save.machine s.style s.directory base
      (Locale.exactly ((u.dataSet.machine.get? base).getD ∅)) s.settings.files.keepsBackups
    Job.print (base ++ ": ".toList ++ Text.ofNat u.added.length ++ " added, ".toList ++
      Text.ofNat u.removed.length ++ " removed -> ".toList ++ path)
  else
    Job.print (base ++ ": up to date".toList)
  return u.dataSet

/-- A step of a renewal is an update and what is done with it. -/
theorem base_eq (s : Session) (service : Translation.Service) (valid : KeySet) (d : DataSet)
    (base : Text) : Renew.base s service valid d base =
      (Translation.update (translate service) d base (some valid) Locale.source >>=
        finish s base) := rfl

/-- What is done with an update goes on from a world. -/
theorem finish_keeps (w : World) (s : Session) (base : Text) (u : Translation.Update) :
    Keeps w.LeadsTo (finish s base u) := by
  have hprint : ∀ t, Keeps w.LeadsTo (Job.print t) := fun t =>
    Translation.Service.emit_keeps (Translation.Service.leadsTo_advance w) rfl
  unfold finish
  dsimp only
  split
  · exact Keeps.bind (World.LeadsTo.machine_keeps w _ _ _ _ _) fun _ =>
      Keeps.bind (hprint _) fun _ => Keeps.pure _
  · exact Keeps.bind (hprint _) fun _ => Keeps.pure _

/-- A step of a renewal goes on from a world. -/
theorem base_keeps (w : World) (s : Session) (service : Translation.Service) (valid : KeySet)
    (d : DataSet) (base : Text) : Keeps w.LeadsTo (Renew.base s service valid d base) :=
  Keeps.bind (update_keeps (Translation.Service.leadsTo_advance w) service d base valid)
    (finish_keeps w s base)

/-- An update that changes something is written, and one that changes nothing leaves the disk as it
is. -/
theorem of_finish {u : Translation.Update}
    (h : Job.outcome (finish s base u) w = (.ok d', w')) :
    d' = u.dataSet ∧
      (u.changed = true → base ∈ Locale.machineBases ∧ ∀ start texts,
        Written start texts w.disk → Written start (texts ++ [(s.machinePath base,
          machineText s.style base (Locale.exactly ((u.dataSet.machine.get? base).getD ∅)))])
            w'.disk) ∧
      (u.changed = false → w'.disk = w.disk) := by
  unfold finish at h
  dsimp only at h
  split at h
  · rename_i hchanged
    obtain ⟨path, w₁, hsaved, hrest⟩ := Job.exists_of_outcome_bind h
    rw [Job.print, Job.outcome_bind, Job.outcome_emit] at hrest
    obtain ⟨hresult, hworld⟩ := Prod.mk.inj hrest
    have hdisk : w'.disk = w₁.disk := hworld ▸ rfl
    refine ⟨(Except.ok.inj hresult).symm, fun _ => ⟨Save.mem_machineBases_of_machine hsaved,
      fun start texts hwritten => ?_⟩, fun hnot => absurd (hchanged.symm.trans hnot) (by decide)⟩
    rw [hdisk]
    exact (Save.machine_written base _ _).result hwritten hsaved
  · rename_i hnot
    rw [Job.print, Job.outcome_bind, Job.outcome_emit] at h
    obtain ⟨hresult, rfl⟩ := Prod.mk.inj h
    exact ⟨(Except.ok.inj hresult).symm, fun hchanged => absurd hchanged hnot, fun _ => rfl⟩

/-- The entries that are written for a base locale are all that the data set has. -/
theorem entries_exactly_getD (d : DataSet) (base : Text) :
    (Locale.exactly ((d.machine.get? base).getD ∅)).entries = d.machineEntries base := by
  unfold DataSet.machineEntries
  cases d.machine.get? base <;> rfl

/-- When its requests are answered, a step of a renewal renews a base locale that is due. -/
theorem base_of_answered (hretries : 0 ≤ service.retries ∧ service.retries ≤ 1024)
    (hrun : Job.outcome (Renew.base s service valid d base) w = (.ok d', w'))
    (hanswered : w.IsAnswered w') :
    (∃ written, HasRenewed s d valid [base] written w w') ∧ d'.texts = d.texts ∧
      ∀ other, Text.fold other ≠ Text.fold base →
        d'.machine.get? other = d.machine.get? other := by
  have hleads := (base_keeps w s service valid d base).leadsTo hrun
  rw [base_eq] at hrun
  obtain ⟨u, w₁, hupdate, hrest⟩ := Job.exists_of_outcome_bind hrun
  have hfirst : w.LeadsTo w₁ := (update_keeps (Translation.Service.leadsTo_advance w) service d base
    valid).leadsTo hupdate
  have hlast : w₁.LeadsTo w' := (finish_keeps w₁ s base u).leadsTo hrest
  have hknown : ∀ b ∈ [base], ∃ language, Locale.language? b = some language := by
    simpa using Translation.exists_language_of_update hupdate
  obtain ⟨hdisk, hchanged, htexts, hothers, hrenewed⟩ :=
    update_of_answered hretries hupdate (hfirst.isAnswered hlast hanswered).1
  obtain ⟨rfl, hwritten, hleft⟩ := of_finish hrest
  rw [hchanged] at hwritten hleft
  refine ⟨?_, htexts, hothers⟩
  cases hdue : isDue d valid base with
  | true =>
    obtain ⟨hbase, hwritten⟩ := hwritten hdue
    refine ⟨[(base, Locale.exactly ((u.dataSet.machine.get? base).getD ∅))], hleads, hknown,
      by simp [hdue], hwritten w.disk [] (hdisk ▸ .start), fun e he => ?_⟩
    obtain rfl := List.mem_singleton.1 he
    refine ⟨hbase, fun language hlanguage => ?_⟩
    rw [entries_exactly_getD]
    exact (hrenewed language hlanguage).mono fun pair hpair =>
      hfirst.mem_translations hlast (Or.inl hpair)
  | false =>
    refine ⟨[], hleads, hknown, by simp [hdue], ?_, by simp⟩
    rw [hleft hdue, hdisk]
    exact .start

/-- Base locales have been renewed when some and then others have been, on which the first ones had
no influence. -/
theorem HasRenewed.append {bases bases' : List Text} {w₁ : World}
    {first rest : List (Text × Dictionary Text)} (h : HasRenewed s d valid bases first w w₁)
    (h' : HasRenewed s d' valid bases' rest w₁ w') (htexts : d'.texts = d.texts)
    (hmachine : ∀ base ∈ bases', d'.machine.get? base = d.machine.get? base) :
    HasRenewed s d valid (bases ++ bases') (first ++ rest) w w' := by
  have hdue : bases'.filter (isDue d' valid) = bases'.filter (isDue d valid) :=
    List.filter_congr fun base hbase => isDue_congr htexts (hmachine base hbase)
  refine ⟨h.leads.trans h'.leads, fun base hbase => ?_, ?_, ?_, fun e he => ?_⟩
  · exact (List.mem_append.1 hbase).elim (h.known base) (h'.known base)
  · rw [List.map_append, List.filter_append, h.due, h'.due, hdue]
  · rw [List.map_append]
    exact h.disk.trans h'.disk
  · rcases List.mem_append.1 he with he | he
    · obtain ⟨hbase, hrenewed⟩ := h.renewed e he
      exact ⟨hbase, fun language hlanguage => (hrenewed language hlanguage).mono fun pair hpair =>
        h.leads.mem_translations h'.leads (Or.inl hpair)⟩
    · obtain ⟨hbase, hrenewed⟩ := h'.renewed e he
      have hsame := hmachine e.1 (h'.due_of_mem he).1
      exact ⟨hbase, fun language hlanguage =>
        ((hrenewed language hlanguage).congr htexts hsame).mono fun pair hpair =>
          h.leads.mem_translations h'.leads (Or.inr hpair)⟩

/-- When all requests are answered, the base locales that are due are renewed. -/
theorem foldlM_of_answered (hretries : 0 ≤ service.retries ∧ service.retries ≤ 1024)
    {bases : List Text} (hdistinct : (bases.map Text.fold).Nodup)
    (hrun : Job.outcome (bases.foldlM (Renew.base s service valid) d) w = (.ok d', w'))
    (hanswered : w.IsAnswered w') : ∃ written, HasRenewed s d valid bases written w w' := by
  induction bases generalizing d w with
  | nil =>
    obtain ⟨-, rfl⟩ := Prod.mk.inj hrun
    exact ⟨[], .refl w, by simp, rfl, .start, by simp⟩
  | cons base bases ih =>
    rw [List.foldlM_cons] at hrun
    obtain ⟨d₁, w₁, hfirst, hrest⟩ := Job.exists_of_outcome_bind hrun
    have hleads := (base_keeps w s service valid d base).leadsTo hfirst
    have hlater : w₁.LeadsTo w' :=
      (Keeps.foldlM (fun d b _ => base_keeps w₁ s service valid d b) d₁).leadsTo hrest
    obtain ⟨hanswered₁, hanswered₂⟩ := hleads.isAnswered hlater hanswered
    obtain ⟨hnew, hothers⟩ := List.nodup_cons.1 hdistinct
    -- The other base locales have the machine translations that they had, so they are due as before.
    obtain ⟨⟨written, hwritten⟩, htexts, hmachine⟩ :=
      base_of_answered hretries hfirst hanswered₁
    obtain ⟨written', hwritten'⟩ := ih hothers hrest hanswered₂
    refine ⟨written ++ written', hwritten.append hwritten' htexts fun b hb => hmachine b ?_⟩
    exact fun hsame => hnew (hsame ▸ List.mem_map_of_mem hb)

end Renew

end Phrasebook
