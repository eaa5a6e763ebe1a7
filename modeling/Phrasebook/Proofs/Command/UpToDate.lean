import Phrasebook.Proofs.Command.KeptTexts
import Phrasebook.Proofs.Command.LookUps

/-!
# Renewing machine translations twice

A renewal in which no base locale is due asks the service for nothing, says of each base locale that
it is up to date, and changes nothing. So the second of two renewals does no more than that, when
what the first one writes is read back and leaves the use of keys as it is. A key or a translation
that is not read back is asked for in every renewal, and a translation that looks a key up is a use
of the key and may have the second renewal ask for more.
-/

namespace Phrasebook.Renew

open Files (textAt)
open Job (Keeps Yields)
open Text (isBlankText)
open Translation (keptEntries missingEntries mem_keptEntries mem_missingEntries)

variable {s : Session} {service : Translation.Service} {valid : KeySet} {data : DataSet}
  {base : Text} {w w' : World}

/-- A step of a renewal of a base locale that is not due says so, and does nothing else. -/
theorem base_of_not_due (hknown : ∃ language, Locale.language? base = some language)
    (hdue : isDue data valid base = false) (w : World) :
    ∃ data' : DataSet, ∃ records : List Record,
      Job.outcome (Renew.base s service valid data base) w = (.ok data',
        w.showing (records.map .recorded ++ [.printed (base ++ ": up to date".toList)])) ∧
      data'.texts = data.texts ∧ ∀ other, Text.fold other ≠ Text.fold base →
        data'.machine.get? other = data.machine.get? other := by
  obtain ⟨language, hlanguage⟩ := hknown
  obtain ⟨hnone, -⟩ := Translation.update_spec hlanguage (translate service) data (some valid)
    Locale.source
  have hmissing : missingEntries data base (some valid) Locale.source = [] := by
    simpa using (Bool.or_eq_false_iff.1 hdue).2
  obtain ⟨u, hupdated, hyields⟩ := hnone hmissing
  obtain ⟨records, hyields⟩ := hyields w
  obtain ⟨hchanged, -⟩ :=
    @isRenewed_of_isUpdated data valid base ∅ u [] hupdated (by simp) (by simp [hmissing])
  refine ⟨u.dataSet, records, ?_, hupdated.texts, hupdated.others⟩
  rw [base_eq, Job.outcome_bind, hyields]
  simp only [finish, hchanged.trans hdue, Bool.false_eq_true, if_false]
  rw [Job.print, Job.outcome_bind, Job.outcome_emit, World.showing, ← List.append_assoc]
  rfl

/-- A renewal of base locales none of which is due says so of each of them, and does nothing
else. -/
theorem foldlM_of_not_due {bases : List Text} (hdistinct : (bases.map Text.fold).Nodup)
    (hknown : ∀ base ∈ bases, ∃ language, Locale.language? base = some language)
    (hdue : ∀ base ∈ bases, isDue data valid base = false) (w : World) :
    ∃ data' : DataSet, ∃ events : List Event,
      Job.outcome (bases.foldlM (Renew.base s service valid) data) w =
        (.ok data', w.showing events) ∧ events.filterMap Event.request? = [] ∧
      events.filterMap Event.print? = bases.map (· ++ ": up to date".toList) := by
  induction bases generalizing data w with
  | nil => exact ⟨data, [], by simp, rfl, rfl⟩
  | cons base bases ih =>
    obtain ⟨hnew, hothers⟩ := List.nodup_cons.1 hdistinct
    obtain ⟨data₁, records, hfirst, htexts, hmachine⟩ :=
      @base_of_not_due s service valid data base (hknown base (by simp)) (hdue base (by simp)) w
    have hdue₁ : ∀ b ∈ bases, isDue data₁ valid b = false := fun b hb =>
      (isDue_congr htexts (hmachine b fun hsame => hnew (hsame ▸ List.mem_map_of_mem hb))).trans
        (hdue b (by simp [hb]))
    obtain ⟨data', events, hrest, hasked, hshown⟩ := ih hothers
      (fun b hb => hknown b (by simp [hb])) hdue₁
      (w.showing (records.map .recorded ++ [.printed (base ++ ": up to date".toList)]))
    refine ⟨data', (records.map .recorded ++ [.printed (base ++ ": up to date".toList)]) ++ events,
      ?_, ?_, ?_⟩
    · rw [World.showing_showing] at hrest
      rw [List.foldlM_cons, Job.outcome_bind, hfirst]
      exact hrest
    · rw [List.filterMap_append, List.filterMap_append, filterMap_request?_recorded, hasked]
      rfl
    · rw [List.filterMap_append, List.filterMap_append, filterMap_print?_recorded, hshown]
      rfl

/-- The base locales that a renewal goes through. -/
def basesOf (chosen : Option Text) : List Text :=
  (chosen.map ([·])).getD Locale.machineBases

/-- A renewal goes through each base locale once. -/
theorem nodup_basesOf (chosen : Option Text) : ((basesOf chosen).map Text.fold).Nodup := by
  cases chosen with
  | none =>
    have hall : (Locale.machineBases.map Text.fold).Nodup := by decide +kernel
    exact hall
  | some base => exact List.nodup_singleton _

variable {summary : Glue.Summary} {environmentKey chosen : Option Text}

/-- What a renewal does with the valid keys and the loaded data set. -/
def renewAll (s : Session) (environmentKey chosen : Option Text) (valid : KeySet)
    (data : DataSet) : Job Bool := do
  if data.texts.contains Locale.source then
    discard <| (basesOf chosen).foldlM (Renew.base s (s.service environmentKey) valid) data
    return true
  else
    Job.record .error ("No ".toList ++ Locale.source ++ " locale file in ".toList ++ s.directory)
    return false

/-- A renewal scans, loads and renews. -/
theorem run_eq (s : Session) (environmentKey chosen : Option Text) :
    Renew.run s environmentKey chosen = (s.scan >>= fun summary => s.load >>= fun data =>
      renewAll s environmentKey chosen summary.keys data) := rfl

/-- A renewal in which no base locale is due says so of each of them, and does nothing else. -/
theorem run_of_not_due (hscan : Yields w.disk s.scan summary) (hload : Yields w.disk s.load data)
    (hsource : data.texts.contains Locale.source = true)
    (hknown : ∀ base ∈ basesOf chosen, ∃ language, Locale.language? base = some language)
    (hdue : ∀ base ∈ basesOf chosen, isDue data summary.keys base = false) :
    ∃ events : List Event,
      Job.outcome (Renew.run s environmentKey chosen) w = (.ok true, w.showing events) ∧
      events.filterMap Event.request? = [] ∧
      events.filterMap Event.print? = (basesOf chosen).map (· ++ ": up to date".toList) := by
  obtain ⟨first, hfirst⟩ := hscan w rfl
  obtain ⟨second, hsecond⟩ := hload (w.noted first) rfl
  obtain ⟨data', events, hrest, hasked, hshown⟩ := @foldlM_of_not_due s
    (s.service environmentKey) summary.keys data _ (nodup_basesOf chosen) hknown hdue
    ((w.noted first).noted second)
  refine ⟨(first ++ second).map .recorded ++ events, ?_, ?_, ?_⟩
  · rw [run_eq, Job.outcome_bind, hfirst]
    change Job.outcome (s.load >>= _) (w.noted first) = _
    rw [Job.outcome_bind, hsecond]
    change Job.outcome (renewAll s environmentKey chosen summary.keys data)
      ((w.noted first).noted second) = _
    rw [renewAll, if_pos hsource, Job.outcome_bind, Job.outcome_discard, hrest]
    simp [World.noted, Except.map]
  · rw [List.filterMap_append, filterMap_request?_recorded, hasked, List.nil_append]
  · rw [List.filterMap_append, filterMap_print?_recorded, hshown, List.nil_append]

/-- A renewal that ends with success has found a source locale, and has renewed the base locales that
are due when all its requests were answered. -/
theorem of_run (htree : w.disk.IsTree)
    (hrun : Job.outcome (Renew.run s environmentKey chosen) w = (.ok true, w'))
    (hanswered : w.IsAnswered w') (hscan : (Job.outcome s.scan w).1 = .ok summary) :
    w.disk.isDirectory (.ofText s.directory) = true ∧
      (s.dataOf w.disk).texts.contains Locale.source = true ∧
      ∃ written, HasRenewed s (s.dataOf w.disk) summary.keys (basesOf chosen) written w w' := by
  rw [run_eq] at hrun
  obtain ⟨summary', w₁, hscanned, hrun⟩ := Job.exists_of_outcome_bind hrun
  obtain ⟨data, w₂, hloaded, hrun⟩ := Job.exists_of_outcome_bind hrun
  obtain rfl : summary' = summary := Except.ok.inj ((congrArg Prod.fst hscanned).symm.trans hscan)
  obtain ⟨haddon, ⟨paths, hfiles⟩, -, hlegible, hdisk₁⟩ := Session.of_scan_outcome htree hscanned
  obtain ⟨_, hyields, -⟩ := Session.scan_yields htree hlegible haddon hfiles
  obtain ⟨hdirectory, rfl, hdisk₂⟩ := Session.eq_dataOf_of_outcome (hdisk₁ ▸ htree) hloaded
  have hfirst : w.LeadsTo w₁ := hyields.leadsTo hscanned
  have hsecond : w₁.LeadsTo w₂ :=
    (Session.load_yields (hdisk₁ ▸ htree) hdirectory).leadsTo hloaded
  rw [hdisk₁] at hdirectory hdisk₂ hrun
  unfold renewAll at hrun
  split at hrun
  · rename_i hsource
    obtain ⟨_, w₃, hrenewed, hdone⟩ := Job.exists_of_outcome_bind hrun
    obtain ⟨-, rfl⟩ := Prod.mk.inj hdone
    obtain ⟨data', hrenewed⟩ := Job.exists_of_outcome_discard hrenewed
    have hlater : w₂.LeadsTo w₃ :=
      (Keeps.foldlM (fun d b _ => base_keeps w₂ s _ _ d b) _).leadsTo hrenewed
    obtain ⟨-, hanswered₁⟩ := (hfirst.trans hsecond).isAnswered hlater hanswered
    obtain ⟨written, hwritten⟩ :=
      foldlM_of_answered (show (0 : Int) ≤ 3 ∧ (3 : Int) ≤ 1024 by decide) (nodup_basesOf chosen)
        hrenewed hanswered₁
    have hstart : HasRenewed s (s.dataOf w.disk) summary'.keys [] [] w w₂ :=
      ⟨hfirst.trans hsecond, by simp, rfl, hdisk₂ ▸ .start, by simp⟩
    exact ⟨hdirectory, hsource, written, hstart.append hwritten rfl fun _ _ => rfl⟩
  · obtain ⟨_, w₃, -, hdone⟩ := Job.exists_of_outcome_bind hrun
    exact absurd (Except.ok.inj (Prod.mk.inj hdone).1) Bool.false_ne_true

/-- Renewing machine translations converges: when a renewal of a tree of text files succeeds, all its
requests are answered, what it writes is read back, and it leaves the use of keys as it is, the next
one of the same base locales asks the service for nothing, says of each base locale that it is up to
date, succeeds and changes nothing. What is stated is the command itself, without the log file that
may be opened around it. -/
theorem updateMachine_converges (settings : Settings) (environmentKey environmentKey' : Option Text)
    (addon : Path) (chosen : Option Text) {w w' : World} {summary : Glue.Summary} {data : DataSet}
    (htable : Readers.name (.text settings.scan.table) = .ok settings.scan.table)
    (htree : w.disk.IsTree)
    (hrun : Job.outcome (Command.settle (Command.perform settings environmentKey
      (.updateMachine addon chosen))) w = (.ok 0, w'))
    (hanswered : w.IsAnswered w')
    (hscan : (Job.outcome (Session.scan ⟨addon, settings⟩) w).1 = .ok summary)
    (hload : (Job.outcome (Session.load ⟨addon, settings⟩) w).1 = .ok data)
    (hread : IsReadBack ⟨addon, settings⟩ data summary.keys (basesOf chosen) w w')
    (huses : LeavesUses ⟨addon, settings⟩ data summary.keys (basesOf chosen) w w') :
    ∃ events : List Event,
      Job.outcome (Command.settle (Command.perform settings environmentKey'
        (.updateMachine addon chosen))) w' = (.ok 0, { w' with trace := w'.trace ++ events }) ∧
      events.filterMap Event.request? = [] ∧
      events.filterMap Event.print? = (basesOf chosen).map (· ++ ": up to date".toList) := by
  obtain ⟨-, rfl, -⟩ := Session.eq_dataOf_of_outcome htree (Prod.ext hload rfl)
  obtain ⟨haddon, ⟨paths, hfiles⟩, hkeys, hlegible, -⟩ :=
    Session.of_scan_outcome htree (Prod.ext hscan rfl)
  obtain ⟨hdirectory, hsource, written, hwritten⟩ :=
    of_run htree (Clean.outcome_of_settle hrun) hanswered hscan
  obtain ⟨summary', hscan', hkeys'⟩ := hwritten.exists_scan htree hlegible haddon hfiles
  have hload' := Session.load_yields (hwritten.isTree htree)
    (hwritten.disk.isDirectory.trans hdirectory)
  have hsource' :
      (Session.dataOf ⟨addon, settings⟩ w'.disk).texts.contains Locale.source = true := by
    rwa [Lexicon.contains_eq_isSome, get?_texts_of_written hwritten.mem_machineBases hwritten.disk
      htree Locale.canonical?_source, ← Lexicon.contains_eq_isSome]
  have hnone := hwritten.isDue_eq_false htable hread (nodup_basesOf chosen).of_map htree
    ⟨paths, hfiles⟩ (fun key huse => (hkeys key).2 huse) huses hkeys'
  obtain ⟨events, hagain, hasked, hshown⟩ :=
    run_of_not_due hscan' hload' hsource' hwritten.known hnone
  exact ⟨events, Clean.outcome_settle_of_done hagain, hasked, hshown⟩

/-- An answer with translations. -/
def answerWith (texts : List Text) : Translation.Reply :=
  .answer 200 (some (.record [("data", .record [("translations",
    .list (texts.map fun t => .record [("translatedText", .text t)]))])]))

/-- An addon with a source locale, and a service that answers one request. -/
def addonAnswered (lines texts : List Text) : World :=
  { Clean.addonTree [(["Localization".toList, "enUS.lua".toList], Text.joinLines lines ['\n'])]
    with replies := [fun _ => answerWith texts] }

/-- All requests were answered when there was one, and the answer has texts that are not blank. -/
theorem isAnswered_of_outcomes {texts : List Text}
    (h : (w.exchanges w').map (fun e => e.2) = [.translated texts])
    (hblank : ∀ t ∈ texts, isBlankText t = false) : w.IsAnswered w' := by
  intro e he
  have houtcome := List.mem_map_of_mem (f := fun e => e.2) he
  rw [h, List.mem_singleton] at houtcome
  exact ⟨texts, houtcome, hblank⟩

/-- A key that has no machine translation gets one. The next renewal has nothing to do: the key is
looked up in the source locale, the blank text needs none, and the translation is read back with its
quotes. -/
theorem updateMachine_converges_german :
    let s : Session := ⟨.ofText "A".toList, {}⟩
    let w := addonAnswered ["L[\"Name\"] = \"name\"".toList, "L[\"None\"] = \" \"".toList,
      "L[\"Sum\"] = L[\"name\"] .. \"!\"".toList] ["\"Name\"\n".toList]
    let update := Command.settle (Command.perform s.settings (some "key".toList)
      (.updateMachine s.addon (some "de".toList)))
    let run := Job.outcome update w
    run.1 = .ok 0 ∧ w.IsAnswered run.2 ∧
      w.translations run.2 "de".toList = [("name".toList, "\"Name\"\n".toList)] ∧
      ∃ events : List Event,
        Job.outcome update run.2 = (.ok 0, { run.2 with trace := run.2.trace ++ events }) ∧
        events.filterMap Event.request? = [] ∧
        events.filterMap Event.print? = ["de: up to date".toList] := by
  intro s w update run
  obtain ⟨hcode, houtcomes, htranslations⟩ : run.1 = .ok 0 ∧
      (w.exchanges run.2).map (fun e => e.2) = [.translated ["\"Name\"\n".toList]] ∧
      w.translations run.2 "de".toList = [("name".toList, "\"Name\"\n".toList)] := by
    decide +kernel
  have hrun : run = (.ok 0, run.2) := Job.outcome_eq_of_result hcode
  have htree : w.disk.IsTree := Clean.isTree_addonTree (by decide +kernel)
  have hanswered : w.IsAnswered run.2 := isAnswered_of_outcomes houtcomes (by decide +kernel)
  obtain ⟨_, hload⟩ := s.load_yields htree (by decide +kernel) w rfl
  have hloaded : (Job.outcome s.load w).1 = .ok (s.dataOf w.disk) := congrArg Prod.fst hload
  obtain ⟨hfound, hentries, hkept, hmissing⟩ :
      (Job.outcome s.scan w).1.toOption.map (fun summary => summary.keys.keys) =
        some ["name".toList] ∧
      (((s.dataOf w.disk).texts.get? Locale.source).map (·.entries)).getD [] =
        [("Name".toList, "name".toList), ("None".toList, " ".toList)] ∧
      keptEntries (s.dataOf w.disk) "de".toList (some (.ofList ["name".toList])) = [] ∧
      missingEntries (s.dataOf w.disk) "de".toList (some (.ofList ["name".toList])) Locale.source =
        [("Name".toList, "name".toList)] := by
    decide +kernel
  obtain ⟨summary, hscan, hnames⟩ := Clean.exists_of_toOption_map hfound
  have hkeys : summary.keys = .ofList ["name".toList] := KeySet.ext_keys hnames
  rw [← hkeys] at hkept hmissing
  have hlanguage : Locale.language? "de".toList = some "de".toList := by decide +kernel
  have hread : IsReadBack s (s.dataOf w.disk) summary.keys (basesOf (some "de".toList)) w
      run.2 := by
    constructor
    case header => exact fun _ => by decide +kernel
    all_goals
      intro base hbase
      obtain rfl := List.mem_singleton.1 hbase
    case filled => exact fun _ e he => absurd (hkept ▸ he) List.not_mem_nil
    case kept => exact fun _ e he => absurd (hkept ▸ he) List.not_mem_nil
    case received =>
      intro language hlang e he t ht
      obtain rfl := Option.some.inj (hlanguage.symm.trans hlang)
      rw [hmissing, List.mem_singleton] at he
      rw [htranslations, List.mem_singleton, Prod.mk.injEq] at ht
      rw [he, ht.2]
      exact Locale.readsBack_of_isKey _ (by decide) (by decide +kernel)
  have hname : ∀ {key}, Text.fold key = Text.fold "name".toList →
      StaysUsed s (s.dataOf w.disk) summary.keys (basesOf (some "de".toList)) w.disk key := by
    intro key hkey
    obtain ⟨path, hpath, hother, line, hline, r, hr, hsame⟩ :
        ∃ path ∈ w.disk.sourceFiles s.directory, path ≠ s.machinePath "de".toList ∧
          ∃ line ∈ Text.lines (textAt w.disk path),
            ∃ r ∈ Glue.valueReferences s.scanner.patterns line, r.key = "name".toList := by
      decide +kernel
    exact .value hpath (fun base hbase _ => List.mem_singleton.1 hbase ▸ hother) hline hr
      (hsame ▸ hkey.symm)
  have hcontains : ∀ {key}, Text.fold key = Text.fold "name".toList →
      summary.keys.contains key = true := by
    intro key hkey
    rw [KeySet.contains_congr _ hkey, hkeys]
    decide +kernel
  have huses : LeavesUses s (s.dataOf w.disk) summary.keys (basesOf (some "de".toList)) w
      run.2 := by
    refine ⟨Session.scansNoBackup_of_sourcePattern rfl, fun base hbase e he _ => ?_,
      fun key text htext hblank _ => hname ?_, fun base hbase _ line hline r hr text _ _ =>
        hcontains ?_⟩
    · obtain rfl := List.mem_singleton.1 hbase
      exact absurd (hkept ▸ he) List.not_mem_nil
    · obtain ⟨k, hk, hsame⟩ := DataSet.text?_eq_some_iff.1 htext
      rw [hentries] at hk
      rcases List.mem_pair.1 hk with hfirst | hsecond
      · obtain ⟨rfl, -⟩ := Prod.mk.inj hfirst
        exact hsame.symm.trans (by decide +kernel)
      · obtain ⟨-, rfl⟩ := Prod.mk.inj hsecond
        exact absurd hblank (by decide)
    · obtain rfl := List.mem_singleton.1 hbase
      cases hline with
      | header hline =>
        have hnone : ∀ line ∈ s.style.frame ((Locale.codesOf "de".toList).filter fun code =>
            !Locale.isEnglish code), Glue.references s.scanner.patterns line = [] := by
          decide +kernel
        exact absurd (hnone line hline ▸ hr) List.not_mem_nil
      | kept he => exact absurd (hkept ▸ he) List.not_mem_nil
      | @received e language t hlang he ht hwritten =>
        obtain rfl := Option.some.inj (hlanguage.symm.trans hlang)
        rw [hmissing, List.mem_singleton] at he
        rw [htranslations, List.mem_singleton, Prod.mk.injEq] at ht
        rw [hwritten, he, ht.2] at hr
        have honly : ∀ r ∈ Glue.references s.scanner.patterns (s.style.line Locale.guardIndent
            "Name".toList "\"Name\"\n".toList), Text.fold r.key = Text.fold "name".toList := by
          decide +kernel
        exact honly r hr
  refine ⟨hcode, hanswered, htranslations, ?_⟩
  exact updateMachine_converges s.settings (some "key".toList) (some "key".toList) s.addon
    (some "de".toList) (by decide +kernel) htree hrun hanswered hscan hloaded hread huses

end Phrasebook.Renew
