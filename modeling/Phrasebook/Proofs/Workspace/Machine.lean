import Phrasebook.Proofs.Locale.Fresh
import Phrasebook.Proofs.Workspace.Reading
import Phrasebook.Proofs.Workspace.Save

/-!
# Machine translations on a disk

The machine translations of a base locale that have been written are loaded again: those that are
not blank, in key order. They are loaded for no locale. Loading ends with a fault when another file
of machine translations of the directory is no text file.
-/

namespace Phrasebook

open Files (HasText)
open Job (Triple)

/-- The path of the file of the machine translations of a base locale. -/
def Save.machinePath (directory base : Text) : Text :=
  Files.inDirectory directory (Locale.machineFile base)

open Save (machinePath)

namespace Scanner

variable {s : Scanner} {directory base : Text} {w : World} {endings : List Text}

/-- Loading machine translations ends with a result only if all of their files have texts. -/
theorem exists_hasText_of_loadMachineFiles {start : DataSet} {loaded : DataSet × Nat}
    (h : (Job.outcome (s.loadMachineFiles directory start) w).1 = .ok loaded) :
    ∀ base ∈ Locale.machineBases, w.disk.isFile (.ofText (machinePath directory base)) = true →
      ∃ t, HasText w.disk (machinePath directory base) t := by
  have hread : Triple (fun d => d = w.disk) (s.loadMachineFiles directory start)
      (fun _ d => d = w.disk ∧ ∀ base ∈ Locale.machineBases,
        d.isFile (.ofText (machinePath directory base)) = true →
          ∃ t, HasText d (machinePath directory base) t) fun _ => True := by
    refine Triple.bind (Files.requireDirectory_triple _ _ fun _ _ => trivial).forget fun _ => ?_
    refine Triple.weaken (Triple.foldlM_prefix (S := fun done _ d => d = w.disk ∧
      ∀ base ∈ done, d.isFile (.ofText (machinePath directory base)) = true →
        ∃ t, HasText d (machinePath directory base) t) fun before base after hsplit loaded => ?_)
        (fun d hd => ⟨hd, by simp⟩) (fun _ _ hd => hd) fun _ hd => hd
    refine Triple.bind (Files.isFile_triple _) fun b => ?_
    cases b with
    | true =>
      refine Triple.bind (s.entries_triple _ fun _ _ => trivial) fun e => Triple.pure ?_
      rintro d ⟨⟨⟨hd, hbefore⟩, -⟩, t, htext, -⟩
      refine ⟨hd, fun other hother hfile => ?_⟩
      rcases List.mem_append.1 hother with hother | hother
      · exact hbefore other hother hfile
      · exact List.mem_singleton.1 hother ▸ ⟨t, htext⟩
    | false =>
      refine Triple.bind Triple.record fun _ => Triple.pure ?_
      rintro d ⟨⟨hd, hbefore⟩, hnone⟩
      refine ⟨hd, fun other hother hfile => ?_⟩
      rcases List.mem_append.1 hother with hother | hother
      · exact hbefore other hother hfile
      · obtain rfl := List.mem_singleton.1 hother
        exact Bool.noConfusion (hnone.symm.trans hfile)
  obtain ⟨hdisk, hall⟩ := hread.result rfl (Job.outcome_eq_of_result h)
  rwa [hdisk] at hall

/-- Machine translations that are loaded from a file are those of its text. -/
theorem get?_machine_of_loadMachineFiles {start : DataSet} {loaded : DataSet × Nat} {t : Text}
    (h : (Job.outcome (s.loadMachineFiles directory start) w).1 = .ok loaded)
    (hdirectory : w.disk.isDirectory (.ofText directory) = true)
    (hbase : base ∈ Locale.machineBases) (htext : HasText w.disk (machinePath directory base) t) :
    loaded.1.machine.get? base = some (s.entriesOf t).texts := by
  have hyields := s.loadMachineFiles_yields_of_hasText start hdirectory
    (exists_hasText_of_loadMachineFiles h)
  obtain ⟨rfl, -⟩ := hyields.result rfl (Job.outcome_eq_of_result h)
  have hfile : w.disk.isFile (.ofText (machinePath directory base)) = true := by
    obtain ⟨content, -, hread, -⟩ := htext
    exact Disk.isFile_iff.2 ⟨content, hread⟩
  rw [get?_foldl_withMachineFile hbase _ (List.Subset.refl _), if_pos ⟨hbase, hfile⟩]
  exact congrArg (fun t => some (s.entriesOf t).texts) htext.textAt_eq

/-- The data set of a directory is that of its source files. -/
theorem eq_foldl_of_loadDirectory {data : DataSet}
    (h : (Job.outcome (s.loadDirectory directory endings) w).1 = .ok data) :
    data = (w.disk.sourceFiles directory).foldl (s.withFile endings w.disk) .empty := by
  have hread : Triple (fun d => d = w.disk) (s.loadDirectory directory endings)
      (fun data _ => data = (w.disk.sourceFiles directory).foldl (s.withFile endings w.disk) .empty)
        fun _ => True := by
    refine Triple.bind (Files.requireDirectory_triple _ _ fun _ _ => trivial).forget fun _ => ?_
    refine Triple.bind (Files.find_triple _ _ _ fun _ _ => trivial) fun paths => ?_
    refine Triple.of_disk fun d hd => ?_
    obtain ⟨rfl, hfiles⟩ := hd
    obtain rfl := Except.ok.inj ((w.disk.files_sourcePattern directory).symm.trans hfiles)
    refine Triple.bind (R := fun data d => d = w.disk ∧
      data = (w.disk.sourceFiles directory).foldl (s.withFile endings w.disk) .empty) ?_
        fun data => Triple.bind Triple.record fun _ => Triple.pure ?_
    · refine Triple.weaken (Triple.foldlM_prefix (S := fun done data d => d = w.disk ∧
        data = done.foldl (s.withFile endings w.disk) .empty)
          fun before path after hsplit data => ?_) (fun d hd => ⟨hd, rfl⟩) (fun _ _ hd => hd)
            fun _ hd => hd
      refine (s.loadFile_triple endings data path fun _ _ => trivial).weaken (fun _ hd => hd) ?_
        fun _ hd => hd
      rintro data' d' ⟨⟨rfl, rfl⟩, hstep⟩
      refine ⟨rfl, ?_⟩
      rw [List.foldl_append, List.foldl_cons, List.foldl_nil, withFile]
      cases hlocale : locale? endings path with
      | none =>
        rw [hlocale] at hstep
        exact hstep
      | some code =>
        rw [hlocale] at hstep
        obtain ⟨t, htext, rfl⟩ := hstep
        simp only [htext.textAt_eq]
    · exact fun _ hd => hd.2
  exact hread.result rfl (Job.outcome_eq_of_result h)

/-- Files that are loaded for no locale might as well be left out. -/
theorem foldl_withFile_filter {d : Disk} {path : Text} (hpath : locale? endings path = none)
    (paths : List Text) (data : DataSet) :
    paths.foldl (s.withFile endings d) data =
      (paths.filter (· ≠ path)).foldl (s.withFile endings d) data := by
  induction paths generalizing data with
  | nil => rfl
  | cons first paths ih =>
    rw [List.foldl_cons, ih, List.filter_cons]
    by_cases hfirst : first = path
    · subst hfirst
      simp [withFile, hpath]
    · simp [hfirst]

end Scanner

namespace Save

variable {style : Locale.Style} {directory base path : Text} {texts : Dictionary Text}
  {backup : Bool} {w w' : World}

/-- Machine translations that are saved with a result are the text of their file, in a directory. -/
theorem hasText_of_machine
    (h : Job.outcome (Save.machine style directory base texts backup) w = (.ok path, w')) :
    path = machinePath directory base ∧ w'.disk.isDirectory (.ofText directory) = true ∧
      HasText w'.disk path (Files.dropMark (machineText style base texts)) := by
  have hdirectory : w.disk.isDirectory (.ofText directory) = true := by
    obtain ⟨_, w₁, hrequired, -⟩ := Job.exists_of_outcome_bind h
    have htriple := Files.requireDirectory_triple "Localization directory not found: ".toList
      directory (P := fun d => d = w.disk) (E := fun _ => True) fun _ _ => trivial
    obtain ⟨hsame, hfound⟩ := htriple.result rfl hrequired
    exact hsame ▸ hfound
  have hbackup : Triple (fun d => d.isDirectory (.ofText directory) = true)
      (Backup.create (machinePath directory base))
      (fun _ d => d.isDirectory (.ofText directory) = true) fun _ => True :=
    Backup.create_triple _ (E := fun _ => True)
      (fun hd _ hwrite => (Disk.isDirectory_write hwrite).trans hd) fun _ _ => trivial
  have hwritten : ∀ d d' : Disk, d.isDirectory (.ofText directory) = true →
      d.write (.ofText (machinePath directory base))
        (Text.encode (machineText style base texts)) = .ok d' →
      d'.isDirectory (.ofText directory) = true ∧
        HasText d' (machinePath directory base) (Files.dropMark (machineText style base texts)) :=
    fun d d' hd hwrite => ⟨(Disk.isDirectory_write hwrite).trans hd, _, _, Disk.read_write hwrite,
      Text.decode_encode _, rfl⟩
  have hsaved := machine_rule hbackup hwritten (fun _ _ => trivial) backup
  obtain ⟨rfl, hresult⟩ := hsaved.result hdirectory h
  exact ⟨rfl, hresult⟩

/-- The text of a file of machine translations is read as the translations that are not blank. -/
theorem entries_machineText {s : Scanner} (htable : '\n' ∉ s.patterns.table) (base : Text)
    (hdistinct : (texts.entries.map fun e => Text.fold e.1).Nodup)
    (hkeys : ∀ e ∈ texts.entries, '\n' ∉ e.1 ∧ Glue.IsKey e.1)
    (hvalues : ∀ e ∈ texts.entries, Source.IsPlain e.2) :
    (s.entriesOf (Files.dropMark (machineText
      { Locale.Style.default with table := s.patterns.table } base texts))).texts.entries =
        Locale.writtenEntries texts := by
  have haddon : '\n' ∉ Locale.Style.default.addon ∧ '[' ∉ Locale.Style.default.addon := by decide
  have hexpression : '\n' ∉ Locale.Style.default.expression := by decide
  have hcodes : ∀ code ∈ (Locale.codesOf base).filter fun code => !Locale.isEnglish code,
      '\n' ∉ code ∧ '[' ∉ code := fun code hcode =>
    ⟨Locale.newline_not_mem_of_mem_codesOf (List.mem_filter.1 hcode).1,
      Locale.bracket_not_mem_of_mem_codesOf (List.mem_filter.1 hcode).1⟩
  have hread : ∀ e ∈ texts.entries, '\n' ∉ e.1 ∧ Glue.IsKey e.1 ∧ Source.IsFaithful e.2 :=
    fun e he => ⟨(hkeys e he).1, (hkeys e he).2, (hvalues e he).isFaithful⟩
  exact @Locale.entries_newFile { Locale.Style.default with table := s.patterns.table } _ _ htable
    haddon hexpression hcodes hdistinct hread

/-- Machine translations that are saved with a result are loaded again, those that are not blank, in
key order, and the locales of the directory are those of its other files. Loading machine
translations ends with a result exactly when all other files of machine translations have texts. -/
theorem machine_loads_back {s : Scanner} (htable : '\n' ∉ s.patterns.table)
    (hbase : base ∈ Locale.machineBases)
    (hdistinct : (texts.entries.map fun e => Text.fold e.1).Nodup)
    (hkeys : ∀ e ∈ texts.entries, '\n' ∉ e.1 ∧ Glue.IsKey e.1)
    (hvalues : ∀ e ∈ texts.entries, Source.IsPlain e.2)
    (hsave : Job.outcome (Save.machine { Locale.Style.default with table := s.patterns.table }
      directory base texts backup) w = (.ok path, w')) :
    path = machinePath directory base ∧
    (∀ start,
      ((∃ loaded, (Job.outcome (s.loadMachineFiles directory start) w').1 = .ok loaded) ↔
        ∀ other ∈ Locale.machineBases, other ≠ base →
          w'.disk.isFile (.ofText (machinePath directory other)) = true →
            ∃ t, HasText w'.disk (machinePath directory other) t) ∧
      ∀ loaded, (Job.outcome (s.loadMachineFiles directory start) w').1 = .ok loaded →
        ∃ stored, loaded.1.machine.get? base = some stored ∧
          stored.entries.Perm (texts.entries.filter fun e => !Text.isBlankText e.2) ∧
          stored.keys = sortKeys ((texts.entries.filter fun e => !Text.isBlankText e.2).map (·.1)))
      ∧
    ∀ data, (Job.outcome (s.loadDirectory directory Scanner.machineEndings) w').1 = .ok data →
      data = ((w'.disk.sourceFiles directory).filter (· ≠ path)).foldl
        (s.withFile Scanner.machineEndings w'.disk) .empty := by
  obtain ⟨rfl, hdirectory, htext⟩ := hasText_of_machine hsave
  refine ⟨rfl, fun start => ⟨⟨?_, ?_⟩, ?_⟩, ?_⟩
  · rintro ⟨loaded, hloaded⟩ other hother -
    exact Scanner.exists_hasText_of_loadMachineFiles hloaded other hother
  · intro hothers
    have hyields := s.loadMachineFiles_yields_of_hasText start hdirectory
      fun other hother hfile => by
      by_cases hsame : other = base
      · exact hsame ▸ ⟨_, htext⟩
      · exact hothers other hother hsame hfile
    obtain ⟨records, hrun⟩ := hyields w' rfl
    exact ⟨_, congrArg Prod.fst hrun⟩
  · intro loaded hloaded
    refine ⟨_, Scanner.get?_machine_of_loadMachineFiles hloaded hdirectory hbase htext, ?_, ?_⟩
    · rw [entries_machineText htable base hdistinct hkeys hvalues]
      exact Locale.writtenEntries_perm texts
    · rw [Lexicon.keys, entries_machineText htable base hdistinct hkeys hvalues]
      exact Locale.map_fst_writtenEntries texts
  · intro data hdata
    have hnamed := Path.isNamed_inDirectory directory (Locale.isFileName_machineFile hbase)
    rw [Scanner.eq_foldl_of_loadDirectory hdata]
    exact Scanner.foldl_withFile_filter (Scanner.locale?_machineFile hnamed hbase) _ _

/-- Translations with a line feed and with quotes are loaded again, and a blank one is not. -/
theorem machine_loads_back_of_escaped :
    let s : Scanner := ⟨⟨"L".toList, ["format".toList]⟩, 100⟩
    let base := "zh-TW".toList
    let texts : Dictionary Text := ⟨[("b".toList, "x\ny".toList), ("None".toList, " ".toList),
      ("A \\\"q\\\"".toList, "\"q\"".toList)], by decide⟩
    let w : World := ⟨⟨[(["Loc".toList], .directory)], []⟩, [], [], fun _ => .timeout [], [], []⟩
    let saved := Job.outcome (Save.machine { Locale.Style.default with table := s.patterns.table }
      "Loc".toList base texts true) w
    ('\n' ∉ s.patterns.table ∧ base ∈ Locale.machineBases ∧
      (texts.entries.map fun e => Text.fold e.1).Nodup ∧
      (∀ e ∈ texts.entries, '\n' ∉ e.1 ∧ Glue.IsKey e.1) ∧
      (∀ e ∈ texts.entries, Source.IsPlain e.2) ∧ saved.1 = .ok "Loc/zhTW-GT.lua".toList) ∧
      ∃ loaded, (Job.outcome (s.loadMachineFiles "Loc".toList .empty) saved.2).1 = .ok loaded ∧
        ∃ stored, loaded.1.machine.get? base = some stored ∧
          stored.keys = ["A \\\"q\\\"".toList, "b".toList] := by
  intro s base texts w saved
  have htable : '\n' ∉ s.patterns.table := by decide
  have hbase : base ∈ Locale.machineBases := by decide +kernel
  have hdistinct : (texts.entries.map fun e => Text.fold e.1).Nodup := by decide +kernel
  have hkeys : ∀ e ∈ texts.entries, '\n' ∉ e.1 ∧ Glue.IsKey e.1 := by decide +kernel
  have hvalues : ∀ e ∈ texts.entries, Source.IsPlain e.2 := by decide +kernel
  have hsaved : saved.1 = .ok "Loc/zhTW-GT.lua".toList := by decide +kernel
  have hrun := Job.outcome_eq_of_result hsaved
  obtain ⟨-, hloads, -⟩ := machine_loads_back htable hbase hdistinct hkeys hvalues hrun
  have hothers : ∀ other ∈ Locale.machineBases, other ≠ base →
      saved.2.disk.isFile (.ofText (machinePath "Loc".toList other)) = false := by decide +kernel
  obtain ⟨hiff, hstored⟩ := hloads .empty
  obtain ⟨loaded, hloaded⟩ := hiff.2 fun other hother hne hfile =>
    absurd ((hothers other hother hne).symm.trans hfile) Bool.false_ne_true
  obtain ⟨stored, hget, -, hsorted⟩ := hstored loaded hloaded
  refine ⟨⟨htable, hbase, hdistinct, hkeys, hvalues, hsaved⟩, loaded, hloaded, stored, hget, ?_⟩
  rw [hsorted]
  exact (eq_sortKeys_of_perm (by decide +kernel) (by decide +kernel)).symm

/-- Beside a file of machine translations whose bytes are no text, none are loaded. -/
theorem machine_not_loaded_beside_bytes :
    let s : Scanner := ⟨⟨"L".toList, ["format".toList]⟩, 100⟩
    let base := "fr".toList
    let texts : Dictionary Text := ⟨[("A".toList, "a".toList)], by decide⟩
    let w : World := ⟨⟨[(["Loc".toList], .directory),
      (["Loc".toList, "de-GT.lua".toList], .file ⟨#[0xff]⟩)], []⟩, [], [], fun _ => .timeout [], [],
        []⟩
    let saved := Job.outcome (Save.machine { Locale.Style.default with table := s.patterns.table }
      "Loc".toList base texts true) w
    ('\n' ∉ s.patterns.table ∧ base ∈ Locale.machineBases ∧
      (texts.entries.map fun e => Text.fold e.1).Nodup ∧
      (∀ e ∈ texts.entries, '\n' ∉ e.1 ∧ Glue.IsKey e.1) ∧
      (∀ e ∈ texts.entries, Source.IsPlain e.2) ∧ saved.1 = .ok "Loc/fr-GT.lua".toList) ∧
      ∀ loaded, (Job.outcome (s.loadMachineFiles "Loc".toList .empty) saved.2).1 ≠ .ok loaded := by
  intro s base texts w saved
  refine ⟨by decide +kernel, fun loaded hloaded => ?_⟩
  have hnone : (Job.outcome (s.loadMachineFiles "Loc".toList .empty) saved.2).1.toOption.isNone =
      true := by decide +kernel
  rw [hloaded] at hnone
  exact Bool.false_ne_true hnone

end Save

end Phrasebook
