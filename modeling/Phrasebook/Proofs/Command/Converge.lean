import Phrasebook.Proofs.Command.Orphans
import Phrasebook.Proofs.Command.Scan
import Phrasebook.Proofs.Glue.Reference

/-!
# Cleaning twice

A clean-up that reaches the orphans leaves valid keys only. The next one finds none of them orphaned
as far as they stay used: what a scan finds is used in a source file or in a line that the first one
leaves, and not only in a line that goes with an orphan.
-/

namespace Phrasebook.Clean

open Files (textAt textAt_congr)
open Job (Yields)
open Save (IsNoBackup localePath mergedText)

variable {s : Session} {d d' : Disk} {valid : KeySet} {key : Text}

/-- A key is used after a clean-up as well: a scanned source file that is no backup looks it up, or
the value of an assignment does in what the clean-up leaves in the localization directory. -/
inductive StaysUsed (s : Session) (d : Disk) (valid : KeySet) (key : Text) : Prop where
  /-- A line of a scanned source file looks the key up. -/
  | source {paths : List Text} {path line : Text} {place : Location} {r : Glue.Reference}
      (hfiles : d.files s.addon.text s.settings.scan.pattern true = .ok paths)
      (hpath : path ∈ paths)
      (hscanned : Path.isExcluded path s.addon.text s.settings.scan.excluded = false)
      (hplace : d.locate (.ofText path) = .ok place) (hkept : IsNoBackup place)
      (hline : line ∈ Text.lines (textAt d path))
      (hr : r ∈ Glue.references s.scanner.patterns line) (hkey : Text.fold r.key = Text.fold key)
  /-- The value of an assignment looks the key up. -/
  | value {path line : Text} {r : Glue.Reference} (hpath : path ∈ d.sourceFiles s.directory)
      (hline : line ∈ Text.lines (textAfter s d valid path))
      (hr : r ∈ Glue.valueReferences s.scanner.patterns line)
      (hkey : Text.fold r.key = Text.fold key)

/-- A scanned source file assigns used keys only. -/
theorem uses_of_assignment
    (htable : Readers.name (.text s.settings.scan.table) = .ok s.settings.scan.table)
    {paths : List Text} {path : Text}
    (hfiles : d.files s.addon.text s.settings.scan.pattern true = .ok paths) (hpath : path ∈ paths)
    (hscanned : Path.isExcluded path s.addon.text s.settings.scan.excluded = false)
    {a : Glue.Assignment}
    (ha : a ∈ Locale.assignments s.settings.scan.table (Text.lines (textAt d path))) :
    s.Uses d a.key := by
  have hname := Locale.isName_of_assignments htable (List.ne_nil_of_mem ha)
  obtain ⟨line, hline, hread⟩ := List.mem_filterMap.1 ha
  obtain ⟨r, hr, hkey⟩ : ∃ r ∈ Glue.references s.scanner.patterns line, r.key = a.key :=
    Glue.exists_reference_of_assignedKey? (Locale.not_isBlank_head_of_isName hname)
      (Glue.assignedKey?_of_assignment? hread)
  exact .source hfiles hpath hscanned hline hr (by rw [hkey])

/-- A scanned source file that is no backup has the text that it had: it has no orphans, since a
scan finds every key that it assigns. -/
theorem textAt_of_scanned
    (htable : Readers.name (.text s.settings.scan.table) = .ok s.settings.scan.table)
    (htree : d.IsTree) (hreach : Reaches s d valid)
    (hvalid : ∀ key, s.Uses d key → valid.contains key = true)
    (h : Written d (cleanedTexts s d valid) d') {paths : List Text} {path : Text} {place : Location}
    (hfiles : d.files s.addon.text s.settings.scan.pattern true = .ok paths) (hpath : path ∈ paths)
    (hscanned : Path.isExcluded path s.addon.text s.settings.scan.excluded = false)
    (hplace : d.locate (.ofText path) = .ok place) (hkept : IsNoBackup place) :
    textAt d' path = textAt d path := by
  rcases h.read hkept hplace with ⟨w, hw, hlocate, -⟩ | ⟨-, hsame⟩
  · obtain ⟨-, a, ha, hinvalid⟩ := assigned_of_mem_cleanedTexts htree hreach hw
    have hread : d.read (.ofText w.1) = d.read (.ofText path) := by
      simp only [Disk.read, hlocate, hplace]
    rw [textAt_congr hread] at ha
    rw [hvalid a.key (uses_of_assignment htable hfiles hpath hscanned ha)] at hinvalid
    exact Bool.noConfusion hinvalid
  · exact textAt_congr hsame

/-- A key that the value of a computed assignment looks up stays used, but for the files of machine
translations: a merge copies the line. -/
theorem StaysUsed.of_computed (hreach : Reaches s d valid) {path line : Text} {r : Glue.Reference}
    (hpath : path ∈ d.sourceFiles s.directory)
    (hmachine : ∀ base ∈ orphanBases (s.dataOf d) valid, path ≠ s.machinePath base)
    (hline : line ∈ Text.lines (textAt d path))
    (hcomputed : Glue.assignment? s.settings.scan.table line = none)
    (hr : r ∈ Glue.valueReferences s.scanner.patterns line)
    (hkey : Text.fold r.key = Text.fold key) : StaysUsed s d valid key := by
  rcases textAfter_cases s d valid path with ⟨t, hmem, htext⟩ | ⟨-, htext⟩
  · rcases exists_of_mem_cleanedTexts hmem with ⟨code, hcode, hw⟩ | ⟨base, hbase, hw⟩
    · obtain ⟨rfl, rfl⟩ := Prod.mk.inj hw
      obtain ⟨htexts, horphans⟩ := texts_of_mem_orphanCodes hreach hcode
      obtain ⟨a, ha, -⟩ := exists_assignment_of_orphanKeys horphans
      obtain ⟨r', hr', hsame⟩ := (Glue.exists_valueReference_readBack
        (Text.newlineOf (textAt d (localePath s.directory code)))).2 ⟨r, hr, rfl⟩
      have hlines : Text.lines (mergedText s.style code (cleared
          (s.entriesAt d (localePath s.directory code)).texts valid)
            (textAt d (localePath s.directory code))) = _ :=
        lines_mergedText s.style code valid (List.ne_nil_of_mem ha)
      rw [Files.dropMark_of_head? (hreach.unmarked _ hmem), textsToSave, htexts,
        Option.getD_some] at htext
      refine .value hpath ?_ hr' (hsame ▸ hkey)
      rw [htext, hlines]
      exact List.mem_map_of_mem (Locale.mem_mergeLines_of_computed hline hcomputed)
    · exact absurd (Prod.mk.inj hw).1 (hmachine base hbase)
  · exact .value hpath (htext ▸ hline) hr hkey

/-- A key that stays used is used afterwards. -/
theorem StaysUsed.uses (hused : StaysUsed s d valid key)
    (htable : Readers.name (.text s.settings.scan.table) = .ok s.settings.scan.table)
    (htree : d.IsTree) (hreach : Reaches s d valid)
    (hvalid : ∀ key, s.Uses d key → valid.contains key = true)
    (h : Written d (cleanedTexts s d valid) d') : s.Uses d' key := by
  cases hused with
  | source hfiles hpath hscanned hplace hkept hline hr hkey =>
    have htext := textAt_of_scanned htable htree hreach hvalid h hfiles hpath hscanned hplace hkept
    obtain ⟨paths', hfiles', hmore⟩ := h.exists_files hfiles
    exact .source hfiles' (hmore hpath) hscanned (htext ▸ hline) hr hkey
  | value hpath hline hr hkey =>
    rw [← textAt_of_mem_sourceFiles htree hreach h hpath] at hline
    exact .value (sourceFiles_of_written htree hreach h ▸ hpath) hline hr hkey

/-- A clean-up of a directory without orphans says so, and does nothing else. -/
theorem orphans_without_orphans {data : DataSet} {summary : Glue.Summary}
    (hscan : Yields d s.scan summary) (hload : Yields d s.load data)
    (hvalid : ∀ key, data.IsStored key → summary.keys.contains key = true) (backup : Bool)
    {w : World} (hw : w.disk = d) :
    ∃ records : List Record, Job.outcome (Clean.orphans s backup) w = (.ok ⟨⟩, { w with
      trace := w.trace ++ records.map .recorded ++
        [.printed "No orphaned keys found".toList] }) := by
  obtain ⟨first, hfirst⟩ := hscan w hw
  obtain ⟨second, hsecond⟩ := hload { w with trace := w.trace ++ first.map .recorded } hw
  refine ⟨first ++ second, ?_⟩
  have hnone : (data.orphansByFile summary.keys).entries.isEmpty = true :=
    List.isEmpty_iff.2 (DataSet.orphansByFile_entries_eq_nil hvalid)
  rw [Clean.orphans, Job.outcome_bind, hfirst]
  simp only
  rw [Job.outcome_bind, hsecond]
  simp only [hnone, if_true]
  rw [Job.print, Job.outcome_emit, List.map_append, ← List.append_assoc]

/-- Cleaning orphans converges: when a clean-up of a tree of text files succeeds and reaches the
orphans, and every stored key that is used stays used, the next clean-up finds no orphans, succeeds
and changes nothing. What is stated is the command itself, without the log file that may be opened
around it. -/
theorem cleanOrphans_converges (settings : Settings) (environmentKey : Option Text) (addon : Path)
    (backup backup' : Bool) {w w' : World} {summary : Glue.Summary} {data : DataSet}
    (htable : Readers.name (.text settings.scan.table) = .ok settings.scan.table)
    (htree : w.disk.IsTree)
    (hrun : Job.outcome (Command.settle (Command.perform settings environmentKey
      (.cleanOrphans addon backup))) w = (.ok 0, w'))
    (hscan : (Job.outcome (Session.scan ⟨addon, settings⟩) w).1 = .ok summary)
    (hload : (Job.outcome (Session.load ⟨addon, settings⟩) w).1 = .ok data)
    (hreach : Reaches ⟨addon, settings⟩ w.disk summary.keys)
    (hused : ∀ key, data.IsStored key → summary.keys.contains key = true →
      StaysUsed ⟨addon, settings⟩ w.disk summary.keys key) :
    ∃ records : List Record,
      Job.outcome (Command.settle (Command.perform settings environmentKey
        (.cleanOrphans addon backup'))) w' = (.ok 0, { w' with
          trace := w'.trace ++ records.map .recorded ++
            [.printed "No orphaned keys found".toList] }) := by
  obtain ⟨_, w₁, hcleaned, hdone⟩ := Job.exists_of_outcome_bind (outcome_of_settle hrun)
  obtain rfl : w₁ = w' := (Prod.mk.inj hdone).2
  obtain ⟨haddon, ⟨paths, hfiles⟩, hkeys, hlegible, -⟩ :=
    Session.of_scan_outcome htree (Prod.ext hscan rfl)
  obtain ⟨hdirectory, rfl, -⟩ := Session.eq_dataOf_of_outcome htree (Prod.ext hload rfl)
  have hwritten := written_of_orphans htree hreach.named hcleaned hscan
  have htree' : w₁.disk.IsTree := hwritten.isTree htree fun t ht => by
    obtain ⟨name, -, hnamed⟩ := exists_isNamed_of_mem_cleanedTexts ht
    exact ⟨name, hnamed⟩
  obtain ⟨paths', hfiles', -⟩ := hwritten.exists_files hfiles
  obtain ⟨summary', hscan', hkeys'⟩ :=
    Session.scan_yields htree' (isLegible_of_written htree hreach hwritten hlegible)
      (hwritten.isDirectory.trans haddon) hfiles'
  have hload' := Session.load_yields htree' (hwritten.isDirectory.trans hdirectory)
  have hvalid' : ∀ key, (Session.dataOf ⟨addon, settings⟩ w₁.disk).IsStored key →
      summary'.keys.contains key = true := by
    intro key hstored
    obtain ⟨hvalid, hbefore⟩ := valid_of_isStored htable htree hreach hwritten hstored
    exact (hkeys' key).2 ((hused key hbefore hvalid).uses htable htree hreach
      (fun key huse => (hkeys key).2 huse) hwritten)
  obtain ⟨records, hagain⟩ := orphans_without_orphans hscan' hload' hvalid'
    (settings.files.keepsBackups && backup') rfl
  refine ⟨records, outcome_settle_of_done ?_⟩
  rw [Command.perform, Job.outcome_bind, hagain]
  rfl

/-- A guarded file loses a repeated orphan, and keeps a key that a computed assignment uses. -/
theorem cleanOrphans_converges_guarded :
    let s : Session := ⟨.ofText "A".toList, {}⟩
    let w := addonTree [(["Localization".toList, "deDE.lua".toList],
      Text.joinLines ["if locale then".toList, "L[\"Name\"] = \"a\"".toList,
        "L[\"Gone\"] = \"x\"".toList, "L[\"Sum\"] = L[\"name\"] .. \"!\"".toList,
        "L[\"GONE\"] = \"y\"".toList, "end".toList] ['\n'])]
    let run := Job.outcome (Command.settle (Command.perform s.settings none
      (.cleanOrphans s.addon false))) w
    run.1 = .ok 0 ∧
      (∃ summary, (Job.outcome s.scan w).1 = .ok summary ∧
        orphanCodes (s.dataOf w.disk) summary.keys = ["deDE".toList]) ∧
      ∃ records : List Record, Job.outcome (Command.settle (Command.perform s.settings none
        (.cleanOrphans s.addon false))) run.2 = (.ok 0, { run.2 with
          trace := run.2.trace ++ records.map .recorded ++
            [.printed "No orphaned keys found".toList] }) := by
  intro s w run
  have hcode : run.1 = .ok 0 := by decide +kernel
  have hrun : run = (.ok 0, run.2) := Job.outcome_eq_of_result hcode
  have htree : w.disk.IsTree := isTree_addonTree (by decide +kernel)
  obtain ⟨_, hload⟩ := s.load_yields htree (by decide +kernel) w rfl
  have hloaded : (Job.outcome s.load w).1 = .ok (s.dataOf w.disk) := congrArg Prod.fst hload
  have hfound : (Job.outcome s.scan w).1.toOption.map (fun summary => summary.keys.keys) =
      some ["name".toList] := by
    decide +kernel
  obtain ⟨summary, hscan, hnames⟩ := exists_of_toOption_map hfound
  have hkeys : summary.keys = .ofList ["name".toList] := KeySet.ext_keys hnames
  have hcodes : orphanCodes (s.dataOf w.disk) (.ofList ["name".toList]) = ["deDE".toList] := by
    decide +kernel
  have hbases : orphanBases (s.dataOf w.disk) (.ofList ["name".toList]) = [] := by
    decide +kernel
  have hreach : Reaches s w.disk summary.keys := by
    rw [hkeys]
    constructor
    case unmarked => decide +kernel
    all_goals simp only [hcodes, hbases, List.mem_singleton, forall_eq]
    · decide +kernel
    · decide +kernel
    · simp
    · simp
  refine ⟨hcode, ⟨summary, hscan, hkeys ▸ hcodes⟩, cleanOrphans_converges s.settings none s.addon
    false false (by decide +kernel) htree hrun hscan hloaded hreach fun key _ hvalid => ?_⟩
  obtain ⟨path, hpath, line, hline, hcomputed, r, hr, hname⟩ :
      ∃ path ∈ w.disk.sourceFiles s.directory, ∃ line ∈ Text.lines (textAt w.disk path),
        Glue.assignment? "L".toList line = none ∧
          ∃ r ∈ Glue.valueReferences s.scanner.patterns line, r.key = "name".toList := by
    decide +kernel
  rw [hkeys] at hvalid
  obtain ⟨k, hk, hfold⟩ := KeySet.contains_ofList.1 hvalid
  obtain rfl := List.mem_singleton.1 hk
  refine .of_computed hreach hpath (fun base hbase => ?_) hline hcomputed hr
    (hname ▸ hfold)
  rw [hkeys, hbases] at hbase
  simp at hbase

/-- An orphan behind the guard is out of reach, and is one for the next clean-up as well. -/
example :
    let s : Session := ⟨.ofText "A".toList, {}⟩
    let w := addonWith "deDE.lua".toList (Text.joinLines ["if locale == \"deDE\" then".toList,
      "    -- none yet".toList, "end".toList, "L[\"Gone\"] = \"x\"".toList] ['\n'])
    let run := Job.outcome (Command.settle (Command.perform s.settings none
      (.cleanOrphans s.addon false))) w
    let again := Job.outcome (Command.settle (Command.perform s.settings none
      (.cleanOrphans s.addon false))) run.2
    run.1 = .ok 0 ∧ again.1 = .ok 0 ∧
      .printed "No orphaned keys found".toList ∉ again.2.trace := by
  decide +kernel

end Phrasebook.Clean
