import Phrasebook.Command.Session
import Phrasebook.Proofs.Locale.Legible
import Phrasebook.Proofs.Workspace.Written

/-!
# What a session loads

Scanning an addon and loading its locale files change nothing on the disk. A scan succeeds only when
the specifiers of the source locale's texts can be told. The data set that is loaded has the entries
of the files.
-/

namespace Phrasebook.Session

open Files (HasText)
open Job (Triple)

variable {P : Disk → Prop} {E : Disk → Prop}

/-- The keys that files look up are added without a change. -/
theorem addUsages_triple (s : Session) (hE : ∀ d, P d → E d) (known : Glue.Summary)
    (paths : List Text) : Triple P (s.addUsages known paths) (fun _ => P) E := by
  induction paths generalizing known with
  | nil => exact Triple.pure fun _ hd => hd
  | cons path paths ih => exact Triple.bind (s.scanner.usages_triple path hE) fun _ => ih _

/-- The source locale's texts have legible numbers. -/
def IsLegible (s : Session) (d : Disk) : Prop :=
  ∀ t, HasText d (Files.inDirectory s.directory (Locale.file Locale.source)) t →
    Locale.IsLegible s.settings.scan.table (Text.lines t)

/-- A source locale whose file is not written stays legible. -/
theorem IsLegible.of_unwritten {s : Session} {d d' : Disk} {texts : List (Text × Text)}
    (hlegible : s.IsLegible d) (h : Written d texts d') (hother : ∀ w ∈ texts, ∃ other,
      Path.IsNamed w.1 other ∧ other ≠ Locale.file Locale.source) : s.IsLegible d' := by
  have hnamed := Path.isNamed_inDirectory s.directory
    (Locale.isFileName_file Locale.canonical?_source)
  have hname : ∀ start, Locale.file Locale.source ≠ start ++ Backup.ending :=
    Save.ne_backup Locale.source
  rintro _ ⟨content, t, hread, hdecode, rfl⟩
  have hfile := (h.isFile_iff_of_unwritten hnamed hname hother).1 (Disk.isFile_iff.2 ⟨content, hread⟩)
  rw [h.read_eq hnamed hname hother hfile] at hread
  exact hlegible _ ⟨content, t, hread, hdecode, rfl⟩

/-- The specifiers of the source locale's texts are attached without a change. -/
theorem attach_triple (s : Session) (hE : ∀ d, P d → E d) (summary : Glue.Summary) :
    Triple P (do
      if ← Files.isFile (Files.inDirectory s.directory (Locale.file Locale.source)) then
        let specifiers ← s.scanner.specifiers
          (Files.inDirectory s.directory (Locale.file Locale.source))
        Job.record .debug ("Attached format parameters to ".toList ++
          Text.ofNat (summary.attachable specifiers) ++ " keys".toList)
        return summary.attach specifiers
      else return summary) (fun _ d => P d ∧ s.IsLegible d) E := by
  refine Triple.bind (Files.isFile_triple _) fun b => ?_
  cases b with
  | true =>
    refine Triple.bind (s.scanner.specifiers_triple _ fun d hd => hE d hd.1) fun specifiers =>
      Triple.bind Triple.record fun _ => Triple.pure ?_
    rintro d ⟨⟨hd, -⟩, t, htext, hspecifiers⟩
    refine ⟨hd, fun t' htext' => ?_⟩
    obtain rfl := htext.unique htext'
    exact Locale.specifiersByKey_isOk_iff.1 ⟨specifiers, hspecifiers⟩
  | false =>
    refine Triple.pure ?_
    rintro d ⟨hd, hnone⟩
    refine ⟨hd, fun t htext => ?_⟩
    obtain ⟨content, -, hread, -⟩ := htext
    rw [Disk.isFile_iff.2 ⟨content, hread⟩] at hnone
    exact Bool.noConfusion hnone

/-- A scan changes nothing, and succeeds only when the source locale's texts have legible numbers. -/
theorem scan_triple (s : Session) (hE : ∀ d, P d → E d) :
    Triple P s.scan (fun _ d => P d ∧ s.IsLegible d) E := by
  refine Triple.bind (s.scanner.scanDirectory_triple _ _ _ hE) fun summary => ?_
  dsimp only
  refine Triple.bind (Files.isDirectory_triple _).forget fun b => ?_
  split
  · refine Triple.bind (Files.find_triple _ _ _ hE).forget fun paths => ?_
    exact Triple.bind (s.addUsages_triple hE _ _) fun summary => s.attach_triple hE summary
  · refine Triple.bind (R := fun _ => P) (Triple.pure fun _ hd => hd) fun paths => ?_
    exact Triple.bind (s.addUsages_triple hE _ _) fun summary => s.attach_triple hE summary

/-- A job that starts with a scan goes on with what the scan has found, on the same disk. -/
theorem exists_of_outcome_scan_bind {α : Type} {s : Session} {f : Glue.Summary → Job α} {a : α}
    {w w' : World} {summary : Glue.Summary} (hrun : Job.outcome (s.scan >>= f) w = (.ok a, w'))
    (hscan : (Job.outcome s.scan w).1 = .ok summary) :
    ∃ w₁, w₁.disk = w.disk ∧ Job.outcome (f summary) w₁ = (.ok a, w') := by
  obtain ⟨found, w₁, hfound, hrest⟩ := Job.exists_of_outcome_bind hrun
  obtain rfl : found = summary := by
    rw [hfound] at hscan
    exact Except.ok.inj hscan
  have hkept : Triple (fun d => d = w.disk) s.scan (fun _ d => d = w.disk) fun d => d = w.disk :=
    (s.scan_triple fun _ hd => hd).forget
  exact ⟨w₁, hkept.result rfl hfound, hrest⟩

/-- What the files of an addon are loaded to. -/
structure Loads (s : Session) (d : Disk) (data : DataSet) : Prop where
  /-- The catalog spells the codes of the loaded locales. -/
  codes : ∀ code ∈ data.codes, Locale.canonical? code = some code
  /-- Only base locales of the catalog have machine translations. -/
  bases : ∀ base ∈ data.bases, base ∈ Locale.machineBases
  /-- The last file of a locale has its texts. -/
  last : ∀ before path after code t,
    d.files s.directory sourcePattern false = .ok (before ++ path :: after) →
      Scanner.locale? s.settings.files.otherEndings path = some code →
      (∀ p ∈ after, Scanner.locale? s.settings.files.otherEndings p ≠ some code) →
      HasText d path t → data.texts.get? code = some (s.scanner.entriesOf t).texts
  /-- The file of a base locale has its machine translations. -/
  machine : ∀ base ∈ Locale.machineBases, ∀ t,
    HasText d (Files.inDirectory s.directory (Locale.machineFile base)) t →
      data.machine.get? base = some (s.scanner.entriesOf t).texts

/-- A session loads the entries of the addon's files. -/
theorem load_triple (s : Session) (d : Disk) :
    Triple (fun d' => d' = d) s.load (fun data d' => d' = d ∧ s.Loads d data)
      (fun d' => d' = d) := by
  refine Triple.bind (s.scanner.loadDirectory_triple _ _ d) fun start => ?_
  refine Triple.of_disk fun d' hd' => ?_
  obtain ⟨rfl, paths, hfiles, hloads⟩ := hd'
  refine Triple.bind (s.scanner.loadMachineFiles_triple s.directory start d' hloads.machine)
    fun loaded => Triple.bind Triple.record fun _ => Triple.pure ?_
  rintro d ⟨rfl, hmachine⟩
  refine ⟨rfl, ?_, hmachine.bases, ?_, hmachine.file⟩
  · rw [DataSet.codes, hmachine.texts]
    exact hloads.codes
  · intro before path after code t hsplit
    obtain rfl := Except.ok.inj (hfiles.symm.trans hsplit)
    rw [hmachine.texts]
    exact hloads.last before path after code t rfl

end Phrasebook.Session
