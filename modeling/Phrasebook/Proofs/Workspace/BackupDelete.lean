import Phrasebook.Proofs.Job.Course
import Phrasebook.Proofs.Workspace.BackupList

/-!
# What a deletion of backups removes

The code of a locale is a part of the pattern of its backups, so a code with placeholders leads to the
backups of other locales as well. Whatever the code is, only backups of locale files are removed, and
those of one file when the code is plain.
-/

namespace Phrasebook

namespace Files

variable {d : Disk} {w : World} {removed : List Location} {paths : List Text}

/-- What becomes of a file that is deleted. -/
theorem outcome_delete (path : Text) (w : World) :
    Job.outcome (delete path) w =
      match w.disk.delete (.ofText path) with
      | .ok d => (.ok ⟨⟩, (w.withDisk d).noted [⟨.debug, "Deleted ".toList ++ path⟩])
      | .error .missing => (.ok ⟨⟩, w.noted [⟨.debug, "Deleted ".toList ++ path⟩])
      | .error refusal => (.error (.disk refusal (Path.ofText path).text), w) := by
  rw [delete, Job.outcome_bind, Job.outcome_get]
  dsimp only
  cases w.disk.delete (.ofText path) with
  | ok d => rfl
  | error refusal => cases refusal <;> rfl

/-- Files that are deleted one after another are removed, each of them once. -/
theorem outcome_forM_delete (h : Disk.Without removed d w.disk) (hdistinct : removed.Nodup)
    (hfiles : ∀ path ∈ paths, d.isFile (.ofText path) = true) :
    ∃ removed' w', Job.outcome (paths.forM delete) w = (.ok ⟨⟩, w') ∧
      Disk.Without removed' d w'.disk ∧ removed'.Nodup ∧
      removed'.length ≤ removed.length + paths.length ∧
      ∀ place, place ∈ removed' ↔
        place ∈ removed ∨ ∃ path ∈ paths, d.locate (.ofText path) = .ok place := by
  induction paths generalizing removed w with
  | nil => exact ⟨removed, w, rfl, h, hdistinct, Nat.le_refl _, by simp⟩
  | cons path paths ih =>
    have hrest : ∀ p ∈ paths, d.isFile (.ofText p) = true := fun p hp => hfiles p (by simp [hp])
    have hstep : (path :: paths).forM delete = delete path >>= fun _ => paths.forM delete := rfl
    rw [hstep, Job.outcome_bind, outcome_delete]
    obtain ⟨place, hplace, ⟨hremoved, hdelete⟩ | ⟨hkept, d', hdelete, hwithout⟩⟩ :=
      h.delete (hfiles path (by simp))
    · rw [hdelete]
      obtain ⟨removed', w', hrun, hwithout, hnodup, hlength, hmem⟩ := ih
        (w := w.noted [⟨.debug, "Deleted ".toList ++ path⟩]) h hdistinct hrest
      refine ⟨removed', w', hrun, hwithout, hnodup, ?_, fun other => ?_⟩
      · rw [List.length_cons]
        omega
      · rw [hmem]
        simp only [List.mem_cons, exists_eq_or_imp, hplace, Except.ok.injEq]
        grind
    · rw [hdelete]
      obtain ⟨removed', w', hrun, hwithout, hnodup, hlength, hmem⟩ := ih
        (w := (w.withDisk d').noted [⟨.debug, "Deleted ".toList ++ path⟩]) hwithout
        (List.nodup_cons.2 ⟨hkept, hdistinct⟩) hrest
      refine ⟨removed', w', hrun, hwithout, hnodup, ?_, fun other => ?_⟩
      · rw [List.length_cons] at hlength ⊢
        omega
      · rw [hmem]
        simp only [List.mem_cons, exists_eq_or_imp, hplace, Except.ok.injEq]
        grind

end Files

namespace Backup

variable {directory code : Text} {w : World}

/-- What a deletion of the backups of a locale does. -/
structure Deletes (directory code : Text) (w : World) (result : Except Fault Nat)
    (removed : List Location) (w' : World) : Prop where
  /-- Some files are removed, and all others stay as they are. -/
  without : Disk.Without removed w.disk w'.disk
  /-- No file is removed twice. -/
  distinct : removed.Nodup
  /-- What is removed has the name of a backup of some locale file that the pattern stands for. -/
  named : ∀ place ∈ removed, ∃ other time, place.getLast? = some (path (Locale.file other) time) ∧
    Path.nameMatches (pattern code) (path (Locale.file other) time) = true
  /-- A plain code leads to the backups of its own file. -/
  plain : Path.isPattern (spelling code) = false → ∀ place ∈ removed, ∃ time,
    place.getLast? = some (path (Locale.file (spelling code)) time)
  /-- A deletion that is refused removes nothing. -/
  refused : ∀ fault, result = .error fault → removed = []
  /-- The backups are counted, each of them once when the code is plain or no path. -/
  counted : ∀ n, result = .ok n → removed.length ≤ n ∧
    (Path.isPattern (spelling code) = false ∨ '/' ∉ spelling code → n = removed.length)
  /-- When the code is no path, no backup is left in the directory. -/
  complete : ∀ n, result = .ok n → '/' ∉ spelling code → ∀ name, Path.IsFileName name →
    Path.nameMatches (pattern code) name = true →
      w'.disk.isFile (.ofText (Files.inDirectory directory name)) = false
  /-- A deletion for a known code is not refused. -/
  answered : Locale.isKnown code = true → ∃ n, result = .ok n

/-- The listed backups are deleted and counted. -/
theorem outcome_deleteAll (hdirectory : w.disk.isDirectory (.ofText directory) = true)
    {paths : List Text} {w' : World} (hall : Job.outcome (all directory code) w = (.ok paths, w))
    (hrun : Job.outcome (paths.forM Files.delete) w = (.ok ⟨⟩, w')) :
    ∃ records, Job.outcome (deleteAll directory code) w = (.ok paths.length, w'.noted records) := by
  rw [deleteAll, Job.outcome_bind, Files.outcome_isDirectory, hdirectory]
  dsimp only
  rw [if_pos rfl, Job.outcome_bind, hall]
  dsimp only
  rw [Job.outcome_bind, hrun]
  dsimp only
  cases hempty : paths.isEmpty with
  | true => exact ⟨[], by simp [World.noted]⟩
  | false =>
    rw [if_neg Bool.false_ne_true, Job.outcome_bind, Job.outcome_record_noted]
    exact ⟨_, rfl⟩

/-- The last name of a listed backup is the name of a backup of some locale file. -/
theorem getLast?_names_of_nameMatches {path : Text}
    (h : Path.nameMatches (pattern code) (Path.ofText path).name = true) :
    ∃ other time, (Path.ofText path).names.getLast? =
        some (Backup.path (Locale.file other) time) ∧
      Path.nameMatches (pattern code) (Backup.path (Locale.file other) time) = true := by
  obtain ⟨other, time, hname⟩ := exists_of_nameMatches_pattern h
  refine ⟨other, time, ?_, hname ▸ h⟩
  rw [← hname, Path.name]
  cases hlast : (Path.ofText path).names.getLast? with
  | some name => rfl
  | none =>
    rw [Path.name, hlast] at hname
    simp [Backup.path] at hname

/-- A plain code that is a path leads to no backup. -/
theorem slash_not_mem_of_nameMatches {path : Text}
    (hplain : Path.isPattern (spelling code) = false)
    (h : Path.nameMatches (pattern code) (Path.ofText path).name = true) :
    '/' ∉ spelling code := by
  obtain ⟨other, time, hlast, hmatch⟩ := getLast?_names_of_nameMatches h
  obtain ⟨time', hname⟩ := (nameMatches_pattern_iff hplain).1 hmatch
  have hread := (Path.isReadable_ofText path).names _ (List.mem_of_getLast? hlast)
  rw [hname] at hread
  intro hslash
  exact hread.2.2 (by simp [Backup.path, Locale.file, hslash])

/-- A deletion that finds nothing removes nothing. -/
theorem Deletes.of_nothing {result : Except Fault Nat} (hresult : ∀ n, result = .ok n → n = 0)
    (hcomplete : ∀ n, result = .ok n → ∀ name, Path.IsFileName name →
      w.disk.isFile (.ofText (Files.inDirectory directory name)) = false)
    (hanswered : Locale.isKnown code = true → ∃ n, result = .ok n) :
    Deletes directory code w result [] w where
  without := .refl _
  distinct := List.nodup_nil
  named := by simp
  plain := by simp
  refused _ _ := rfl
  counted n hn := by simp [hresult n hn]
  complete n hn _ name hname _ := hcomplete n hn name hname
  answered := hanswered

/-- A listed backup stands where the name of a backup of some locale file does. -/
theorem exists_name_of_locate {d : Disk} {found : Text} {place : Location}
    (h : Path.nameMatches (pattern code) (Path.ofText found).name = true)
    (hplace : d.locate (.ofText found) = .ok place) :
    ∃ other time, place.getLast? = some (path (Locale.file other) time) ∧
      Path.nameMatches (pattern code) (path (Locale.file other) time) = true := by
  obtain ⟨other, time, hlast, hmatch⟩ := getLast?_names_of_nameMatches h
  have hdots : path (Locale.file other) time ≠ ['.', '.'] := Path.append_ne (by decide) _
  exact ⟨other, time, Disk.getLast?_of_locate hplace hlast hdots, hmatch⟩

/-- A search of one step is the only one that a code without slashes leads to. -/
theorem eq_filesNamed_of_outcome_all (hnames : w.disk.HasFileNames)
    (hdirectory : w.disk.isDirectory (.ofText directory) = true) (hslash : '/' ∉ spelling code)
    {paths : List Text} (hall : Job.outcome (all directory code) w = (.ok paths, w)) :
    paths = w.disk.filesNamed directory (pattern code) := by
  rcases stepsOf_pattern_cases hslash with hsteps | hsteps
  · have hrefused : w.disk.files directory (pattern code) false = .error .starsInName := by
      rw [Disk.files, hsteps]
      rfl
    rw [outcome_all_eq hdirectory, hrefused] at hall
    simp at hall
  · rw [outcome_all hnames hdirectory hsteps] at hall
    exact (Except.ok.inj (Prod.mk.inj hall).1).symm

/-- The listed backups are removed, when there is a list. -/
theorem Deletes.of_all (hnames : w.disk.HasFileNames)
    (hplaces : (w.disk.nodes.map Prod.fst).Nodup)
    (hdirectory : w.disk.isDirectory (.ofText directory) = true) {paths : List Text}
    (hall : Job.outcome (all directory code) w = (.ok paths, w))
    (hlisted : ∀ path ∈ paths, w.disk.isFile (.ofText path) = true ∧
      Path.nameMatches (pattern code) (Path.ofText path).name = true) :
    ∃ removed, Deletes directory code w (Job.outcome (deleteAll directory code) w).1 removed
      (Job.outcome (deleteAll directory code) w).2 := by
  obtain ⟨removed, w', hrun, hwithout, hdistinct, hlength, hmem⟩ :=
    Files.outcome_forM_delete (.refl _) List.nodup_nil fun path hpath => (hlisted path hpath).1
  simp only [List.not_mem_nil, false_or] at hmem
  simp only [List.length_nil, Nat.zero_add] at hlength
  obtain ⟨records, hdeleted⟩ := outcome_deleteAll hdirectory hall hrun
  have hnamed : ∀ place ∈ removed, ∃ other time,
      place.getLast? = some (path (Locale.file other) time) ∧
        Path.nameMatches (pattern code) (path (Locale.file other) time) = true := by
    intro place hplace
    obtain ⟨found, hfound, hlocate⟩ := (hmem place).1 hplace
    exact exists_name_of_locate (hlisted found hfound).2 hlocate
  have hcounted : '/' ∉ spelling code → paths.length ≤ removed.length := by
    intro hslash
    have hone := eq_filesNamed_of_outcome_all hnames hdirectory hslash hall
    rw [hone]
    refine hnames.length_filesNamed_le hplaces fun path hpath => ?_
    obtain ⟨content, hread⟩ := Disk.isFile_iff.1 (hlisted path (hone ▸ hpath)).1
    obtain ⟨place, hplace, -⟩ := Disk.read_eq_ok_iff.1 hread
    exact ⟨place, (hmem place).2 ⟨path, hone ▸ hpath, hplace⟩, hplace⟩
  rw [hdeleted]
  refine ⟨removed, hwithout, hdistinct, hnamed, fun hplain place hplace => ?_, fun _ h => ?_,
    fun n hn => ?_, fun n _ hslash name hname hmatch => ?_, fun _ => ⟨_, rfl⟩⟩
  · obtain ⟨other, time, hlast, hmatch⟩ := hnamed place hplace
    obtain ⟨time', hname⟩ := (nameMatches_pattern_iff hplain).1 hmatch
    exact ⟨time', hname ▸ hlast⟩
  · simp at h
  · obtain rfl := Except.ok.inj hn
    refine ⟨hlength, fun hcode => Nat.le_antisymm ?_ hlength⟩
    rcases hcode with hplain | hslash
    · by_cases hempty : paths = []
      · simp [hempty]
      · obtain ⟨found, hfound⟩ := List.exists_mem_of_ne_nil _ hempty
        exact hcounted (slash_not_mem_of_nameMatches hplain (hlisted found hfound).2)
    · exact hcounted hslash
  · refine hwithout.isFile_eq_false fun hfile => ?_
    have hpath : Files.inDirectory directory name ∈ paths := by
      rw [eq_filesNamed_of_outcome_all hnames hdirectory hslash hall]
      exact hnames.mem_filesNamed_iff.2 ⟨name, hname, hmatch, rfl, hfile⟩
    obtain ⟨parent, -, -, -, hplace, -⟩ := Disk.exists_of_isFile_inDirectory hname hfile
    exact ⟨_, (hmem _).2 ⟨_, hpath, hplace⟩, hplace⟩

/-- Whatever the code is, a deletion removes backups of locale files only, and it counts them when
the code is plain or no path. For a plain code they are the backups of its own file. -/
theorem deleteAll_deletes (hnames : w.disk.HasFileNames)
    (hplaces : (w.disk.nodes.map Prod.fst).Nodup) (directory code : Text) :
    ∃ removed, Deletes directory code w (Job.outcome (deleteAll directory code) w).1 removed
      (Job.outcome (deleteAll directory code) w).2 := by
  cases hdirectory : w.disk.isDirectory (.ofText directory) with
  | false =>
    have hnothing : Job.outcome (deleteAll directory code) w = (.ok 0, w) := by
      rw [deleteAll, Job.outcome_bind, Files.outcome_isDirectory, hdirectory]
      rfl
    rw [hnothing]
    refine ⟨[], .of_nothing (fun n hn => (Except.ok.inj hn).symm) (fun _ _ name hname => ?_)
      fun _ => ⟨0, rfl⟩⟩
    cases hfile : w.disk.isFile (.ofText (Files.inDirectory directory name)) with
    | false => rfl
    | true =>
      obtain ⟨-, -, -, hexists, -⟩ := Disk.exists_of_isFile_inDirectory hname hfile
      simp [hdirectory] at hexists
  | true =>
    rcases all_cases code hnames hdirectory with ⟨fault, hall⟩ | ⟨paths, hall, hlisted⟩
    · have hrefused : Job.outcome (deleteAll directory code) w = (.error fault, w) := by
        rw [deleteAll, Job.outcome_bind, Files.outcome_isDirectory, hdirectory]
        dsimp only
        rw [if_pos rfl, Job.outcome_bind, hall]
      rw [hrefused]
      refine ⟨[], .of_nothing (by simp) (by simp) fun hknown => ?_⟩
      obtain ⟨found, hfound⟩ := Option.isSome_iff_exists.1 hknown
      have hcode : Locale.canonical? code = some found.code := by
        rw [Locale.canonical?, hfound]
        rfl
      rw [outcome_all hnames hdirectory (stepsOf_pattern hcode)] at hall
      simp at hall
    · exact Deletes.of_all hnames hplaces hdirectory hall hlisted

/-- A star as the code removes the backups of all locales. -/
theorem deleteAll_deletes_of_star :
    let german := "deDE.lua.20240101_000000.backup".toList
    let french := "frFR.lua.20240101_000000.backup".toList
    let w : World := ⟨⟨[(["Loc".toList], .directory), (["Loc".toList, german], .file ⟨#[]⟩),
      (["Loc".toList, french], .file ⟨#[]⟩)], []⟩, [], [], fun _ => .timeout [], [], []⟩
    let run := Job.outcome (deleteAll "Loc".toList "*".toList) w
    w.disk.HasFileNames ∧ (w.disk.nodes.map Prod.fst).Nodup ∧ run.1 = .ok 2 ∧
      ∀ name ∈ [german, french],
        w.disk.isFile (.ofText (Files.inDirectory "Loc".toList name)) = true ∧
        run.2.disk.isFile (.ofText (Files.inDirectory "Loc".toList name)) = false := by
  intro german french w run
  have hnames : w.disk.HasFileNames := by decide +kernel
  have hplaces : (w.disk.nodes.map Prod.fst).Nodup := by decide +kernel
  obtain ⟨removed, hdeletes⟩ := deleteAll_deletes hnames hplaces "Loc".toList "*".toList
  have hdirectory : w.disk.isDirectory (.ofText "Loc".toList) = true := by decide +kernel
  have hlist : Job.outcome (all "Loc".toList "*".toList) w =
      (.ok (w.disk.filesNamed "Loc".toList (pattern "*".toList)), w) :=
    outcome_all hnames hdirectory (by decide +kernel)
  have hlength : (w.disk.filesNamed "Loc".toList (pattern "*".toList)).length = 2 := by
    rw [Disk.filesNamed, if_pos hdirectory, Text.sort, List.length_mergeSort]
    decide +kernel
  obtain ⟨-, w', hrun, -⟩ := Files.outcome_forM_delete (.refl w.disk) List.nodup_nil
    fun path hpath => (hnames.mem_filesNamed_iff.1 hpath).elim fun _ h => h.2.2.2
  obtain ⟨records, hdeleted⟩ := outcome_deleteAll hdirectory hlist hrun
  have hresult : run.1 = .ok 2 := by
    rw [← hlength]
    exact congrArg Prod.fst hdeleted
  have hall : ∀ name ∈ [german, french], Path.IsFileName name ∧
      Path.nameMatches (pattern "*".toList) name = true ∧
      w.disk.isFile (.ofText (Files.inDirectory "Loc".toList name)) = true := by decide +kernel
  refine ⟨hnames, hplaces, hresult, fun name hname => ⟨(hall name hname).2.2, ?_⟩⟩
  exact hdeletes.complete 2 hresult (by decide +kernel) name (hall name hname).1 (hall name hname).2.1

end Backup

end Phrasebook
