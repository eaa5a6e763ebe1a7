import Phrasebook.Proofs.Workspace.BackupDelete
import Phrasebook.Proofs.Workspace.BackupHistory

/-!
# Backups that are in the order of time

While the clock never goes back, the backups of a locale file that are there were written at times that
the clock has shown already. Saving, restoring and deleting keep this.
-/

namespace Phrasebook

namespace Files

open Job (Keeps)

variable {I : World → Prop}

/-- Whether a path leads to a directory is seen without a change. -/
theorem isDirectory_keeps (path : Text) : Keeps I (isDirectory path) :=
  Keeps.bind Keeps.get fun _ => Keeps.pure _

/-- Whether a path leads to a file is seen without a change. -/
theorem isFile_keeps (path : Text) : Keeps I (isFile path) :=
  Keeps.bind Keeps.get fun _ => Keeps.pure _

/-- A search changes nothing. -/
theorem find_keeps (directory pattern : Text) (recursive : Bool) :
    Keeps I (find directory pattern recursive) := by
  refine Keeps.bind Keeps.get fun w => ?_
  split
  · exact Keeps.pure _
  · exact Keeps.throw _

/-- Reading a file changes nothing. -/
theorem readText_keeps (path : Text) : Keeps I (readText path) := by
  refine Keeps.bind Keeps.get fun w => ?_
  split
  · exact Keeps.throw _
  · split
    · exact Keeps.throw _
    · exact Keeps.pure _

/-- Refusing a path that leads to no directory changes nothing. -/
theorem requireDirectory_keeps (what directory : Text) : Keeps I (requireDirectory what directory) := by
  refine Keeps.bind (isDirectory_keeps directory) fun found => ?_
  split
  · exact Keeps.pure _
  · exact Keeps.fail _

/-- Refusing a path that leads to no file changes nothing. -/
theorem requireFile_keeps (path : Text) : Keeps I (requireFile path) := by
  refine Keeps.bind (isFile_keeps path) fun found => ?_
  split
  · exact Keeps.pure _
  · exact Keeps.fail _

end Files

namespace Save

open Job (Keeps)

variable {style : Locale.Style} {directory base : Text}

/-- Machine translations can only be written for base locales that have some. -/
theorem mem_machineBases_of_codes
    (h : ((Locale.codesOf base).filter fun code => !Locale.isEnglish code) ≠ []) :
    base ∈ Locale.machineBases := by
  obtain ⟨code, hcode⟩ := List.exists_mem_of_ne_nil _ h
  obtain ⟨hmem, henglish⟩ := List.mem_filter.1 hcode
  exact Locale.mem_machineBases_of_mem_codesOf hmem (by simpa using henglish)

/-- Machine translations that are written with a result are those of a base locale that has some. -/
theorem mem_machineBases_of_machine {texts : Dictionary Text} {backup : Bool} {path : Text}
    {w w' : World}
    (h : Job.outcome (Save.machine style directory base texts backup) w = (.ok path, w')) :
    base ∈ Locale.machineBases := by
  obtain ⟨_, w₁, -, h⟩ := Job.exists_of_outcome_bind h
  dsimp only at h
  split at h
  · obtain ⟨_, _, hfail, -⟩ := Job.exists_of_outcome_bind h
    simp [Job.fail] at hfail
  · rename_i hcodes
    exact mem_machineBases_of_codes (mt List.isEmpty_iff.2 hcodes)

/-- Writing machine translations keeps what a backup of their file, a write of it and a record keep. -/
theorem machine_keeps {I : World → Prop} (hbackup : base ∈ Locale.machineBases →
      Keeps I (Backup.create (Files.inDirectory directory (Locale.machineFile base))))
    (hwrite : base ∈ Locale.machineBases → ∀ content,
      Keeps I (Files.writeText (Files.inDirectory directory (Locale.machineFile base)) content))
    (hrecord : ∀ level message, Keeps I (Job.record level message)) (texts : Dictionary Text)
    (backup : Bool) : Keeps I (Save.machine style directory base texts backup) := by
  refine Keeps.bind (Files.requireDirectory_keeps _ _) fun _ => ?_
  dsimp only
  split
  · refine Keeps.bind_of_result (Keeps.fail _) fun w _ w' hfail => ?_
    rw [Job.fail, Job.outcome_throw] at hfail
    simp at hfail
  · rename_i hcodes
    have hbase := mem_machineBases_of_codes (mt List.isEmpty_iff.2 hcodes)
    -- With or without a backup, the file is written and recorded in the end.
    have hwritten : Keeps I (do
        Files.writeLines (Files.inDirectory directory (Locale.machineFile base))
          (Locale.newFile style ((Locale.codesOf base).filter fun code => !Locale.isEnglish code)
            texts []) Text.Newline.lf.text
        Job.record .info ("Wrote GT file ".toList ++
          Files.inDirectory directory (Locale.machineFile base))
        return Files.inDirectory directory (Locale.machineFile base)) :=
      Keeps.bind (hwrite hbase _) fun _ => Keeps.bind (hrecord _ _) fun _ => Keeps.pure _
    split
    · refine Keeps.bind (Files.isFile_keeps _) fun found => ?_
      split
      · exact Keeps.bind (Keeps.discard (hbackup hbase)) fun _ => hwritten
      · exact hwritten
    · exact hwritten

end Save

namespace Backup

open Job (Keeps)

variable {I : World → Prop} {directory code canonical name time : Text} {w w' : World}

/-- Listing backups changes nothing. -/
theorem all_keeps (directory code : Text) : Keeps I (all directory code) :=
  Keeps.bind (Files.requireDirectory_keeps _ _) fun _ =>
    Keeps.bind (Files.find_keeps _ _ _) fun _ => Keeps.pure _

/-- A directory in a world with a clock that never goes back: the backups of a locale file in it are
not from times to come. -/
structure IsDated (directory canonical : Text) (w : World) : Prop where
  /-- The directory can be worked on. -/
  ready : Save.IsReady directory w
  /-- The clock shows times. -/
  runs : w.clock ≠ []
  /-- The times are of one length. -/
  lengths : ∀ time ∈ w.clock, time.length = 15
  /-- The clock never goes back. -/
  forward : w.clock.Pairwise fun a b => Text.le a b = true
  /-- The backups are from times of this length that the clock has shown, or shows now. -/
  dated : ∀ time, '/' ∉ time →
    w.disk.isFile (.ofText (path (Save.localePath directory canonical) time)) = true →
      time.length = 15 ∧ ∀ later ∈ w.clock, Text.le time later = true

namespace IsDated

/-- Records do not matter. -/
theorem noted (h : IsDated directory canonical w) (records : List Record) :
    IsDated directory canonical (w.noted records) :=
  ⟨⟨h.ready.names, h.ready.directory, h.ready.times⟩, h.runs, h.lengths, h.forward, h.dated⟩

/-- The time that the clock shows is the first of its times. -/
theorem le_now (h : IsDated directory canonical w) {later : Text} (hlater : later ∈ w.clock) :
    Text.le w.now later = true := by
  obtain ⟨time, rest, htimes⟩ := List.exists_cons_of_ne_nil h.runs
  have hnow : w.now = time := by rw [World.now, htimes, List.headD_cons]
  have hforward := h.forward
  rw [htimes] at hlater hforward
  rw [hnow]
  rcases List.mem_cons.1 hlater with rfl | hrest
  · exact Text.le_refl later
  · exact (List.pairwise_cons.1 hforward).1 later hrest

/-- The clock may be read. -/
theorem tick (h : IsDated directory canonical w) : IsDated directory canonical w.tick := by
  have hsuffix := w.clock_tick_suffix
  refine ⟨⟨h.ready.names, h.ready.directory, fun time htime => h.ready.times time (hsuffix.subset htime)⟩,
    World.clock_tick_ne_nil h.runs, fun time htime => h.lengths time (hsuffix.subset htime),
    h.forward.sublist hsuffix.sublist, fun time htime hfile => ?_⟩
  obtain ⟨hlength, hle⟩ := h.dated time htime hfile
  exact ⟨hlength, fun later hlater => hle later (hsuffix.subset hlater)⟩

/-- The disk may change under other names. -/
theorem withDisk (h : IsDated directory canonical w) {d : Disk} {own : Text → Prop}
    (hchanges : Disk.ChangesOnly own w.disk d) (hnames : d.HasFileNames)
    (hown : ∀ time, '/' ∉ time → own (path (Locale.file canonical) time) →
      d.isFile (.ofText (path (Save.localePath directory canonical) time)) = true →
        time.length = 15 ∧ ∀ later ∈ w.clock, Text.le time later = true)
    (hcode : Locale.canonical? canonical = some canonical) :
    IsDated directory canonical (w.withDisk d) := by
  refine ⟨⟨hnames, hchanges.isDirectory_eq.trans h.ready.directory, h.ready.times⟩, h.runs,
    h.lengths, h.forward, fun time htime hfile => ?_⟩
  by_cases howned : own (path (Locale.file canonical) time)
  · exact hown time htime howned hfile
  · obtain ⟨hlast, hname⟩ := isNamed_path directory (Locale.isFileName_file hcode) htime
    obtain ⟨content, hread⟩ := Disk.isFile_iff.1 hfile
    exact h.dated time htime (Disk.isFile_iff.2 ⟨content,
      (hchanges.read_iff hlast hname.2.2.1 howned).1 hread⟩)

end IsDated

section Keeps

variable (hcode : Locale.canonical? canonical = some canonical)

include hcode

/-- Writing a file whose name is that of no backup of the locale. -/
theorem writeText_keeps {file : Text} (hlast : (Path.ofText file).names.getLast? = some name)
    (hname : Path.IsFileName name) (hother : ∀ time, name ≠ path (Locale.file canonical) time)
    (content : Text) : Keeps (IsDated directory canonical) (Files.writeText file content) := by
  intro w hw
  rcases Files.writeText_cases file content w with ⟨fault, hwritten⟩ | ⟨d, -, hwrite, hwritten⟩
  · rwa [hwritten]
  · rw [hwritten]
    have hchanges : Disk.ChangesOnly (· = name) w.disk d := .of_write hwrite hlast hname.2.2.1 rfl
    exact hw.withDisk hchanges (hw.ready.names.write hwrite hlast hname)
      (fun time _ hsame _ => absurd hsame.symm (hother time)) hcode

/-- Backing up a file of the directory, be it the file of the locale or one of another one. -/
theorem write_keeps (hname : Path.IsFileName name)
    (hother : name = Locale.file canonical ∨ ∀ time, ¬ Locale.Owns canonical (path name time))
    (content : Text) :
    Keeps (IsDated directory canonical) (write (Files.inDirectory directory name) content) := by
  intro w hw
  have hnow := World.not_mem_now hw.ready.times
  rcases write_cases (Files.inDirectory directory name) content w with
    ⟨fault, hwritten⟩ | ⟨d, records, hwrite, hwritten⟩
  · rw [hwritten]
    exact hw.tick
  · rw [hwritten]
    obtain ⟨hlast, hbackup⟩ := isNamed_path directory hname hnow
    have hchanges : Disk.ChangesOnly (· = path name w.now) w.disk d :=
      .of_write hwrite hlast hbackup.2.2.1 rfl
    refine (hw.tick.withDisk hchanges (hw.ready.names.write hwrite hlast hbackup) ?_ hcode).noted
      records
    intro time htime hsame _
    -- A backup of the locale itself is from now; that of another file has the name of none.
    rcases hother with rfl | hother
    · obtain rfl := path_injective hsame
      exact ⟨hw.lengths _ (World.now_mem hw.runs), fun later hlater =>
        hw.le_now (w.clock_tick_suffix.subset hlater)⟩
    · exact absurd (hsame ▸ Locale.owns_backup canonical time) (hother w.now)

/-- Deleting a file. -/
theorem delete_keeps (file : Text) : Keeps (IsDated directory canonical) (Files.delete file) := by
  intro w hw
  rw [Files.outcome_delete]
  cases hdelete : w.disk.delete (.ofText file) with
  | error refusal => cases refusal <;> first | exact hw.noted _ | exact hw
  | ok d =>
    have hchanges : Disk.ChangesOnly (fun _ => True) w.disk d :=
      .of_delete hdelete fun _ _ _ _ => trivial
    refine (hw.withDisk hchanges (hw.ready.names.delete hdelete) (fun time htime _ hfile => ?_)
      hcode).noted _
    exact hw.dated time htime (Disk.isFile_of_delete hdelete hfile)

end Keeps

end Backup

end Phrasebook
