import Phrasebook.Proofs.Data.Stamp
import Phrasebook.Proofs.Workspace.Dated

/-!
# Runs of calls on a directory

Saves, new files of machine translations, restorations and deletions in one directory, in any order.
When the directory has no backups at first and the clock never goes back, the backups of each locale
are in the order of time after any such run.
-/

namespace Phrasebook

namespace Locale

/-- No file of machine translations has a backup that is one of a locale. -/
theorem not_owns_machineFile {code base : Text} (hcode : canonical? code = some code)
    (hbase : base ∈ machineBases) (time : Text) :
    ¬ Owns code (Backup.path (machineFile base) time) := by
  have hall : ∀ base ∈ machineBases, ∀ code ∈ codes,
      (file code).length ≤ (machineFile base).length ∧
        (machineFile base).take (file code).length ≠ file code := by
    decide +kernel
  obtain ⟨hlength, hstart⟩ := hall base hbase code (mem_codes_of_canonical? hcode)
  rintro ⟨rest, hsame, -⟩
  have htake := congrArg (List.take (file code).length) hsame
  rw [Backup.path, List.append_assoc, List.take_append_of_le_length hlength, List.take_left] at htake
  exact hstart htake

end Locale

namespace Save

/-- A code is looked up without a change. -/
theorem requireLocale_keeps {I : World → Prop} (code : Text) : Job.Keeps I (requireLocale code) := by
  unfold requireLocale
  cases Locale.canonical? code with
  | none => exact Job.Keeps.fail _
  | some canonical => exact Job.Keeps.pure _

/-- A code that is not refused is known. -/
theorem canonical?_of_requireLocale {code canonical : Text} {w w' : World}
    (h : Job.outcome (requireLocale code) w = (.ok canonical, w')) :
    Locale.canonical? code = some canonical := by
  unfold requireLocale at h
  cases hcode : Locale.canonical? code with
  | none =>
    rw [hcode, Job.fail, Job.outcome_throw] at h
    simp at h
  | some other =>
    rw [hcode] at h
    exact congrArg some (Except.ok.inj (Prod.mk.inj h).1)

end Save

namespace Backup.IsDated

open Job (Keeps)

variable {directory canonical code : Text} (style : Locale.Style)

/-- A record is no matter. -/
theorem record_keeps (level : Level) (message : Text) :
    Keeps (IsDated directory canonical) (Job.record level message) :=
  Keeps.record (fun _ records hw => hw.noted records) level message

variable (hcanonical : Locale.canonical? canonical = some canonical)

include hcanonical

/-- A source file is written. -/
theorem writeSource_keeps (t content : Text) :
    Keeps (IsDated directory canonical)
      (Files.writeText (Files.inDirectory directory (t ++ ".lua".toList)) content) := by
  obtain ⟨start, hlast, hname⟩ :=
    Path.exists_isNamed_inDirectory directory t (show 2 < ".lua".toList.length by decide) (by decide)
  exact writeText_keeps hcanonical hlast hname (fun time => Save.ne_backup start _) content

/-- The file of a locale is secured. -/
theorem existingLines_keeps {other : Text} (hother : Locale.canonical? other = some other) (backup : Bool) :
    Keeps (IsDated directory canonical) (Save.existingLines (Save.localePath directory other) backup) := by
  -- The backup of another locale has a name of its own, so it stands in no order with these ones.
  have howns : Locale.file other = Locale.file canonical ∨
      ∀ time, ¬ Locale.Owns canonical (path (Locale.file other) time) := by
    by_cases hsame : other = canonical
    · exact Or.inl (congrArg Locale.file hsame)
    · exact Or.inr fun time howned =>
        hsame ((Locale.owns_backup other time).unique hother hcanonical howned)
  refine Keeps.bind (Files.isFile_keeps _) fun found => ?_
  split
  · refine Keeps.bind (Files.readText_keeps _) fun content => ?_
    split
    · exact Keeps.bind (Keeps.discard (write_keeps hcanonical (Locale.isFileName_file hother) howns
        content)) fun _ => Keeps.pure _
    · exact Keeps.pure _
  · exact Keeps.pure _

/-- A locale is saved. -/
theorem save_keeps (code : Text) (texts : Dictionary Text) (backup : Bool) :
    Keeps (IsDated directory canonical) (Save.locale style directory code texts backup) := by
  refine Keeps.bind (Files.requireDirectory_keeps _ _) fun _ => ?_
  refine Keeps.bind_of_result (Save.requireLocale_keeps code) fun w other w' hother => ?_
  have hcode := Save.canonical?_of_requireLocale hother
  refine Keeps.bind (existingLines_keeps hcanonical (Locale.canonical?_canonical hcode) backup)
    fun existing => ?_
  refine Keeps.bind (Keeps.recordAll (fun _ records hw => hw.noted records) _) fun _ => ?_
  refine Keeps.bind (writeSource_keeps hcanonical other _) fun _ => ?_
  exact Keeps.bind (record_keeps _ _) fun _ => Keeps.pure _

/-- A file of machine translations is backed up. -/
theorem create_keeps {base : Text} (hbase : base ∈ Locale.machineBases) :
    Keeps (IsDated directory canonical)
      (Backup.create (Files.inDirectory directory (Locale.machineFile base))) := by
  refine Keeps.bind (Files.requireFile_keeps _) fun _ => ?_
  refine Keeps.bind (Files.readText_keeps _) fun content => ?_
  exact write_keeps hcanonical (Locale.isFileName_machineFile hbase)
    (Or.inr (Locale.not_owns_machineFile hcanonical hbase)) content

/-- Machine translations are written. -/
theorem machine_keeps (base : Text) (texts : Dictionary Text) (backup : Bool) :
    Keeps (IsDated directory canonical) (Save.machine style directory base texts backup) := by
  refine Save.machine_keeps (create_keeps hcanonical) (fun hbase content => ?_) record_keeps texts
    backup
  obtain ⟨t, hfile⟩ := Locale.exists_machineFile_eq hbase
  exact hfile ▸ writeSource_keeps hcanonical t content

/-- A locale is restored. -/
theorem restore_keeps (code : Text) : Keeps (IsDated directory canonical) (Backup.restore directory code) := by
  refine Keeps.bind (all_keeps _ _) fun backups => ?_
  cases backups.getLast? with
  | none => exact Keeps.fail _
  | some latest =>
    refine Keeps.bind (Files.readText_keeps latest) fun content => ?_
    refine Keeps.bind (writeSource_keeps hcanonical _ content) fun _ => ?_
    exact Keeps.bind (record_keeps _ _) fun _ => Keeps.pure _

/-- The backups of a locale are deleted. -/
theorem deleteAll_keeps (code : Text) :
    Keeps (IsDated directory canonical) (Backup.deleteAll directory code) := by
  refine Keeps.bind (Files.isDirectory_keeps _) fun found => ?_
  split
  · refine Keeps.bind (all_keeps _ _) fun backups => ?_
    refine Keeps.bind (Keeps.forM fun backup _ => delete_keeps hcanonical backup) fun _ => ?_
    dsimp only
    split
    · exact Keeps.pure _
    · exact Keeps.bind (record_keeps _ _) fun _ => Keeps.pure _
  · exact Keeps.pure _

end Backup.IsDated

/-- A call on a localization directory. -/
inductive Call where
  /-- Save the texts of a locale. -/
  | save (code : Text) (texts : Dictionary Text) (backup : Bool)
  /-- Write the machine translations of a base locale. -/
  | machine (base : Text) (texts : Dictionary Text) (backup : Bool)
  /-- Restore a locale from its last backup. -/
  | restore (code : Text)
  /-- Delete the backups of a locale. -/
  | delete (code : Text)

namespace Call

open Job (Keeps)

variable {style : Locale.Style} {directory canonical : Text} {w : World} {moments : List Moment}

/-- What a call does. -/
def job (style : Locale.Style) (directory : Text) : Call → Job Unit
  | save code texts backup => discard <| Save.locale style directory code texts backup
  | machine base texts backup => discard <| Save.machine style directory base texts backup
  | restore code => discard <| Backup.restore directory code
  | delete code => discard <| Backup.deleteAll directory code

/-- The world after some calls, whatever becomes of each of them. -/
def run (style : Locale.Style) (directory : Text) (calls : List Call) (w : World) : World :=
  (Job.outcome (Job.each (job style directory) calls) w).2

/-- A directory without backups, before any calls on it. -/
structure IsFresh (directory : Text) (d : Disk) : Prop where
  /-- The names on the disk are names of files. -/
  names : d.HasFileNames
  /-- No file in it has the name of a backup. -/
  unbacked : ∀ name, '/' ∉ name →
    d.isFile (.ofText (Files.inDirectory directory (name ++ Backup.ending))) = false
  /-- The directory is there. -/
  directory : d.isDirectory (.ofText directory) = true

/-- A directory has no backups when no place of the disk has the name of one. -/
theorem IsFresh.of_places {d : Disk} (hnames : d.HasFileNames)
    (hplaces : ∀ node ∈ d.nodes, ¬ Backup.ending <:+ node.1.getLast?.getD [])
    (hdirectory : d.isDirectory (.ofText directory) = true) : IsFresh directory d := by
  refine ⟨hnames, fun name hslash => ?_, hdirectory⟩
  have hname : Path.IsFileName (name ++ Backup.ending) :=
    ⟨Path.append_ne (by decide) name, Path.append_ne (by decide) name,
      Path.append_ne (by decide) name, by simp [hslash, show '/' ∉ Backup.ending by decide]⟩
  cases hfile : d.isFile (.ofText (Files.inDirectory directory (name ++ Backup.ending))) with
  | false => rfl
  | true =>
    obtain ⟨parent, content, -, -, -, hnode⟩ := Disk.exists_of_isFile_inDirectory hname hfile
    refine absurd ?_ (hplaces _ (Disk.mem_nodes_of_node? hnode (by simp)))
    simp

/-- A clock that shows moments and never goes back. -/
structure ShowsMoments (moments : List Moment) (clock : List Text) : Prop where
  /-- It shows the stamps of the moments. -/
  shown : clock = moments.map Moment.stamp
  /-- There is a moment to show. -/
  runs : moments ≠ []
  /-- The years have four digits. -/
  stamped : ∀ m ∈ moments, m.IsStamped
  /-- No moment is after a later one. -/
  forward : moments.Pairwise fun m n => m.isNotAfter n = true

/-- No call disturbs the order of the backups of a locale. -/
theorem keeps_isDated (hcanonical : Locale.canonical? canonical = some canonical) (call : Call) :
    Keeps (Backup.IsDated directory canonical) (call.job style directory) := by
  cases call with
  | save code texts backup =>
    exact Keeps.discard (Backup.IsDated.save_keeps style hcanonical code texts backup)
  | machine base texts backup =>
    exact Keeps.discard (Backup.IsDated.machine_keeps style hcanonical base texts backup)
  | restore code => exact Keeps.discard (Backup.IsDated.restore_keeps hcanonical code)
  | delete code => exact Keeps.discard (Backup.IsDated.deleteAll_keeps hcanonical code)

/-- There is no order to disturb before the first call. -/
theorem IsFresh.isDated (h : IsFresh directory w.disk) (hclock : ShowsMoments moments w.clock)
    (hcanonical : Locale.canonical? canonical = some canonical) :
    Backup.IsDated directory canonical w := by
  have hshown : ∀ time ∈ w.clock, ∃ m ∈ moments, m.stamp = time := fun time htime =>
    List.mem_map.1 (hclock.shown ▸ htime)
  refine ⟨⟨h.names, h.directory, fun time htime => ?_⟩, ?_, fun time htime => ?_, ?_,
    fun time htime hfile => ?_⟩
  · obtain ⟨m, -, rfl⟩ := hshown time htime
    exact m.slash_not_mem_stamp
  · rw [hclock.shown]
    exact mt List.map_eq_nil_iff.1 hclock.runs
  · obtain ⟨m, -, rfl⟩ := hshown time htime
    exact m.length_stamp
  · rw [hclock.shown, List.pairwise_map]
    exact hclock.forward.imp_of_mem fun hm hn hle =>
      Moment.le_stamp (hclock.stamped _ hm) (hclock.stamped _ hn) hle
  · have hname := Locale.isFileName_file hcanonical
    rw [Save.localePath, Backup.path_inDirectory directory hname htime] at hfile
    have hslash : '/' ∉ Locale.file canonical ++ '.' :: time := by
      simp [hname.2.2.2, htime]
    have hnone := h.unbacked _ hslash
    rw [← Backup.path, hfile] at hnone
    simp at hnone

/-- The backups of a locale are in the order of time after any calls. -/
theorem isDated_run (h : IsFresh directory w.disk) (hclock : ShowsMoments moments w.clock)
    (hcanonical : Locale.canonical? canonical = some canonical) (calls : List Call) :
    Backup.IsDated directory canonical (run style directory calls w) :=
  Keeps.each (fun call _ => call.keeps_isDated hcanonical) w (h.isDated hclock hcanonical)

end Call

end Phrasebook
