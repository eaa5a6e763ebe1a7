import Phrasebook.Proofs.Workspace.Saving

/-!
# Saves that fail

A save can fail at every one of its steps. Whichever it is, the locale file has the bytes that it
had, and nothing is left beside it but a backup, if the save came as far as writing it.
-/

namespace Phrasebook.Save

open Files (HasText)

variable {style : Locale.Style} {directory code canonical path : Text} {texts : Dictionary Text}
  {backup : Bool} {w w' : World} {fault : Fault}

/-- A disk on which the text of a file has been written to its backup, under the time that the clock
showed, and nothing else. -/
def BackedUp (path : Text) (w : World) (d : Disk) : Prop :=
  ∃ t, HasText w.disk path t ∧
    w.disk.write (.ofText (Backup.path path w.now)) (Text.encode t) = .ok d

/-- What securing a file writes: nothing, or its backup when one is asked for. -/
theorem Secured.disk_cases {t : Option Text} (h : Secured path backup w t w') :
    w'.disk = w.disk ∨ backup = true ∧ BackedUp path w w'.disk := by
  cases h with
  | absent => exact Or.inl rfl
  | unbacked => exact Or.inl rfl
  | backed htext hbackup hwrite => exact Or.inr ⟨hbackup, _, htext, hwrite⟩

/-- What a save writes that fails: nothing, or the backup when one is asked for. -/
theorem Saving.disk_cases (h : Saving style path code texts backup w (.error fault) w') :
    w'.disk = w.disk ∨ backup = true ∧ BackedUp path w w'.disk := by
  cases h with
  | unsecured hsame => rcases hsame with rfl | rfl <;> exact Or.inl rfl
  | refused hsecured =>
    rw [World.disk_noted]
    exact hsecured.disk_cases

/-- A save to a directory that does not exist fails and changes nothing. -/
theorem outcome_locale_of_missing (style : Locale.Style) (code : Text) (texts : Dictionary Text)
    (backup : Bool) (h : w.disk.isDirectory (.ofText directory) = false) :
    ∃ fault, Job.outcome (Save.locale style directory code texts backup) w = (.error fault, w) := by
  rw [Save.locale, Job.outcome_bind, Backup.requireDirectory, Files.requireDirectory,
    Job.outcome_bind, Files.outcome_isDirectory, h]
  exact ⟨_, rfl⟩

/-- A save of an unknown code fails and changes nothing. -/
theorem outcome_locale_of_unknown (style : Locale.Style) (texts : Dictionary Text) (backup : Bool)
    (hdirectory : w.disk.isDirectory (.ofText directory) = true)
    (hcode : Locale.canonical? code = none) :
    ∃ fault, Job.outcome (Save.locale style directory code texts backup) w = (.error fault, w) := by
  rw [Save.locale, Job.outcome_bind, Backup.outcome_requireDirectory hdirectory]
  dsimp only
  rw [Job.outcome_bind, requireLocale, hcode]
  exact ⟨_, rfl⟩

/-- A save that fails writes nothing, or the backup of the locale file. -/
theorem disk_of_failed
    (h : Job.outcome (Save.locale style directory code texts backup) w = (.error fault, w')) :
    w'.disk = w.disk ∨ backup = true ∧ ∃ canonical, Locale.canonical? code = some canonical ∧
      BackedUp (localePath directory canonical) w w'.disk := by
  cases hdirectory : w.disk.isDirectory (.ofText directory) with
  | false =>
    obtain ⟨_, hmissing⟩ := outcome_locale_of_missing style code texts backup hdirectory
    rw [hmissing] at h
    exact Or.inl (congrArg World.disk (Prod.mk.inj h).2).symm
  | true =>
    cases hcode : Locale.canonical? code with
    | none =>
      obtain ⟨_, hunknown⟩ := outcome_locale_of_unknown style texts backup hdirectory hcode
      rw [hunknown] at h
      exact Or.inl (congrArg World.disk (Prod.mk.inj h).2).symm
    | some canonical =>
      have hsaving := saving_locale style texts backup hdirectory hcode
      rw [h] at hsaving
      exact hsaving.disk_cases.imp_right fun ⟨hbackup, hbacked⟩ =>
        ⟨hbackup, canonical, rfl, hbacked⟩

/-- The backup of the file of a locale leaves the file as it is. -/
theorem BackedUp.read_eq {d : Disk} (hcode : Locale.canonical? code = some canonical)
    (h : BackedUp (localePath directory canonical) w d) :
    d.read (.ofText (localePath directory canonical)) =
      w.disk.read (.ofText (localePath directory canonical)) := by
  obtain ⟨t, ⟨content, -, hread, -⟩, hwrite⟩ := h
  obtain ⟨place, hholds⟩ := Disk.read_eq_ok_iff.1 hread
  obtain ⟨start, hlast⟩ := Backup.exists_getLast?_names_path (localePath directory canonical) w.now
  have hkept := holds_of_backup (isNoBackup_of_locale hcode hholds.1) hholds hlast hwrite
  rw [hkept.read, hread]

/-- The backup of a file holds its text, and everything else is as before. -/
theorem BackedUp.node? {d : Disk} (h : BackedUp path w d) :
    ∃ t place, HasText w.disk path t ∧
      w.disk.locate (.ofText (Backup.path path w.now)) = .ok place ∧
      d.node? place = some (.file (Text.encode t)) ∧
      ∀ other, other ≠ place → d.node? other = w.disk.node? other := by
  obtain ⟨t, htext, hwrite⟩ := h
  obtain ⟨place, hplace, hroot, -, rfl⟩ := Disk.write_eq_ok hwrite
  refine ⟨t, place, htext, hplace, ?_, fun other hne => ?_⟩
  · rw [Disk.node?_set hroot, if_pos rfl]
  · rw [Disk.node?_set hroot, if_neg hne]

/-- A save that fails, for whatever reason, leaves the locale file as it was. Everything on the disk
is as before, except for the backup under the time that the clock showed: when one was asked for, it
may stand there now, with exactly the text of the locale file. -/
theorem failed_save_keeps_file
    (h : Job.outcome (Save.locale style directory code texts backup) w = (.error fault, w')) :
    (∀ canonical, Locale.canonical? code = some canonical →
      w'.disk.read (.ofText (localePath directory canonical)) =
        w.disk.read (.ofText (localePath directory canonical))) ∧
    (w'.disk = w.disk ∨ backup = true ∧ ∃ canonical t place,
      Locale.canonical? code = some canonical ∧
      HasText w.disk (localePath directory canonical) t ∧
      w.disk.locate (.ofText (Backup.path (localePath directory canonical) w.now)) = .ok place ∧
      w'.disk.node? place = some (.file (Text.encode t)) ∧
      ∀ other, other ≠ place → w'.disk.node? other = w.disk.node? other) := by
  rcases disk_of_failed h with hsame | ⟨hbackup, canonical, hcode, hbacked⟩
  · exact ⟨fun canonical _ => by rw [hsame], Or.inl hsame⟩
  · refine ⟨fun other hother => ?_, Or.inr ⟨hbackup, canonical, ?_⟩⟩
    · obtain rfl : canonical = other := Option.some.inj (hcode.symm.trans hother)
      exact hbacked.read_eq hcode
    · obtain ⟨t, place, hnodes⟩ := hbacked.node?
      exact ⟨t, place, hcode, hnodes⟩

/-- The file of a locale has a mark at its start and cannot be written. After the save has failed,
its backup is there, and no third file. -/
theorem failed_save_keeps_file_of_unwritable :
    let file := "Loc/frFR.lua".toList
    let content := Text.encode ('\uFEFF' :: "L[\"A\"] = \"a\"\n".toList)
    let w : World := ⟨⟨[(["Loc".toList], .directory),
      (["Loc".toList, "frFR.lua".toList], .file content)], []⟩, ["20240101_000000".toList], [],
      fun _ => .timeout [], [⟨file, .fill, "[Errno 28] No space left on device".toList⟩], []⟩
    let save := Save.locale .default "Loc".toList "frfr".toList (.ofList []) true
    ∃ fault w', Job.outcome save w = (.error fault, w') ∧
      w'.disk.read (.ofText file) = w.disk.read (.ofText file) ∧
      w'.disk.nodes.map Prod.fst = [["Loc".toList], ["Loc".toList, "frFR.lua".toList],
        ["Loc".toList, "frFR.lua.20240101_000000.backup".toList]] := by
  intro file content w save
  have hfails : ((Job.outcome save w).1.toOption).isNone = true := by decide +kernel
  cases hrun : Job.outcome save w with
  | mk result w' =>
    cases result with
    | ok saved =>
      rw [hrun] at hfails
      exact absurd hfails (by simp [Except.toOption])
    | error fault =>
      have hcode : Locale.canonical? "frfr".toList = some "frFR".toList := by decide +kernel
      have hfile : localePath "Loc".toList "frFR".toList = file := by decide +kernel
      have hkept := (failed_save_keeps_file hrun).1 _ hcode
      rw [hfile] at hkept
      refine ⟨fault, w', rfl, hkept, ?_⟩
      have hplaces : (Job.outcome save w).2.disk.nodes.map Prod.fst = [["Loc".toList],
          ["Loc".toList, "frFR.lua".toList],
          ["Loc".toList, "frFR.lua.20240101_000000.backup".toList]] := by decide +kernel
      rwa [hrun] at hplaces

end Phrasebook.Save
