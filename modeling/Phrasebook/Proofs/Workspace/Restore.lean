import Phrasebook.Proofs.Workspace.Calls

/-!
# Restoring a locale file

The backup that a save writes is the last one of its locale, since none of the others is from a later
time. Restoring the file right after the save therefore brings back the text that the save found.
-/

namespace Phrasebook

namespace Backup

variable {directory code canonical time time' : Text} {w : World}

/-- Backups of a file with times of one length are in the order of the times. -/
theorem le_path (file : Text) (hlength : time.length = time'.length)
    (h : Text.le time time' = true) : Text.le (path file time) (path file time') = true := by
  have hpath : ∀ t, path file t = file ++ ['.'] ++ (t ++ ending) := fun t => by simp [path]
  rw [hpath, hpath, Text.le_append rfl, if_pos rfl, Text.le_append hlength]
  split
  · exact Text.le_refl ending
  · exact h

/-- The last backup that is listed is one that no other one is later than. -/
theorem getLast?_filesNamed (hnames : w.disk.HasFileNames)
    (hcode : Locale.canonical? code = some canonical) (htime : '/' ∉ time)
    (hfile : w.disk.isFile (.ofText (path (Save.localePath directory canonical) time)) = true)
    (hlatest : ∀ other, '/' ∉ other →
      w.disk.isFile (.ofText (path (Save.localePath directory canonical) other)) = true →
        other.length = time.length ∧ Text.le other time = true) :
    (w.disk.filesNamed directory (pattern code)).getLast? =
      some (path (Save.localePath directory canonical) time) := by
  refine Text.getLast?_eq_some (w.disk.pairwise_filesNamed directory (pattern code)) ?_
    fun listed hlisted => ?_
  · exact (mem_filesNamed_pattern_iff hnames hcode).2 ⟨time, htime, rfl, hfile⟩
  · obtain ⟨other, hother, rfl, hisFile⟩ := (mem_filesNamed_pattern_iff hnames hcode).1 hlisted
    obtain ⟨hlength, hle⟩ := hlatest other hother hisFile
    exact le_path _ hlength hle

/-- The last one of the listed backups is read, and its text is written to the file. -/
theorem outcome_restore {backups : List Text} {latest t : Text} {d : Disk}
    (hall : Job.outcome (all directory (spelling code)) w = (.ok backups, w))
    (hlatest : backups.getLast? = some latest) (hread : Files.HasText w.disk latest t)
    (hwritten : Job.outcome (Files.writeText
      (Files.inDirectory directory (Locale.file (spelling code))) t) w = (.ok ⟨⟩, w.withDisk d)) :
    ∃ records, Job.outcome (restore directory code) w =
      (.ok latest, (w.withDisk d).noted records) := by
  rw [restore, Job.outcome_bind, hall]
  dsimp only
  rw [hlatest]
  dsimp only
  rw [Job.outcome_bind, hread.outcome_readText]
  dsimp only
  rw [Job.outcome_bind, hwritten]
  dsimp only
  rw [Job.outcome_bind, Job.outcome_record_noted]
  exact ⟨_, rfl⟩

end Backup

namespace Save

open Files (HasText)

variable {style : Locale.Style} {directory code canonical path saved t : Text}
  {texts : Dictionary Text} {backup : Bool} {w w' : World} {result : Except Fault Text}

/-- A save changes nothing about what can be written. -/
theorem Saving.isWritable (h : Saving style path code texts backup w result w') (other : Text) :
    w'.isWritable other = w.isWritable other := by
  cases h with
  | unsecured hsame => rcases hsame with rfl | rfl <;> rfl
  | refused hsecured => exact hsecured.isWritable other
  | saved hsecured => exact hsecured.isWritable other

/-- A save that ends with a result has read the file, if it was there. -/
theorem Saving.exists_hasText (h : Saving style path code texts backup w (.ok saved) w')
    (hfile : w.disk.isFile (.ofText path) = true) : ∃ t, HasText w.disk path t := by
  cases h with
  | saved hsecured =>
    cases hsecured with
    | absent hnone => simp [hfile] at hnone
    | unbacked htext => exact ⟨_, htext⟩
    | backed htext => exact ⟨_, htext⟩

/-- A file that has been saved can be written again. -/
theorem Saving.exists_writeText (hcode : Locale.canonical? code = some code)
    (h : Saving style (localePath directory code) code texts backup w (.ok saved) w')
    (content : Text) :
    ∃ d, w'.disk.write (.ofText (localePath directory code)) (Text.encode content) = .ok d ∧
      Job.outcome (Files.writeText (localePath directory code) content) w' =
        (.ok ⟨⟩, w'.withDisk d) := by
  have hallowed := h.isWritable (localePath directory code)
  cases h with
  | saved hsecured hwritable hwrite =>
    have hname := Locale.isFileName_file hcode
    obtain ⟨d, hwritten⟩ := Disk.exists_write_of_read (Disk.read_write hwrite)
      (Path.getLast?_names_inDirectory directory hname) hname.2.2.1 (Text.encode content)
    refine ⟨d, hwritten, ?_⟩
    exact Files.outcome_writeText_of_writable (hallowed.trans hwritable) hwritten

/-- After a save, no backup of its locale is from a later time than the save. -/
theorem Saving.backup_le (hcode : Locale.canonical? code = some code)
    (hdated : Backup.IsDated directory code w)
    (h : Saving style (localePath directory code) code texts backup w result w') {time : Text}
    (htime : '/' ∉ time)
    (hfile : w'.disk.isFile (.ofText (Backup.path (localePath directory code) time)) = true) :
    time.length = w.now.length ∧ Text.le time w.now = true := by
  have hnow := World.now_mem hdated.runs
  by_cases hsame : time = w.now
  · subst hsame
    exact ⟨rfl, Text.le_refl _⟩
  · obtain ⟨hlast, hname⟩ := Backup.isNamed_path directory (Locale.isFileName_file hcode) htime
    obtain ⟨content, hread⟩ := Disk.isFile_iff.1 hfile
    have hother : ¬ (Backup.path (Locale.file code) time = Locale.file code ∨
        Backup.path (Locale.file code) time = Backup.path (Locale.file code) w.now) := by
      rintro (heq | heq)
      · exact Backup.path_ne_file code heq
      · exact hsame (Backup.path_injective heq)
    -- Any other backup was there before the save, and the clock has not gone back since.
    have hbefore := ((h.changesOnly hcode (World.not_mem_now hdated.ready.times)).read_iff hlast
      hname.2.2.1 hother).1 hread
    obtain ⟨hlength, hle⟩ := hdated.dated time htime (Disk.isFile_iff.2 ⟨content, hbefore⟩)
    exact ⟨hlength.trans (hdated.lengths _ hnow).symm, hle _ hnow⟩

/-- Restoring a file right after a save with a backup brings back the text that the save found. -/
theorem Saving.restores (hcode : Locale.canonical? code = some canonical)
    (hdated : Backup.IsDated directory canonical w)
    (h : Saving style (localePath directory canonical) canonical texts true w (.ok saved) w')
    (htext : HasText w.disk (localePath directory canonical) t) (hmark : t.head? ≠ some '\uFEFF') :
    ∃ w'', Job.outcome (Backup.restore directory code) w' =
        (.ok (Backup.path (localePath directory canonical) w.now), w'') ∧
      HasText w''.disk (localePath directory canonical) t := by
  have hcanonical := Locale.canonical?_canonical hcode
  have hnow := World.not_mem_now hdated.ready.times
  have hready := h.isReady hcanonical hdated.ready
  have hbacked := h.backs_up hcanonical hnow rfl htext
  have hlatest := Backup.getLast?_filesNamed hready.names hcanonical hnow
    (Disk.isFile_iff.2 ⟨_, hbacked⟩) fun other hother hfile => h.backup_le hcanonical hdated hother hfile
  have hspelling : Backup.spelling code = canonical := by
    rw [Backup.spelling, hcode]
    rfl
  have hread : HasText w'.disk (Backup.path (localePath directory canonical) w.now) t :=
    ⟨_, t, hbacked, Text.decode_encode t, (Files.dropMark_of_head? hmark).symm⟩
  obtain ⟨d, hwrite, hwritten⟩ := h.exists_writeText hcanonical t
  have hall : Job.outcome (Backup.all directory (Backup.spelling code)) w' =
      (.ok (w'.disk.filesNamed directory (Backup.pattern canonical)), w') := by
    rw [hspelling]
    exact Backup.outcome_all hready.names hready.directory (Backup.stepsOf_pattern hcanonical)
  obtain ⟨records, hrestored⟩ :=
    Backup.outcome_restore hall hlatest hread (hspelling.symm ▸ hwritten)
  exact ⟨_, hrestored, Text.encode t, t, Disk.read_write hwrite, Text.decode_encode t,
    (Files.dropMark_of_head? hmark).symm⟩

end Save

namespace Backup

variable {style : Locale.Style} {directory code other canonical path : Text}
  {texts : Dictionary Text} {moments : List Moment} {w w₁ w₂ : World}

/-- After any calls on a directory that had no backups, a save with a backup of a file that was there
has read a text. Restoring the locale right after the save, under any spelling of its code, takes the
backup of the save and brings this text back, unless the text starts with a mark of the byte order. -/
theorem restore_undoes_save (hfresh : Call.IsFresh directory w.disk)
    (hclock : Call.ShowsMoments moments w.clock) (calls : List Call)
    (hrun : Call.run style directory calls w = w₁)
    (hcode : Locale.canonical? code = some canonical)
    (hother : Locale.canonical? other = some canonical)
    (hfile : w₁.disk.isFile (.ofText (Save.localePath directory canonical)) = true)
    (hsave : Job.outcome (Save.locale style directory code texts true) w₁ = (.ok path, w₂)) :
    ∃ t, Job.outcome (Files.readText (Save.localePath directory canonical)) w₁ = (.ok t, w₁) ∧
      (t.head? ≠ some '\uFEFF' → ∃ w₃,
        Job.outcome (restore directory other) w₂ =
          (.ok (Backup.path (Save.localePath directory canonical) w₁.now), w₃) ∧
        Job.outcome (Files.readText (Save.localePath directory canonical)) w₃ = (.ok t, w₃)) := by
  have hdated : IsDated directory canonical w₁ :=
    hrun ▸ Call.isDated_run hfresh hclock (Locale.canonical?_canonical hcode) calls
  have hsaving := Save.saving_locale style texts true hdated.ready.directory hcode
  rw [hsave] at hsaving
  obtain ⟨t, htext⟩ := hsaving.exists_hasText hfile
  refine ⟨t, htext.outcome_readText, fun hmark => ?_⟩
  obtain ⟨w₃, hrestored, htext'⟩ := hsaving.restores hother hdated htext hmark
  exact ⟨w₃, hrestored, htext'.outcome_readText⟩

/-- The second of two saves is undone, and the text of the first one is back. -/
theorem restore_undoes_save_of_two_seconds :
    let w : World := ⟨⟨[(["Loc".toList], .directory), (["Loc".toList, "deDE.lua".toList],
        .file (Text.encode "L[\"A\"] = \"a\"\n".toList))], []⟩,
      ["20240102_030405".toList, "20240102_030406".toList], [], fun _ => .timeout [], [], []⟩
    let first : Dictionary Text := .ofList [("A".toList, "b".toList)]
    let second : Dictionary Text := .ofList [("A".toList, "c".toList)]
    let w₁ := Call.run .default "Loc".toList [.save "dede".toList first true] w
    let read := Files.readText "Loc/deDE.lua".toList
    ∃ w₂ w₃, (Job.outcome read w₁).1 = .ok "L[\"A\"] = \"b\"\n".toList ∧
      Job.outcome (Save.locale .default "Loc".toList "DEDE".toList second true) w₁ =
        (.ok "Loc/deDE.lua".toList, w₂) ∧
      (Job.outcome read w₂).1 = .ok "L[\"A\"] = \"c\"\n".toList ∧
      Job.outcome (restore "Loc".toList "deDE".toList) w₂ =
        (.ok "Loc/deDE.lua.20240102_030406.backup".toList, w₃) ∧
      Job.outcome read w₃ = (.ok "L[\"A\"] = \"b\"\n".toList, w₃) := by
  intro w first second w₁ read
  have hfresh : Call.IsFresh "Loc".toList w.disk :=
    .of_places (by decide +kernel) (by decide +kernel) (by decide +kernel)
  have hclock : Call.ShowsMoments
      [⟨⟨2024, 1, 2⟩, 3, 4, 5, 0, none⟩, ⟨⟨2024, 1, 2⟩, 3, 4, 6, 0, none⟩] w.clock :=
    ⟨by decide +kernel, List.cons_ne_nil _ _, by decide +kernel, by decide +kernel⟩
  have hspelled : Locale.canonical? "DEDE".toList = some "deDE".toList := by decide +kernel
  have hspelled' : Locale.canonical? "deDE".toList = some "deDE".toList := by decide +kernel
  have hpath : Save.localePath "Loc".toList "deDE".toList = "Loc/deDE.lua".toList := by
    decide +kernel
  have hbackup : Backup.path (Save.localePath "Loc".toList "deDE".toList) w₁.now =
      "Loc/deDE.lua.20240102_030406.backup".toList := by
    decide +kernel
  have hfile : w₁.disk.isFile (.ofText (Save.localePath "Loc".toList "deDE".toList)) = true := by
    decide +kernel
  have htext : (Job.outcome read w₁).1 = .ok "L[\"A\"] = \"b\"\n".toList := by
    decide +kernel
  have hsaved : (Job.outcome (Save.locale .default "Loc".toList "DEDE".toList second true) w₁).1 =
      .ok "Loc/deDE.lua".toList := by
    decide +kernel
  obtain ⟨w₂, hsave, hchanged⟩ : ∃ w₂,
      Job.outcome (Save.locale .default "Loc".toList "DEDE".toList second true) w₁ =
        (.ok "Loc/deDE.lua".toList, w₂) ∧
      (Job.outcome read w₂).1 = .ok "L[\"A\"] = \"c\"\n".toList :=
    ⟨_, Job.outcome_of_result hsaved, by decide +kernel⟩
  obtain ⟨t, hread, hrestores⟩ := restore_undoes_save hfresh hclock [.save "dede".toList first true]
    (Eq.refl w₁) hspelled hspelled' hfile hsave
  rw [hpath] at hread
  rw [hbackup, hpath] at hrestores
  obtain rfl : t = "L[\"A\"] = \"b\"\n".toList :=
    Except.ok.inj ((congrArg Prod.fst hread).symm.trans htext)
  obtain ⟨w₃, hrestored, hback⟩ := hrestores (by decide)
  exact ⟨w₂, w₃, htext, hsave, hchanged, hrestored, hback⟩

end Backup

end Phrasebook
