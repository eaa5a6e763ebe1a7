import Phrasebook.Proofs.Job.Course
import Phrasebook.Proofs.Workspace.Save

/-!
# How a save goes

The ways in which a save can go: the file cannot be read, its backup cannot be written, the merged
text cannot be written, or all of this is done. What a save has written and how far the clock has gone
on is known in each case.
-/

namespace Phrasebook

namespace Files

variable {path content t : Text} {w : World}

/-- A file is read, or reading ends with a fault; nothing is changed. -/
theorem readText_cases (path : Text) (w : World) :
    (∃ fault, Job.outcome (readText path) w = (.error fault, w)) ∨
      ∃ t, HasText w.disk path t ∧ Job.outcome (readText path) w = (.ok t, w) := by
  cases hread : w.disk.read (.ofText path) with
  | error refusal =>
    refine Or.inl ⟨.disk refusal (Path.ofText path).text, ?_⟩
    rw [readText, Job.outcome_bind, Job.outcome_get]
    simp only [hread, Job.outcome_throw]
  | ok content =>
    cases hdecode : Text.decode content with
    | error fault =>
      refine Or.inl ⟨.undecodable fault, ?_⟩
      rw [readText, Job.outcome_bind, Job.outcome_get]
      simp only [hread, hdecode, Job.outcome_throw]
    | ok t =>
      exact Or.inr ⟨dropMark t, ⟨content, t, hread, hdecode, rfl⟩, outcome_readText hread hdecode⟩

/-- A file with a text is read. -/
theorem HasText.outcome_readText (h : HasText w.disk path t) :
    Job.outcome (readText path) w = (.ok t, w) := by
  obtain ⟨content, t', hread, hdecode, rfl⟩ := h
  exact Files.outcome_readText hread hdecode

end Files

namespace Backup

/-- A backup is written under the time that the clock shows, or a fault leaves all files as they
are. -/
theorem write_cases (file content : Text) (w : World) :
    (∃ fault, Job.outcome (write file content) w = (.error fault, w.tick)) ∨
      ∃ d records, w.disk.write (.ofText (path file w.now)) (Text.encode content) = .ok d ∧
        Job.outcome (write file content) w =
          (.ok (path file w.now), (w.tick.withDisk d).noted records) := by
  rw [write, Job.outcome_bind, Job.outcome_time]
  dsimp only
  rw [Job.outcome_bind]
  rcases Files.writeText_cases (path file w.now) content w.tick with
    ⟨fault, hwritten⟩ | ⟨d, -, hwrite, hwritten⟩
  · rw [hwritten]
    exact Or.inl ⟨fault, rfl⟩
  · rw [hwritten]
    exact Or.inr ⟨d, [⟨.info, "Created backup ".toList ++ path file w.now⟩], hwrite, rfl⟩

/-- A localization directory that exists is not refused. -/
theorem outcome_requireDirectory {directory : Text} {w : World}
    (h : w.disk.isDirectory (.ofText directory) = true) :
    Job.outcome (requireDirectory directory) w = (.ok ⟨⟩, w) := by
  rw [requireDirectory, Files.requireDirectory, Job.outcome_bind, Files.outcome_isDirectory, h]
  rfl

end Backup

namespace Save

open Files (HasText)

variable {style : Locale.Style} {directory code canonical path : Text} {texts : Dictionary Text}
  {backup : Bool} {w w' : World}

/-- The text of the file of a locale after a save, for the text that it had before, if it was
there. -/
def savedText (style : Locale.Style) (code : Text) (texts : Dictionary Text) : Option Text → Text
  | some t => mergedText style code texts t
  | none => Text.joinLines (Locale.fileLines style code texts none) Text.Newline.lf.text

/-- What is known of a file before it is merged: its lines and how they end. -/
def linesOf : Option Text → Option (List Text) × Text.Newline
  | some t => (some (Text.lines t), Text.newlineOf t)
  | none => (none, .lf)

/-- A file is ready to be merged: it is not there, or its text is at hand, with a backup written
under the time of the clock when one is asked for. -/
inductive Secured (path : Text) (backup : Bool) (w : World) : Option Text → World → Prop where
  /-- There is no file. -/
  | absent (h : w.disk.isFile (.ofText path) = false) : Secured path backup w none w
  /-- No backup is asked for. -/
  | unbacked {t : Text} (h : HasText w.disk path t) (hbackup : backup = false) :
      Secured path backup w (some t) w
  /-- The text has been written to a backup. -/
  | backed {t : Text} {d : Disk} {records : List Record} (h : HasText w.disk path t)
      (hbackup : backup = true)
      (hwrite : w.disk.write (.ofText (Backup.path path w.now)) (Text.encode t) = .ok d) :
      Secured path backup w (some t) ((w.tick.withDisk d).noted records)

/-- A file is ready to be merged, or a fault leaves all files as they are. -/
theorem existingLines_cases (path : Text) (backup : Bool) (w : World) :
    (∃ fault w', Job.outcome (existingLines path backup) w = (.error fault, w') ∧
        (w' = w ∨ w' = w.tick)) ∨
      ∃ t w', Secured path backup w t w' ∧
        Job.outcome (existingLines path backup) w = (.ok (linesOf t), w') := by
  rw [existingLines, Job.outcome_bind, Files.outcome_isFile]
  dsimp only
  cases hfile : w.disk.isFile (.ofText path) with
  | false => exact Or.inr ⟨none, w, .absent hfile, rfl⟩
  | true =>
    rw [if_pos rfl, Job.outcome_bind]
    rcases Files.readText_cases path w with ⟨fault, hread⟩ | ⟨t, htext, hread⟩
    · rw [hread]
      exact Or.inl ⟨fault, w, rfl, Or.inl rfl⟩
    · rw [hread]
      cases backup with
      | false => exact Or.inr ⟨some t, w, .unbacked htext rfl, rfl⟩
      | true =>
        have hdiscard : ∀ (job : Job Text) (rest : Job (Option (List Text) × Text.Newline)),
            (do discard job; rest) = job >>= fun _ => rest := fun job rest => by
          change ((Function.const Text PUnit.unit <$> job) >>= fun _ => rest) = _
          rw [map_eq_pure_bind, bind_assoc]
          rfl
        dsimp only
        rw [if_pos rfl, hdiscard, Job.outcome_bind]
        rcases Backup.write_cases path t w with ⟨fault, hwritten⟩ | ⟨d, records, hwrite, hwritten⟩
        · rw [hwritten]
          exact Or.inl ⟨fault, w.tick, rfl, Or.inr rfl⟩
        · rw [hwritten]
          exact Or.inr ⟨some t, _, .backed htext rfl hwrite, rfl⟩

/-- What becomes of a save: a fault before anything is written to the file, with or without a backup,
or the saved text in the file. -/
inductive Saving (style : Locale.Style) (path code : Text) (texts : Dictionary Text) (backup : Bool)
    (w : World) : Except Fault Text → World → Prop where
  /-- The file cannot be read, or its backup cannot be written. -/
  | unsecured {fault : Fault} {w' : World} (h : w' = w ∨ w' = w.tick) :
      Saving style path code texts backup w (.error fault) w'
  /-- The saved text cannot be written. -/
  | refused {fault : Fault} {t : Option Text} {w' : World} {records : List Record}
      (h : Secured path backup w t w') :
      Saving style path code texts backup w (.error fault) (w'.noted records)
  /-- The saved text is written. -/
  | saved {t : Option Text} {w' : World} {d : Disk} {records : List Record}
      (h : Secured path backup w t w') (hallowed : w.isWritable path = true)
      (hwrite : w'.disk.write (.ofText path) (Text.encode (savedText style code texts t)) = .ok d) :
      Saving style path code texts backup w (.ok path) ((w'.withDisk d).noted records)

/-- Securing a file changes nothing about what can be written. -/
theorem Secured.isWritable {t : Option Text} (h : Secured path backup w t w') (other : Text) :
    w'.isWritable other = w.isWritable other := by
  cases h <;> rfl

/-- Every save goes in one of these ways. -/
theorem saving_locale (style : Locale.Style) (texts : Dictionary Text) (backup : Bool)
    (hdirectory : w.disk.isDirectory (.ofText directory) = true)
    (hcode : Locale.canonical? code = some canonical) :
    Saving style (localePath directory canonical) canonical texts backup w
      (Job.outcome (Save.locale style directory code texts backup) w).1
      (Job.outcome (Save.locale style directory code texts backup) w).2 := by
  have hspelled : requireLocale code = pure canonical := by
    rw [requireLocale, hcode]
  rw [Save.locale, Job.outcome_bind, Backup.outcome_requireDirectory hdirectory]
  dsimp only
  rw [hspelled, pure_bind, Job.outcome_bind]
  rcases existingLines_cases (localePath directory canonical) backup w with
    ⟨fault, w₁, hlines, hsame⟩ | ⟨t, w₁, hsecured, hlines⟩
  · rw [hlines]
    exact .unsecured hsame
  · have htext : Text.joinLines (Locale.fileLines style canonical texts (linesOf t).1)
        (linesOf t).2.text = savedText style canonical texts t := by
      cases t <;> rfl
    rw [hlines]
    dsimp only
    rw [Job.outcome_bind, Job.outcome_recordAll_noted]
    dsimp only
    rw [Job.outcome_bind, Files.writeLines, htext]
    generalize hrecords : Locale.fileRecords style texts (linesOf t).1 = records
    rcases Files.writeText_cases (localePath directory canonical) (savedText style canonical texts t)
        (w₁.noted records) with ⟨fault, hwritten⟩ | ⟨d, hallowed, hwrite, hwritten⟩
    · rw [hwritten]
      exact .refused hsecured
    · rw [hwritten]
      dsimp only
      rw [Job.outcome_bind, Job.outcome_record_noted, World.noted_withDisk, World.noted_noted]
      exact .saved hsecured ((hsecured.isWritable _).symm.trans hallowed) hwrite

end Save

end Phrasebook
