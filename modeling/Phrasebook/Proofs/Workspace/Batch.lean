import Phrasebook.Proofs.Workspace.Written

/-!
# What a batch of saves writes

A save that ends with a result has written one text: that of the file of its locale, merged with
the new texts, or the new file of machine translations. A batch that ends with a result has written
one text for each of its locales, each made of the text that the file had before the batch.
-/

namespace Phrasebook.Save

open Files (HasText)
open Job (Triple)

variable {style : Locale.Style} {directory code : Text} {d : Disk} {texts : List (Text × Text)}

/-- The path of the file of a locale ends with the name of the file. -/
theorem isNamed_localePath (hcode : Locale.canonical? code = some code) :
    Path.IsNamed (localePath directory code) (Locale.file code) :=
  Path.isNamed_inDirectory directory (Locale.isFileName_file hcode)

/-- A text is written last. -/
theorem writeText_written (path content : Text) :
    Triple (Written d texts) (Files.writeText path content)
      (fun _ => Written d (texts ++ [(path, content)])) fun _ => True := by
  refine (Files.writeText_triple path content fun _ _ => trivial).weaken (fun _ hd => hd) ?_
    fun _ hd => hd
  rintro _ d' ⟨d₁, hwritten, hwrite⟩
  exact hwritten.text hwrite

/-- A backup does not count. -/
theorem backup_written (file content : Text) :
    Triple (Written d texts) (Backup.write file content) (fun _ => Written d texts)
      fun _ => True := by
  refine Triple.bind Triple.time fun time => ?_
  refine Triple.bind (R := fun _ => Written d texts) ?_ fun _ => Triple.bind Triple.record fun _ =>
    Triple.pure fun _ h => h
  refine (Files.writeText_triple _ _ fun _ _ => trivial).weaken (fun _ hd => hd) ?_ fun _ hd => hd
  rintro _ d' ⟨d₁, hwritten, hwrite⟩
  exact hwritten.backup hwrite

/-- The lines of a file are at hand, and it is backed up when that is asked for. -/
theorem existingLines_written {path t : Text} (backup : Bool)
    (htext : ∀ d', Written d texts d' → HasText d' path t) :
    Triple (Written d texts) (existingLines path backup)
      (fun r d' => Written d texts d' ∧ r = (some (Text.lines t), Text.newlineOf t))
      fun _ => True := by
  refine Triple.bind (Files.isFile_triple path) fun b => ?_
  cases b with
  | false =>
    refine Triple.pure fun d' hd' => ?_
    obtain ⟨content, t', hread, -⟩ := htext d' hd'.1
    rw [Disk.isFile_iff.2 ⟨content, hread⟩] at hd'
    simp at hd'
  | true =>
    refine Triple.bind (Files.readText_triple path fun _ _ => trivial) fun s => ?_
    have hsame : ∀ d', ((Written d texts d' ∧ d'.isFile (.ofText path) = true) ∧
        HasText d' path s) → Written d texts d' ∧ s = t := fun d' hd' =>
      ⟨hd'.1.1, hd'.2.unique (htext d' hd'.1.1)⟩
    refine Triple.of_disk fun d₀ hd₀ => ?_
    obtain ⟨hwritten, rfl⟩ := hsame d₀ hd₀
    refine Triple.weaken (P := Written d texts) ?_ (fun _ hd => hd ▸ hwritten) (fun _ _ h => h)
      fun _ h => h
    cases backup with
    | false => exact Triple.pure fun d' hd' => ⟨hd', rfl⟩
    | true =>
      exact Triple.bind (Triple.discard (backup_written path s)) fun _ =>
        Triple.pure fun d' hd' => ⟨hd', rfl⟩

/-- A save that ends with a result has written the merged text of the file of its locale. -/
theorem locale_written {t : Text} (hcode : Locale.canonical? code = some code)
    (htext : HasText d (localePath directory code) t)
    (hother : ∀ w ∈ texts, ∃ other, Path.IsNamed w.1 other ∧ other ≠ Locale.file code)
    (entries : Dictionary Text) (backup : Bool) :
    Triple (Written d texts) (Save.locale style directory code entries backup)
      (fun _ => Written d (texts ++
        [(localePath directory code, mergedText style code entries t)])) fun _ => True := by
  have hkept : ∀ d', Written d texts d' → HasText d' (localePath directory code) t := fun d' h =>
    h.hasText (isNamed_localePath hcode) (fun start => ne_backup code start) hother htext
  have hspelled : requireLocale code = pure code := by
    rw [requireLocale, hcode]
  rw [Save.locale]
  refine Triple.bind (Files.requireDirectory_triple _ _ fun _ _ => trivial).forget fun _ => ?_
  rw [hspelled, pure_bind]
  refine Triple.bind (existingLines_written backup hkept) fun _ => ?_
  refine Triple.of_disk fun d₀ hd₀ => ?_
  obtain ⟨hwritten, rfl⟩ := hd₀
  refine Triple.weaken (P := Written d texts) ?_ (fun _ hd => hd ▸ hwritten) (fun _ _ h => h)
    fun _ h => h
  refine Triple.bind Triple.recordAll fun _ => ?_
  exact Triple.bind (writeText_written _ _) fun _ => Triple.bind Triple.record fun _ =>
    Triple.pure fun _ hd => hd

/-- A batch that ends with a result has written the merged texts of the files of its locales. -/
theorem batch_written {report : SaveProgress → Job Unit}
    (hreport : ∀ (P : Disk → Prop) p, Triple P (report p) (fun _ => P) fun _ => True)
    (saves : Dictionary (Dictionary Text)) (backup : Bool) (text : Text → Text)
    (hsaves : ∀ e ∈ saves.entries, Locale.canonical? e.1 = some e.1 ∧
      HasText d (localePath directory e.1) (text e.1)) :
    Triple (Written d []) (Save.batch style directory saves backup report)
      (fun _ => Written d (saves.entries.map fun e =>
        (localePath directory e.1, mergedText style e.1 e.2 (text e.1)))) fun _ => True := by
  refine Triple.bind (Files.requireDirectory_triple _ _ fun _ _ => trivial).forget fun _ => ?_
  refine Triple.bind (canonicalTexts_triple (fun _ _ => trivial) ∅ _ fun e he =>
    (hsaves e he).1) fun saved => ?_
  refine Triple.of_disk fun d₀ hd₀ => ?_
  obtain ⟨hstart, hentries⟩ := hd₀
  rw [Lexicon.entries_empty, List.nil_append] at hentries
  refine Triple.bind (R := fun b d' => b.failures = [] → Written d (saves.entries.map fun e =>
    (localePath directory e.1, mergedText style e.1 e.2 (text e.1))) d') ?_ fun b => ?_
  · rw [← hentries] at hsaves ⊢
    refine (Triple.foldlM_prefix (S := fun done b d' => b.failures = [] →
      Written d (done.map fun e =>
        (localePath directory e.1, mergedText style e.1 e.2 (text e.1))) d')
        fun before entry after hsplit b => ?_).weaken ?_ (fun _ _ h => h) fun _ h => h
    · obtain ⟨hcode, htext⟩ := hsaves entry (by simp [hsplit])
      rw [List.map_append]
      refine batchStep_triple hreport b _ entry
        (locale_written hcode htext (fun w hw => ?_) entry.2 backup)
      obtain ⟨e, he, rfl⟩ := List.mem_map.1 hw
      refine ⟨_, isNamed_localePath (hsaves e (by simp [hsplit, he])).1, fun hfile => ?_⟩
      have hcodes := Locale.file_injective hfile
      have hdistinct := saved.distinct
      rw [hsplit, List.map_append, List.nodup_append] at hdistinct
      exact hdistinct.2.2 (id e.1) (List.mem_map_of_mem he) (id entry.1) (by simp) hcodes
    · rintro d' rfl _
      exact hstart
  · split
    · rename_i hnone
      exact Triple.pure fun d' hd' => hd' (by simpa using hnone)
    · exact Triple.fail fun _ _ => trivial

/-- Machine translations that are written with a result are written to their file. -/
theorem machine_written (base : Text) (entries : Dictionary Text) (backup : Bool) :
    Triple (Written d texts) (Save.machine style directory base entries backup)
      (fun _ => Written d (texts ++ [(Files.inDirectory directory (Locale.machineFile base),
        machineText style base entries)])) fun _ => True := by
  have hbackup : Triple (Written d texts)
      (Backup.create (Files.inDirectory directory (Locale.machineFile base)))
      (fun _ => Written d texts) fun _ => True :=
    Triple.bind (Files.requireFile_triple _ fun _ _ => trivial).forget fun _ =>
      Triple.bind (Files.readText_triple _ fun _ _ => trivial).forget fun _ =>
        backup_written _ _
  exact (machine_rule hbackup (fun _ _ hwritten hwrite => hwritten.text hwrite)
    (fun _ _ => trivial) backup).weaken (fun _ hd => hd) (fun _ _ hd => hd.2) fun _ hd => hd

end Phrasebook.Save
