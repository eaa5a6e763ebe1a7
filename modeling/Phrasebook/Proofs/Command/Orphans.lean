import Phrasebook.Proofs.Command.KeptTexts
import Phrasebook.Proofs.Command.Snapshot
import Phrasebook.Proofs.Locale.Cleared
import Phrasebook.Proofs.Workspace.Batch

/-!
# What a clean-up of orphans leaves

The file of each locale with orphans is merged with texts that clear them, the file of each base
locale with orphans among its machine translations is written without them, and every other file of
the localization directory is left. When the merges reach the orphans, only keys that are used are
stored afterwards.
-/

namespace Phrasebook.Clean

open Files (HasText textAt)
open Job (Triple)
open Save (localePath mergedText machineText)
open Text (isBlankText)

variable {s : Session} {d d' : Disk} {valid : KeySet} {code base path name key t : Text}

/-- The files that a clean-up of orphans writes, with their texts. -/
def cleanedTexts (s : Session) (d : Disk) (valid : KeySet) : List (Text × Text) :=
  ((orphanCodes (s.dataOf d) valid).map fun code =>
    (localePath s.directory code, mergedText s.style code (textsToSave (s.dataOf d) valid code)
      (textAt d (localePath s.directory code)))) ++
  (orphanBases (s.dataOf d) valid).map fun base =>
    (s.machinePath base, machineText s.style base (textsToWrite (s.dataOf d) valid base))

/-- The text that a clean-up of orphans leaves in a file of the localization directory. -/
def textAfter (s : Session) (d : Disk) (valid : KeySet) (path : Text) : Text :=
  match (cleanedTexts s d valid).lookup path with
  | some t => Files.dropMark t
  | none => textAt d path

/-- A clean-up reaches the orphans: it reads the locale files that it writes, and can clear their
orphans; what it writes for machine translations assigns no other keys than they have; and nothing
that it writes starts with a mark of the byte order, which would be dropped. -/
structure Reaches (s : Session) (d : Disk) (valid : KeySet) : Prop where
  /-- The file that is loaded last for a locale has the name that the catalog gives it. -/
  named : ∀ code ∈ orphanCodes (s.dataOf d) valid,
    s.fileOf? d code = some (localePath s.directory code)
  /-- The orphans of a locale can be cleared. -/
  clearable : ∀ code ∈ orphanCodes (s.dataOf d) valid, Locale.Clearable s.settings.scan.table valid
    (Text.lines (textAt d (localePath s.directory code)))
  /-- A line that is written for a machine translation assigns no other key. -/
  keys : ∀ base ∈ orphanBases (s.dataOf d) valid,
    ∀ e ∈ (s.entriesAt d (s.machinePath base)).texts.entries, valid.contains e.1 = true →
      isBlankText e.2 = false → Locale.keepsKey s.settings.scan.table e.1 e.2 = true
  /-- The header of a file of machine translations has no other lines. -/
  header : orphanBases (s.dataOf d) valid ≠ [] →
    '\n' ∉ s.settings.files.addon ∧ '\n' ∉ s.settings.files.expression
  /-- No text that is written starts with a mark of the byte order. -/
  unmarked : ∀ w ∈ cleanedTexts s d valid, w.2.head? ≠ some '\uFEFF'

/-- Something is written for a locale or a base locale with orphans. -/
theorem exists_of_mem_cleanedTexts {w : Text × Text} (h : w ∈ cleanedTexts s d valid) :
    (∃ code ∈ orphanCodes (s.dataOf d) valid, w = (localePath s.directory code,
      mergedText s.style code (textsToSave (s.dataOf d) valid code)
        (textAt d (localePath s.directory code)))) ∨
    ∃ base ∈ orphanBases (s.dataOf d) valid,
      w = (s.machinePath base,
        machineText s.style base (textsToWrite (s.dataOf d) valid base)) := by
  rw [cleanedTexts, List.mem_append, List.mem_map, List.mem_map] at h
  simpa only [eq_comm] using h

/-- The catalog spells the code of a locale with orphans. -/
theorem canonical?_of_mem_orphanCodes (h : code ∈ orphanCodes (s.dataOf d) valid) :
    Locale.canonical? code = some code :=
  Session.canonical?_of_mem_codes (List.mem_filter.1 h).1

/-- Only base locales of the catalog have machine translations with orphans. -/
theorem mem_machineBases_of_mem_orphanBases (h : base ∈ orphanBases (s.dataOf d) valid) :
    base ∈ Locale.machineBases :=
  Session.mem_machineBases_of_mem_bases (List.mem_filter.1 h).1

/-- A file that is written has the path of a file in the directory. -/
theorem exists_isNamed_of_mem_cleanedTexts {w : Text × Text} (h : w ∈ cleanedTexts s d valid) :
    ∃ name, w.1 = Files.inDirectory s.directory name ∧ Path.IsNamed w.1 name := by
  rcases exists_of_mem_cleanedTexts h with ⟨code, hcode, rfl⟩ | ⟨base, hbase, rfl⟩
  · exact ⟨_, rfl, Save.isNamed_localePath (canonical?_of_mem_orphanCodes hcode)⟩
  · exact ⟨_, rfl, Session.isNamed_machinePath (mem_machineBases_of_mem_orphanBases hbase)⟩

/-- What is written under the name of a file is known by this name. -/
theorem of_isNamed_of_mem_cleanedTexts {w : Text × Text} (h : w ∈ cleanedTexts s d valid)
    (hname : Path.IsNamed w.1 name) :
    (∃ code ∈ orphanCodes (s.dataOf d) valid, name = Locale.file code ∧
      w = (localePath s.directory code,
        mergedText s.style code (textsToSave (s.dataOf d) valid code)
          (textAt d (localePath s.directory code)))) ∨
    ∃ base ∈ orphanBases (s.dataOf d) valid, name = Locale.machineFile base ∧
      w = (s.machinePath base,
        machineText s.style base (textsToWrite (s.dataOf d) valid base)) := by
  rcases exists_of_mem_cleanedTexts h with ⟨code, hcode, rfl⟩ | ⟨base, hbase, rfl⟩
  · have hfile := @Save.isNamed_localePath s.directory code (canonical?_of_mem_orphanCodes hcode)
    exact Or.inl ⟨code, hcode, hname.unique hfile, rfl⟩
  · have hfile := Session.isNamed_machinePath (s := s) (mem_machineBases_of_mem_orphanBases hbase)
    exact Or.inr ⟨base, hbase, hname.unique hfile, rfl⟩

/-- What is written under one name is one text. -/
theorem eq_of_isNamed_of_mem_cleanedTexts {w w' : Text × Text} (h : w ∈ cleanedTexts s d valid)
    (h' : w' ∈ cleanedTexts s d valid) (hname : Path.IsNamed w.1 name)
    (hname' : Path.IsNamed w'.1 name) : w = w' := by
  rcases of_isNamed_of_mem_cleanedTexts h hname with
      ⟨code, hcode, hfile, rfl⟩ | ⟨base, hbase, hfile, rfl⟩ <;>
    rcases of_isNamed_of_mem_cleanedTexts h' hname' with
      ⟨code', hcode', hfile', rfl⟩ | ⟨base', hbase', hfile', rfl⟩
  · rw [Locale.file_injective (hfile.symm.trans hfile')]
  · exact absurd (hfile.symm.trans hfile') (Locale.file_ne_machineFile
      (canonical?_of_mem_orphanCodes hcode) (mem_machineBases_of_mem_orphanBases hbase'))
  · exact absurd (hfile'.symm.trans hfile) (Locale.file_ne_machineFile
      (canonical?_of_mem_orphanCodes hcode') (mem_machineBases_of_mem_orphanBases hbase))
  · rw [Locale.eq_of_machineFile_eq (mem_machineBases_of_mem_orphanBases hbase)
      (mem_machineBases_of_mem_orphanBases hbase') (hfile.symm.trans hfile')]

/-- Without orphans there is nothing to write. -/
theorem cleanedTexts_eq_nil (h : ((s.dataOf d).orphansByFile valid).entries = []) :
    cleanedTexts s d valid = [] := by
  obtain ⟨hcodes, hbases⟩ := DataSet.orphansByFile_entries_eq_nil_iff.1 h
  have hcodes' : orphanCodes (s.dataOf d) valid = [] :=
    List.filter_eq_nil_iff.2 fun code hcode => by simp [hcodes code hcode]
  have hbases' : orphanBases (s.dataOf d) valid = [] :=
    List.filter_eq_nil_iff.2 fun base hbase => by simp [hbases base hbase]
  rw [cleanedTexts, hcodes', hbases', List.map_nil, List.map_nil, List.append_nil]

/-- The removal of all orphans writes the files that have some: a batch of saves writes those of the
locales, and one file after another follows for the machine translations. -/
theorem removeAll_written (htree : d.IsTree)
    (hnamed : ∀ code ∈ orphanCodes (s.dataOf d) valid,
      s.fileOf? d code = some (localePath s.directory code)) (backup : Bool) :
    Triple (Written d []) (do
      let (cleaned, saves) ← removeOrphans valid (s.dataOf d) ∅ (s.dataOf d).codes
      unless saves.isEmpty do
        discard <| Save.batch s.style s.directory saves backup showSave
      removeMachineOrphans s valid backup cleaned cleaned.bases)
      (fun _ => Written d (cleanedTexts s d valid)) fun _ => True := by
  let saved : List (Text × Text) := (orphanCodes (s.dataOf d) valid).map fun code =>
    (localePath s.directory code, mergedText s.style code (textsToSave (s.dataOf d) valid code)
      (textAt d (localePath s.directory code)))
  let write (base : Text) : Text × Text :=
    (s.machinePath base, machineText s.style base (textsToWrite (s.dataOf d) valid base))
  refine removeAll_triple (S := fun done => Written d (saved ++ done.map write))
    (fun hnil d hd => ?_) (fun saves hsaves => ?_) fun done base hbase => ?_
  · simpa [saved, hnil] using hd
  · have hbatch : Triple (Written d [])
        (Save.batch s.style s.directory saves backup showSave) _ _ :=
      Save.batch_written (fun _ _ => Triple.print) saves backup
        (fun code => textAt d (localePath s.directory code)) fun e he => ?_
    · rw [hsaves, List.map_map] at hbatch
      rw [List.map_nil, List.append_nil]
      exact hbatch
    · rw [hsaves] at he
      obtain ⟨code, hcode, rfl⟩ := List.mem_map.1 he
      exact ⟨canonical?_of_mem_orphanCodes hcode, Files.hasText_textAt htree
        (Session.isFile_of_fileOf? htree (hnamed code hcode))⟩
  · rw [List.map_append, ← List.append_assoc]
    exact Save.machine_written base _ backup

/-- A clean-up of orphans that ends with a result has written the files with orphans. -/
theorem written_of_orphans {backup : Bool} {w w' : World} {summary : Glue.Summary}
    (htree : w.disk.IsTree)
    (hnamed : ∀ code ∈ orphanCodes (s.dataOf w.disk) summary.keys,
      s.fileOf? w.disk code = some (localePath s.directory code))
    (hrun : Job.outcome (Clean.orphans s backup) w = (.ok ⟨⟩, w'))
    (hscan : (Job.outcome s.scan w).1 = .ok summary) :
    Written w.disk (cleanedTexts s w.disk summary.keys) w'.disk := by
  obtain ⟨w₁, hdisk, hrest⟩ := Session.exists_of_outcome_scan_bind hrun hscan
  obtain ⟨data, w₂, hload, hrest⟩ := Job.exists_of_outcome_bind hrest
  obtain ⟨-, rfl, hsame⟩ := s.eq_dataOf_of_outcome (hdisk ▸ htree) hload
  rw [hdisk] at hrest hsame
  have hstart : Written w.disk [] w₂.disk := hsame ▸ .start
  refine Triple.result (P := Written w.disk []) (E := fun _ => True)
    (Q := fun _ => Written w.disk (cleanedTexts s w.disk summary.keys)) ?_ hstart hrest
  dsimp only
  split
  · rename_i hnone
    rw [cleanedTexts_eq_nil (List.isEmpty_iff.1 hnone)]
    exact Triple.print
  · generalize ((s.dataOf w.disk).orphansByFile summary.keys).entries = shown
    rw [DataSet.copy_eq]
    exact Triple.bind (Triple.forM fun _ _ => Triple.print) fun _ =>
      removeAll_written htree hnamed backup

/-- A file with orphans assigns one of them. -/
theorem exists_assignment_of_orphanKeys
    (h : DataSet.orphanKeys (some (s.entriesAt d path).texts) valid ≠ []) :
    ∃ a ∈ Locale.assignments s.settings.scan.table (Text.lines (textAt d path)),
      valid.contains a.key = false := by
  obtain ⟨orphan, horphan⟩ := List.exists_mem_of_ne_nil _ h
  obtain ⟨hmem, hinvalid⟩ := DataSet.mem_orphanKeys.1 horphan
  obtain ⟨e, he, rfl⟩ := List.mem_map.1 hmem
  obtain ⟨a, ha, hk⟩ := Locale.exists_assignment_of_mem_entries he
  exact ⟨a, ha, hk ▸ hinvalid⟩

/-- A locale with orphans whose file is read has the texts of the file. -/
theorem texts_of_mem_orphanCodes (hreach : Reaches s d valid)
    (h : code ∈ orphanCodes (s.dataOf d) valid) :
    (s.dataOf d).texts.get? code = some (s.entriesAt d (localePath s.directory code)).texts ∧
      DataSet.orphanKeys (some (s.entriesAt d (localePath s.directory code)).texts) valid ≠ [] := by
  obtain ⟨texts, htexts, horphans⟩ := exists_texts_of_mem_orphanCodes h
  have hfile := s.get?_texts_dataOf (d := d) (canonical?_of_mem_orphanCodes h)
  rw [hreach.named code h, Option.map_some, htexts] at hfile
  obtain rfl := Option.some.inj hfile
  exact ⟨htexts, horphans⟩

/-- A base locale with orphans has the machine translations of its file. -/
theorem texts_of_mem_orphanBases (h : base ∈ orphanBases (s.dataOf d) valid) :
    d.isFile (.ofText (s.machinePath base)) = true ∧
      (s.dataOf d).machine.get? base = some (s.entriesAt d (s.machinePath base)).texts ∧
      DataSet.orphanKeys (some (s.entriesAt d (s.machinePath base)).texts) valid ≠ [] := by
  obtain ⟨texts, htexts, horphans⟩ := exists_texts_of_mem_orphanBases h
  have hfile := s.get?_machine_dataOf (d := d) (mem_machineBases_of_mem_orphanBases h)
  split_ifs at hfile with hexists
  · rw [htexts] at hfile
    obtain rfl := Option.some.inj hfile
    exact ⟨hexists, htexts, horphans⟩
  · simp [htexts] at hfile

/-- A file that is written was on the disk before, and assigned an orphan. -/
theorem assigned_of_mem_cleanedTexts (htree : d.IsTree) (hreach : Reaches s d valid)
    {w : Text × Text} (h : w ∈ cleanedTexts s d valid) :
    d.isFile (.ofText w.1) = true ∧
      ∃ a ∈ Locale.assignments s.settings.scan.table (Text.lines (textAt d w.1)),
        valid.contains a.key = false := by
  rcases exists_of_mem_cleanedTexts h with ⟨code, hcode, rfl⟩ | ⟨base, hbase, rfl⟩
  · exact ⟨Session.isFile_of_fileOf? htree (hreach.named code hcode),
      exists_assignment_of_orphanKeys (texts_of_mem_orphanCodes hreach hcode).2⟩
  · obtain ⟨hfile, -, horphans⟩ := texts_of_mem_orphanBases hbase
    exact ⟨hfile, exists_assignment_of_orphanKeys horphans⟩

/-- A file that is written has its new text afterwards. -/
theorem textAt_of_mem_cleanedTexts (hreach : Reaches s d valid)
    (h : Written d (cleanedTexts s d valid) d') {w : Text × Text}
    (hw : w ∈ cleanedTexts s d valid) : textAt d' w.1 = w.2 := by
  obtain ⟨name, -, hnamed⟩ := exists_isNamed_of_mem_cleanedTexts hw
  have hbackup : ∃ t, name = t ++ ".lua".toList := by
    rcases of_isNamed_of_mem_cleanedTexts hw hnamed with
      ⟨code, -, rfl, -⟩ | ⟨base, hbase, rfl, -⟩
    · exact ⟨code, rfl⟩
    · exact Locale.exists_machineFile_eq (mem_machineBases_of_mem_orphanBases hbase)
  obtain ⟨t, rfl⟩ := hbackup
  rw [← Files.dropMark_of_head? (hreach.unmarked w hw)]
  refine (h.hasText_of_mem hnamed (Save.ne_backup t) hw fun w' hw' => ?_).textAt_eq
  obtain ⟨other, -, hnamed'⟩ := exists_isNamed_of_mem_cleanedTexts hw'
  refine ⟨other, hnamed', fun hsame => ?_⟩
  rw [eq_of_isNamed_of_mem_cleanedTexts hw' hw (hsame ▸ hnamed') hnamed]

/-- The text that is left in a file is the one that is written, if there is one, or else that of the
file. -/
theorem textAfter_cases (s : Session) (d : Disk) (valid : KeySet) (path : Text) :
    (∃ t, (path, t) ∈ cleanedTexts s d valid ∧ textAfter s d valid path = Files.dropMark t) ∨
      (∀ w ∈ cleanedTexts s d valid, w.1 ≠ path) ∧ textAfter s d valid path = textAt d path := by
  unfold textAfter
  cases hlookup : (cleanedTexts s d valid).lookup path with
  | some t =>
    obtain ⟨before, after, hsplit, -⟩ := List.lookup_eq_some_iff.1 hlookup
    exact Or.inl ⟨t, by simp [hsplit], rfl⟩
  | none =>
    refine Or.inr ⟨fun w hw hpath => ?_, rfl⟩
    have hunwritten := List.lookup_eq_none_iff.1 hlookup w hw
    simp [hpath] at hunwritten

/-- A source file of the directory has the text that the clean-up leaves. -/
theorem textAt_of_mem_sourceFiles (htree : d.IsTree) (hreach : Reaches s d valid)
    (h : Written d (cleanedTexts s d valid) d') (hpath : path ∈ d.sourceFiles s.directory) :
    textAt d' path = textAfter s d valid path := by
  rcases textAfter_cases s d valid path with ⟨t, hmem, htext⟩ | ⟨hnone, htext⟩
  · rw [htext, textAt_of_mem_cleanedTexts hreach h hmem,
      Files.dropMark_of_head? (hreach.unmarked _ hmem)]
  · rw [htext]
    exact Files.textAt_congr (h.read_eq_of_mem_sourceFiles htree hpath
      (fun w hw => exists_isNamed_of_mem_cleanedTexts hw) hnone)

/-- A file that is merged with texts that clear its orphans is read again line by line. -/
theorem lines_mergedText (style : Locale.Style) (code : Text) (valid : KeySet)
    (hassigned : Locale.assignments style.table (Text.lines t) ≠ []) :
    Text.lines (mergedText style code
      (cleared (Locale.Entries.ofLines style.table (Text.lines t)).texts valid) t) =
      (Locale.mergeLines style (Text.lines t) (Locale.upToCase
        (cleared (Locale.Entries.ofLines style.table (Text.lines t)).texts valid))).map
          (Text.newlineOf t).readBack := by
  rw [mergedText, Locale.fileLines_of_assignments hassigned]
  exact Text.lines_joinLines _ _ (Locale.newline_not_mem_mergeLines hassigned
    (fun _ => Text.not_mem_of_mem_lines) (clears_cleared style.table (Text.lines t) valid).spelled)

/-- A file that is merged with texts that clear its orphans is read again with valid keys, which it
had before. -/
theorem valid_of_get?_mergedText (style : Locale.Style) (code : Text)
    (hassigned : Locale.assignments style.table (Text.lines t) ≠ [])
    (hclearable : Locale.Clearable style.table valid (Text.lines t))
    (h : (Locale.Entries.ofLines style.table (Text.lines (mergedText style code
      (cleared (Locale.Entries.ofLines style.table (Text.lines t)).texts valid) t))).texts.get?
        key ≠ none) :
    valid.contains key = true ∧
      (Locale.Entries.ofLines style.table (Text.lines t)).texts.get? key ≠ none := by
  rw [lines_mergedText style code valid hassigned] at h
  obtain ⟨text, htext⟩ := Option.ne_none_iff_exists'.1 h
  obtain ⟨a, ha, hk, -⟩ := Locale.exists_assignment_of_get? htext
  rw [Locale.assignments_readBack] at ha
  obtain ⟨hvalid, b, hb, hsame⟩ :=
    (clears_cleared style.table (Text.lines t) valid).valid_of_mem_mergeLines
      hassigned hclearable ha
  exact ⟨KeySet.contains_congr valid hk ▸ hvalid,
    Locale.get?_ne_none_of_mem_assignments hb (hsame.trans hk)⟩

/-- A legible file that is merged with texts that clear its orphans is legible again. -/
theorem isLegible_mergedText (style : Locale.Style) (code : Text)
    (hassigned : Locale.assignments style.table (Text.lines t) ≠ [])
    (hclearable : Locale.Clearable style.table valid (Text.lines t))
    (hlegible : Locale.IsLegible style.table (Text.lines t)) :
    Locale.IsLegible style.table (Text.lines (mergedText style code
      (cleared (Locale.Entries.ofLines style.table (Text.lines t)).texts valid) t)) := by
  rw [Locale.IsLegible, lines_mergedText style code valid hassigned, Locale.assignments_readBack]
  exact (clears_cleared style.table (Text.lines t) valid).isLegible_mergeLines hassigned hclearable
    hlegible

/-- A file of machine translations that is written without its orphans is read again with valid
keys, which it had before. -/
theorem valid_of_get?_machineText (style : Locale.Style) (base : Text)
    (htable : Readers.name (.text style.table) = .ok style.table)
    (hassigned : Locale.assignments style.table (Text.lines t) ≠ [])
    (haddon : '\n' ∉ style.addon) (hexpression : '\n' ∉ style.expression)
    (hkeys : ∀ e ∈ (Locale.Entries.ofLines style.table (Text.lines t)).texts.entries,
      valid.contains e.1 = true → isBlankText e.2 = false →
        Locale.keepsKey style.table e.1 e.2 = true)
    (h : (Locale.Entries.ofLines style.table (Text.lines (machineText style base
      (Locale.exactly (DataSet.withoutOrphans
        (Locale.Entries.ofLines style.table (Text.lines t)).texts valid))))).texts.get? key ≠
          none) :
    valid.contains key = true ∧
      (Locale.Entries.ofLines style.table (Text.lines t)).texts.get? key ≠ none := by
  have hentries : ∀ e ∈ (Locale.exactly (DataSet.withoutOrphans
      (Locale.Entries.ofLines style.table (Text.lines t)).texts valid)).entries,
        e ∈ (Locale.Entries.ofLines style.table (Text.lines t)).texts.entries ∧
          valid.contains e.1 = true :=
    fun _ => DataSet.mem_entries_withoutOrphans.1
  obtain ⟨text, htext⟩ := Option.ne_none_iff_exists'.1 h
  obtain ⟨a, ha, hk, -⟩ := Locale.exists_assignment_of_get? htext
  have hlines : ∀ line ∈ Text.lines t, '\n' ∉ line := fun _ => Text.not_mem_of_mem_lines
  rw [machineText, Locale.lines_newFile (Locale.newline_not_mem_table hassigned hlines) haddon
    hexpression (fun code hcode =>
      Locale.newline_not_mem_of_mem_codesOf (List.mem_filter.1 hcode).1) fun e he => ?_,
    Locale.assignments_readBack] at ha
  · obtain ⟨e, he, -, hsame⟩ := Locale.exists_entry_of_mem_newFile
      (Locale.isName_of_assignments htable hassigned)
      (fun e he hb => hkeys e (hentries e he).1 (hentries e he).2 hb) ha
    obtain ⟨hmem, hvalid⟩ := hentries e he
    have hfold := hsame.symm.trans hk
    have hget := Lexicon.get?_eq_some_iff.2 ⟨e.1, hmem, hfold⟩
    exact ⟨KeySet.contains_congr valid hfold ▸ hvalid, by simp [hget]⟩
  · obtain ⟨b, hb, hspelled⟩ := Locale.exists_assignment_of_mem_entries (hentries e he).1
    exact hspelled ▸ Locale.newline_not_mem_key hb hlines

/-- The source files of the directory are the same. -/
theorem sourceFiles_of_written (htree : d.IsTree) (hreach : Reaches s d valid)
    (h : Written d (cleanedTexts s d valid) d') :
    d'.sourceFiles s.directory = d.sourceFiles s.directory :=
  h.sourceFiles (fun w hw => by
    obtain ⟨name, -, hnamed⟩ := exists_isNamed_of_mem_cleanedTexts hw
    exact ⟨name, hnamed⟩)
    (fun _ hw => (assigned_of_mem_cleanedTexts htree hreach hw).1) s.directory

/-- A locale with orphans has valid keys only afterwards, which it had before. -/
theorem valid_of_text?_of_orphans (htree : d.IsTree) (hreach : Reaches s d valid)
    (h : Written d (cleanedTexts s d valid) d')
    (horphans : code ∈ orphanCodes (s.dataOf d) valid)
    (hkey : (s.dataOf d').text? key code ≠ none) :
    valid.contains key = true ∧ (s.dataOf d).text? key code ≠ none := by
  have hcode := canonical?_of_mem_orphanCodes horphans
  have hnamed := hreach.named code horphans
  have hsame : s.fileOf? d' code = s.fileOf? d code := by
    rw [Session.fileOf?, sourceFiles_of_written htree hreach h, Session.fileOf?]
  obtain ⟨htexts, horphanKeys⟩ := texts_of_mem_orphanCodes hreach horphans
  obtain ⟨a, ha, -⟩ := exists_assignment_of_orphanKeys horphanKeys
  have hmem : (localePath s.directory code, mergedText s.style code
      (textsToSave (s.dataOf d) valid code) (textAt d (localePath s.directory code))) ∈
        cleanedTexts s d valid :=
    List.mem_append_left _ (List.mem_map_of_mem horphans)
  have htext := textAt_of_mem_cleanedTexts hreach h hmem
  rw [textsToSave, htexts, Option.getD_some] at htext
  rw [Session.text?_dataOf hcode, hsame, hnamed, Option.bind_some, Session.entriesAt, htext] at hkey
  rw [Session.text?_dataOf hcode, hnamed, Option.bind_some]
  exact valid_of_get?_mergedText s.style code (List.ne_nil_of_mem ha)
    (hreach.clearable code horphans) hkey

/-- A locale without orphans has the texts that it had. -/
theorem text?_of_no_orphans (htree : d.IsTree) (hreach : Reaches s d valid)
    (h : Written d (cleanedTexts s d valid) d') (hloaded : code ∈ (s.dataOf d).codes)
    (horphans : code ∉ orphanCodes (s.dataOf d) valid) (key : Text) :
    (s.dataOf d').text? key code = (s.dataOf d).text? key code := by
  have hcode := Session.canonical?_of_mem_codes hloaded
  obtain ⟨path, hpath⟩ := Session.exists_fileOf?_of_mem_codes hloaded
  obtain ⟨hmem, hlocale⟩ := Scanner.of_lastFile? hpath
  have hsame : s.fileOf? d' code = s.fileOf? d code := by
    rw [Session.fileOf?, sourceFiles_of_written htree hreach h, Session.fileOf?]
  have hread := h.read_eq_of_mem_sourceFiles htree hmem
    (fun w hw => exists_isNamed_of_mem_cleanedTexts hw) fun w hw hwritten => ?_
  · rw [Session.text?_dataOf hcode, hsame, hpath, Option.bind_some, Session.entriesAt,
      Files.textAt_congr hread, ← Session.entriesAt, Session.text?_dataOf hcode, hpath,
      Option.bind_some]
  · obtain ⟨name, -, hnamed⟩ := exists_isNamed_of_mem_cleanedTexts hw
    rcases of_isNamed_of_mem_cleanedTexts hw hnamed with
      ⟨other, hother, hfile, -⟩ | ⟨base, hbase, hfile, -⟩
    · obtain rfl := Scanner.eq_of_locale?_file (hwritten ▸ hfile ▸ hnamed)
        (canonical?_of_mem_orphanCodes hother) hlocale
      exact horphans hother
    · rw [Scanner.locale?_machineFile (hwritten ▸ hfile ▸ hnamed)
        (mem_machineBases_of_mem_orphanBases hbase)] at hlocale
      simp at hlocale

/-- The source locale's texts have legible numbers afterwards when they had before. -/
theorem isLegible_of_written (htree : d.IsTree) (hreach : Reaches s d valid)
    (h : Written d (cleanedTexts s d valid) d') (hlegible : s.IsLegible d) : s.IsLegible d' := by
  by_cases horphans : Locale.source ∈ orphanCodes (s.dataOf d) valid
  · -- The file is merged with its own texts.
    intro t htext
    obtain ⟨htexts, horphanKeys⟩ := texts_of_mem_orphanCodes hreach horphans
    obtain ⟨a, ha, -⟩ := exists_assignment_of_orphanKeys horphanKeys
    have hbefore := hlegible _ (Files.hasText_textAt htree
      (Session.isFile_of_fileOf? htree (hreach.named _ horphans)))
    have hmem : (localePath s.directory Locale.source, mergedText s.style Locale.source
        (textsToSave (s.dataOf d) valid Locale.source)
          (textAt d (localePath s.directory Locale.source))) ∈ cleanedTexts s d valid :=
      List.mem_append_left _ (List.mem_map_of_mem horphans)
    have hafter := textAt_of_mem_cleanedTexts hreach h hmem
    rw [textsToSave, htexts, Option.getD_some] at hafter
    rw [← htext.textAt_eq, ← localePath, hafter]
    exact isLegible_mergedText s.style Locale.source (List.ne_nil_of_mem ha)
      (hreach.clearable _ horphans) hbefore
  · refine hlegible.of_unwritten h fun w hw => ?_
    obtain ⟨name, -, hnamed⟩ := exists_isNamed_of_mem_cleanedTexts hw
    refine ⟨name, hnamed, fun hsame => ?_⟩
    rcases of_isNamed_of_mem_cleanedTexts hw hnamed with
      ⟨code, hcode, hfile, -⟩ | ⟨base, hbase, hfile, -⟩
    · exact horphans (Locale.file_injective (hsame.symm.trans hfile) ▸ hcode)
    · exact Locale.file_ne_machineFile Locale.canonical?_source
        (mem_machineBases_of_mem_orphanBases hbase) (hsame.symm.trans hfile)

/-- A base locale with orphans has valid keys only afterwards, which it had before. -/
theorem valid_of_machineText?_of_orphans
    (htable : Readers.name (.text s.settings.scan.table) = .ok s.settings.scan.table)
    (hreach : Reaches s d valid) (h : Written d (cleanedTexts s d valid) d')
    (horphans : base ∈ orphanBases (s.dataOf d) valid) (hloaded : base ∈ (s.dataOf d').bases)
    (hkey : (s.dataOf d').machineText? key base ≠ none) :
    valid.contains key = true ∧ (s.dataOf d).machineText? key base ≠ none := by
  obtain ⟨-, htexts, horphanKeys⟩ := texts_of_mem_orphanBases horphans
  obtain ⟨a, ha, -⟩ := exists_assignment_of_orphanKeys horphanKeys
  obtain ⟨haddon, hexpression⟩ := hreach.header (List.ne_nil_of_mem horphans)
  have hmem : (s.machinePath base, machineText s.style base
      (textsToWrite (s.dataOf d) valid base)) ∈ cleanedTexts s d valid :=
    List.mem_append_right _ (List.mem_map_of_mem horphans)
  have htext := textAt_of_mem_cleanedTexts hreach h hmem
  rw [textsToWrite, htexts, Option.getD_some] at htext
  rw [Session.machineText?_dataOf hloaded, Session.entriesAt, htext] at hkey
  rw [Session.machineText?_dataOf (List.mem_filter.1 horphans).1]
  exact valid_of_get?_machineText s.style base htable (List.ne_nil_of_mem ha) haddon
    hexpression (hreach.keys base horphans) hkey

/-- A base locale without orphans has the machine translations that it had. -/
theorem machineText?_of_no_orphans (htree : d.IsTree) (hreach : Reaches s d valid)
    (h : Written d (cleanedTexts s d valid) d') (hloaded : base ∈ (s.dataOf d').bases)
    (horphans : base ∉ orphanBases (s.dataOf d) valid) :
    base ∈ (s.dataOf d).bases ∧
      ∀ key, (s.dataOf d').machineText? key base = (s.dataOf d).machineText? key base := by
  have hbase := Session.mem_machineBases_of_mem_bases hloaded
  obtain ⟨t, hfile⟩ := Locale.exists_machineFile_eq hbase
  have hnamed := Session.isNamed_machinePath (s := s) hbase
  rw [hfile] at hnamed
  have hexists : d.isFile (.ofText (s.machinePath base)) = true :=
    (h.isFile_iff hnamed (Save.ne_backup t) fun _ hw =>
      (assigned_of_mem_cleanedTexts htree hreach hw).1).1 ((Session.mem_bases_iff hbase).1 hloaded)
  have hbefore := (Session.mem_bases_iff (s := s) hbase).2 hexists
  have hread := h.read_eq hnamed (Save.ne_backup t) (fun w hw => ?_) hexists
  · refine ⟨hbefore, fun key => ?_⟩
    rw [Session.machineText?_dataOf hloaded, Session.entriesAt, Files.textAt_congr hread,
      ← Session.entriesAt, Session.machineText?_dataOf hbefore]
  · obtain ⟨name, -, hnamed'⟩ := exists_isNamed_of_mem_cleanedTexts hw
    refine ⟨name, hnamed', fun hsame => ?_⟩
    rw [hsame, ← hfile] at hnamed'
    rcases of_isNamed_of_mem_cleanedTexts hw hnamed' with
      ⟨code, hcode, hsame, -⟩ | ⟨other, hother, hsame, -⟩
    · exact Locale.file_ne_machineFile (canonical?_of_mem_orphanCodes hcode) hbase hsame.symm
    · obtain rfl := Locale.eq_of_machineFile_eq hbase
        (mem_machineBases_of_mem_orphanBases hother) hsame
      exact horphans hother

/-- Every key that is stored afterwards is valid, and was stored before. -/
theorem valid_of_isStored
    (htable : Readers.name (.text s.settings.scan.table) = .ok s.settings.scan.table)
    (htree : d.IsTree) (hreach : Reaches s d valid) (h : Written d (cleanedTexts s d valid) d')
    (hstored : (s.dataOf d').IsStored key) :
    valid.contains key = true ∧ (s.dataOf d).IsStored key := by
  rcases hstored with ⟨code, hcode, hkey⟩ | ⟨base, hbase, hkey⟩
  · rw [Session.codes_dataOf_congr (sourceFiles_of_written htree hreach h)] at hcode
    by_cases horphans : code ∈ orphanCodes (s.dataOf d) valid
    · obtain ⟨hvalid, hbefore⟩ := valid_of_text?_of_orphans htree hreach h horphans hkey
      exact ⟨hvalid, Or.inl ⟨code, hcode, hbefore⟩⟩
    · rw [text?_of_no_orphans htree hreach h hcode horphans] at hkey
      have hnone : (s.dataOf d).orphans code valid = [] := by
        simpa [orphanCodes, hcode] using horphans
      exact ⟨DataSet.orphanKeys_eq_nil_iff.1 hnone key hkey, Or.inl ⟨code, hcode, hkey⟩⟩
  · by_cases horphans : base ∈ orphanBases (s.dataOf d) valid
    · obtain ⟨hvalid, hbefore⟩ := valid_of_machineText?_of_orphans htable hreach h horphans
        hbase hkey
      exact ⟨hvalid, Or.inr ⟨base, (List.mem_filter.1 horphans).1, hbefore⟩⟩
    · obtain ⟨hbefore, hsame⟩ := machineText?_of_no_orphans htree hreach h hbase horphans
      rw [hsame] at hkey
      have hnone : (s.dataOf d).machineOrphans base valid = [] := by
        simpa [orphanBases, hbefore] using horphans
      exact ⟨DataSet.orphanKeys_eq_nil_iff.1 hnone key hkey, Or.inr ⟨base, hbefore, hkey⟩⟩

end Phrasebook.Clean
