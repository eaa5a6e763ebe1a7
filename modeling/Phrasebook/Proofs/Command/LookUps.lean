import Phrasebook.Proofs.Command.Renewed
import Phrasebook.Proofs.Glue.Reference

/-!
# What is looked up after a renewal

A renewal writes a header, a line for each machine translation that is kept and a line for each one
that was received. A key stays used when it is looked up in a file that is not written or on the line
of a kept machine translation. Another key of the source locale comes into use only when a line that
is written looks it up, or when a backup is scanned. So it is told by the disk before a renewal and by
the translations that are received whether base locales are due afterwards.
-/

namespace Phrasebook

open Files (textAt)
open Save (IsNoBackup machineText)
open Text (isBlankText Newline)
open Translation (keptEntries missingEntries mem_keptEntries mem_missingEntries)

namespace Session

/-- A file is scanned: the search for source files finds it, outside of the excluded directories. -/
def IsScanned (s : Session) (d : Disk) (path : Text) : Prop :=
  ∃ paths, d.files s.addon.text s.settings.scan.pattern true = .ok paths ∧ path ∈ paths ∧
    Path.isExcluded path s.addon.text s.settings.scan.excluded = false

/-- A scan finds a file again after files have been written. -/
theorem IsScanned.of_written {s : Session} {d d' : Disk} {texts : List (Text × Text)} {path : Text}
    (h : s.IsScanned d path) (hwritten : Written d texts d') : s.IsScanned d' path := by
  obtain ⟨paths, hfiles, hpath, hincluded⟩ := h
  obtain ⟨paths', hfiles', hmore⟩ := hwritten.exists_files hfiles
  exact ⟨paths', hfiles', hmore hpath, hincluded⟩

/-- No backup is scanned in any tree of text files. -/
def ScansNoBackup (s : Session) : Prop :=
  ∀ d : Disk, d.IsTree → ∀ path place, s.IsScanned d path →
    d.locate (.ofText path) = .ok place → IsNoBackup place

/-- A scan for source files scans no backups. -/
theorem scansNoBackup_of_sourcePattern {s : Session}
    (h : s.settings.scan.pattern = sourcePattern) : s.ScansNoBackup := by
  rintro d htree _ place ⟨paths, hfiles, hpath, -⟩ hplace
  rw [h] at hfiles
  obtain ⟨steps, p, hsteps, -, hp, -, rfl⟩ := Disk.exists_of_mem_files hfiles hpath
  obtain rfl : [.anyDepth, .matching sourcePattern] = steps := Except.ok.inj hsteps
  have hreadable := htree.hasFileNames.isReadable_of_mem_search
    (isReadable_of_stepsOf hsteps) (Path.isReadable_ofText s.addon.text) hp
  rw [hreadable.ofText_text] at hplace
  simp only [Disk.search, List.mem_eraseDups, List.mem_flatMap, List.mem_filter,
    List.mem_singleton] at hp
  obtain ⟨directory, -, name, ⟨-, hmatch⟩, rfl⟩ := hp
  have hname := (Bool.and_eq_true_iff.1 hmatch).1
  obtain ⟨parent, -, -, rfl⟩ :=
    (Disk.locate_child_iff (Disk.ne_dots_of_nameMatches hname)).1 hplace
  obtain ⟨t, rfl⟩ := Scanner.nameMatches_sourcePattern_iff.1 hname
  have hlast : (parent ++ [t ++ ".lua".toList]).getLast? = some (t ++ ".lua".toList) := by simp
  exact Save.isNoBackup_of_getLast? hlast

end Session

namespace Renew

variable {s : Session} {data : DataSet} {valid : KeySet} {base key line path : Text}
  {bases : List Text} {place : Location} {w w' : World}

/-- A line that a renewal may write for a base locale. -/
inductive IsRenewalLine (s : Session) (data : DataSet) (valid : KeySet) (base : Text) (w w' : World)
    (line : Text) : Prop where
  /-- The line stands around the entries. -/
  | header (hline : line ∈ s.style.frame
      ((Locale.codesOf base).filter fun code => !Locale.isEnglish code))
  /-- The line is written for a machine translation that is kept. -/
  | kept {e : Text × Text} (he : e ∈ keptEntries data base (some valid))
      (hblank : isBlankText e.2 = false) (hline : line = s.style.line Locale.guardIndent e.1 e.2)
  /-- The line is written for a translation that was received for a missing text. -/
  | received {e : Text × Text} {language t : Text}
      (hlanguage : Locale.language? base = some language)
      (he : e ∈ missingEntries data base (some valid) Locale.source)
      (ht : (e.2, t) ∈ w.translations w' language)
      (hline : line = s.style.line Locale.guardIndent e.1 t)

/-- A key stays used in a renewal: it is looked up in a file that is not written, or on the line of a
machine translation that is kept. -/
inductive StaysUsed (s : Session) (data : DataSet) (valid : KeySet) (bases : List Text) (d : Disk)
    (key : Text) : Prop where
  /-- A line of a scanned file that is not written looks the key up. -/
  | source {path line : Text} {place : Location} {r : Glue.Reference} (hscanned : s.IsScanned d path)
      (hplace : d.locate (.ofText path) = .ok place)
      (hunwritten : ∀ base ∈ bases, isDue data valid base = true →
        d.locate (.ofText (s.machinePath base)) ≠ .ok place)
      (hline : line ∈ Text.lines (textAt d path))
      (hr : r ∈ Glue.references s.scanner.patterns line) (hkey : Text.fold r.key = Text.fold key)
  /-- The value of an assignment in a file that is not written looks the key up. -/
  | value {path line : Text} {r : Glue.Reference} (hpath : path ∈ d.sourceFiles s.directory)
      (hunwritten : ∀ base ∈ bases, isDue data valid base = true → path ≠ s.machinePath base)
      (hline : line ∈ Text.lines (textAt d path))
      (hr : r ∈ Glue.valueReferences s.scanner.patterns line)
      (hkey : Text.fold r.key = Text.fold key)
  /-- A kept machine translation looks the key up. -/
  | keptValue {base : Text} {e : Text × Text} {r : Glue.Reference} (hbase : base ∈ bases)
      (hdue : isDue data valid base = true) (he : e ∈ keptEntries data base (some valid))
      (hblank : isBlankText e.2 = false)
      (hr : r ∈ Glue.valueReferences s.scanner.patterns (s.style.line Locale.guardIndent e.1 e.2))
      (hkey : Text.fold r.key = Text.fold key)
  /-- The line of a kept machine translation in a scanned file looks the key up. -/
  | keptLine {base path : Text} {place : Location} {e : Text × Text} {r : Glue.Reference}
      (hscanned : s.IsScanned d path) (hplace : d.locate (.ofText path) = .ok place)
      (hmachine : d.locate (.ofText (s.machinePath base)) = .ok place) (hbase : base ∈ bases)
      (hdue : isDue data valid base = true) (he : e ∈ keptEntries data base (some valid))
      (hblank : isBlankText e.2 = false)
      (hr : r ∈ Glue.references s.scanner.patterns (s.style.line Locale.guardIndent e.1 e.2))
      (hkey : Text.fold r.key = Text.fold key)

/-- A renewal leaves the use of keys as it is: the keys of the machine translations that stay and of
the texts that were used stay used, and no key of another text comes into use. -/
structure LeavesUses (s : Session) (data : DataSet) (valid : KeySet) (bases : List Text)
    (w w' : World) : Prop where
  /-- No backup is scanned. -/
  backups : s.ScansNoBackup
  /-- The keys of the machine translations that stay are used. -/
  kept : ∀ base ∈ bases, ∀ e ∈ keptEntries data base (some valid),
    (isDue data valid base = true → isBlankText e.2 = false) →
      StaysUsed s data valid bases w.disk e.1
  /-- The used keys of texts that are not blank stay used. -/
  used : ∀ key text, data.text? key Locale.source = some text → isBlankText text = false →
    valid.contains key = true → StaysUsed s data valid bases w.disk key
  /-- No line that is written looks up a key of a text that is not blank and was not used. -/
  unused : ∀ base ∈ bases, isDue data valid base = true →
    ∀ line, IsRenewalLine s data valid base w w' line →
      ∀ r ∈ Glue.references s.scanner.patterns line, ∀ text,
        data.text? r.key Locale.source = some text → isBlankText text = false →
          valid.contains r.key = true

section Settled

variable {written : List (Text × Dictionary Text)}
  (htable : Readers.name (.text s.settings.scan.table) = .ok s.settings.scan.table)
  (h : HasRenewed s (s.dataOf w.disk) valid bases written w w')
  (hread : IsReadBack s (s.dataOf w.disk) valid bases w w')
  (hdistinct : bases.Nodup)

include h hdistinct in
/-- Whatever path leads to the file of a base locale that is written, the text is the one that was
written. -/
theorem HasRenewed.textAt_of_locate {e : Text × Dictionary Text} (he : e ∈ written)
    (hplace : w.disk.locate (.ofText path) = .ok place)
    (hmachine : w.disk.locate (.ofText (s.machinePath e.1)) = .ok place) :
    textAt w'.disk path = machineText s.style e.1 e.2 := by
  have hsame : w'.disk.read (.ofText path) = w'.disk.read (.ofText (s.machinePath e.1)) := by
    simp only [Disk.read, h.disk.locate_iff.2 hplace, h.disk.locate_iff.2 hmachine]
  rw [Files.textAt_congr hsame]
  exact (h.hasText hdistinct he).textAt_eq

include h in
/-- What is read of a path that leads to no backup: the text of a base locale that is written, or what
was read there before. -/
theorem HasRenewed.read_cases (hkept : IsNoBackup place)
    (hplace : w.disk.locate (.ofText path) = .ok place) :
    (∃ e ∈ written, w.disk.locate (.ofText (s.machinePath e.1)) = .ok place) ∨
      w'.disk.read (.ofText path) = w.disk.read (.ofText path) := by
  rcases h.disk.read hkept hplace with ⟨t, ht, hlocate, -⟩ | ⟨-, hsame⟩
  · obtain ⟨e, he, rfl⟩ := List.mem_map.1 ht
    exact Or.inl ⟨e, he, hlocate⟩
  · exact Or.inr hsame

include htable h hread in
/-- The text that is written for a base locale has the lines that are written, up to returns at their
ends. -/
theorem HasRenewed.lines_machineText {e : Text × Dictionary Text} (he : e ∈ written) :
    Text.lines (machineText s.style e.1 e.2) = (Locale.newFile s.style
      ((Locale.codesOf e.1).filter fun code => !Locale.isEnglish code) e.2 []).map
        Newline.lf.readBack := by
  obtain ⟨-, ⟨hline, haddon, hexpression⟩, hkeys⟩ := h.newline_not_mem htable hread he
  exact Locale.lines_newFile hline haddon hexpression
    (fun code hcode => Locale.newline_not_mem_of_mem_codesOf (List.mem_filter.1 hcode).1) hkeys

include htable h hread in
/-- A line of the text that is written for a base locale looks up what a written line does. -/
theorem HasRenewed.exists_renewalLine {e : Text × Dictionary Text} (he : e ∈ written)
    (hline : line ∈ Text.lines (machineText s.style e.1 e.2)) {r : Glue.Reference}
    (hr : r ∈ Glue.references s.scanner.patterns line) :
    ∃ line', IsRenewalLine s (s.dataOf w.disk) valid e.1 w w' line' ∧
      ∃ r' ∈ Glue.references s.scanner.patterns line', r'.key = r.key := by
  rw [h.lines_machineText htable hread he] at hline
  obtain ⟨line', hmem, rfl⟩ := List.mem_map.1 hline
  refine ⟨line', ?_, (Glue.exists_reference_readBack _).1 ⟨r, hr, rfl⟩⟩
  obtain ⟨language, hlanguage⟩ := h.known e.1 (h.due_of_mem he).1
  have hentries := (h.renewed e he).2 language hlanguage
  rcases Locale.mem_newFile hmem with hframe | ⟨x, hx, hblank, rfl⟩
  · exact .header hframe
  · rcases hentries.new x hx with hkept | ⟨text, hmissing, hpair⟩
    · exact .kept hkept hblank rfl
    · exact .received hlanguage hmissing hpair rfl

include htable h hread in
/-- The line of a kept machine translation is written. -/
theorem HasRenewed.exists_line_of_kept (hbase : base ∈ bases)
    (hdue : isDue (s.dataOf w.disk) valid base = true) {e : Text × Text}
    (he : e ∈ keptEntries (s.dataOf w.disk) base (some valid)) (hblank : isBlankText e.2 = false) :
    ∃ texts, (base, texts) ∈ written ∧
      Newline.lf.readBack (s.style.line Locale.guardIndent e.1 e.2) ∈
        Text.lines (machineText s.style base texts) := by
  obtain ⟨texts, hmem⟩ := h.mem_of_due hbase hdue
  obtain ⟨language, hlanguage⟩ := h.known base hbase
  have hentries := (h.renewed _ hmem).2 language hlanguage
  refine ⟨texts, hmem, ?_⟩
  rw [h.lines_machineText htable hread hmem]
  exact List.mem_map_of_mem (Locale.line_mem_newFile (hentries.kept he) hblank)

include h hdistinct in
/-- The file of a base locale that is written is a source file of the directory. -/
theorem HasRenewed.machinePath_mem_sourceFiles (htree : w.disk.IsTree)
    {e : Text × Dictionary Text} (he : e ∈ written) :
    s.machinePath e.1 ∈ w'.disk.sourceFiles s.directory := by
  have hmachine := h.mem_machineBases e he
  obtain ⟨content, -, hcontent, -⟩ := h.hasText hdistinct he
  exact (h.isTree htree).hasFileNames.mem_filesNamed_iff.2 ⟨Locale.machineFile e.1,
    Locale.isFileName_machineFile hmachine,
    Scanner.nameMatches_sourcePattern_iff.2 (Locale.exists_machineFile_eq hmachine), rfl,
    Disk.isFile_iff.2 ⟨content, hcontent⟩⟩

include htable h hread hdistinct in
/-- A key that stays used is used afterwards. -/
theorem StaysUsed.uses (hbackups : s.ScansNoBackup) (htree : w.disk.IsTree)
    (hused : StaysUsed s (s.dataOf w.disk) valid bases w.disk key) : s.Uses w'.disk key := by
  cases hused with
  | source hfound hplace hunwritten hline hr hkey =>
    obtain ⟨paths, hfiles, hpath, hincluded⟩ := hfound.of_written h.disk
    have hkept := hbackups w.disk htree _ _ hfound hplace
    rcases h.read_cases hkept hplace with ⟨e, he, hlocate⟩ | hsame
    · obtain ⟨hbase, hdue⟩ := h.due_of_mem he
      exact absurd hlocate (hunwritten e.1 hbase hdue)
    · exact .source hfiles hpath hincluded (Files.textAt_congr hsame ▸ hline) hr hkey
  | value hpath hunwritten hline hr hkey =>
    obtain ⟨hmem, hsame⟩ := textAt_of_unwritten h.mem_machineBases h.disk htree hpath
      fun e he => hunwritten e.1 (h.due_of_mem he).1 (h.due_of_mem he).2
    exact .value hmem (hsame ▸ hline) hr hkey
  | @keptValue base e r hbase hdue he hblank hr hkey =>
    obtain ⟨texts, hmem, hline⟩ := h.exists_line_of_kept htable hread hbase hdue he hblank
    have htext := h.hasText hdistinct hmem
    have hpath := h.machinePath_mem_sourceFiles hdistinct htree hmem
    obtain ⟨r', hr', hsame⟩ := (Glue.exists_valueReference_readBack Newline.lf).2 ⟨r, hr, rfl⟩
    exact .value hpath (htext.textAt_eq ▸ hline) hr' (hsame ▸ hkey)
  | @keptLine base path place e r hfound hplace hlocate hbase hdue he hblank hr hkey =>
    obtain ⟨paths, hfiles, hpath, hincluded⟩ := hfound.of_written h.disk
    obtain ⟨texts, hmem, hline⟩ := h.exists_line_of_kept htable hread hbase hdue he hblank
    have htext := h.textAt_of_locate hdistinct hmem hplace hlocate
    obtain ⟨r', hr', hsame⟩ := (Glue.exists_reference_readBack Newline.lf).2 ⟨r, hr, rfl⟩
    exact .source hfiles hpath hincluded (htext ▸ hline) hr' (hsame ▸ hkey)

include h hdistinct in
/-- A file that is scanned afterwards has been written, or was scanned before with the same text. -/
theorem HasRenewed.scanned_cases (hbackups : s.ScansNoBackup) (htree : w.disk.IsTree)
    (hfiles₀ : ∃ paths, w.disk.files s.addon.text s.settings.scan.pattern true = .ok paths)
    (hscanned : s.IsScanned w'.disk path) :
    (∃ e ∈ written, textAt w'.disk path = machineText s.style e.1 e.2) ∨
      s.IsScanned w.disk path ∧ textAt w'.disk path = textAt w.disk path := by
  have htree' : w'.disk.IsTree := h.isTree htree
  obtain ⟨paths, hfiles, hpath, hincluded⟩ := id hscanned
  obtain ⟨content, hcontent⟩ :=
    Disk.isFile_iff.1 (htree'.hasFileNames.isFile_of_mem_files hfiles hpath)
  obtain ⟨place, hplace', -⟩ := Disk.read_eq_ok_iff.1 hcontent
  have hplace := h.disk.locate_iff.1 hplace'
  rcases h.read_cases (hbackups _ htree' _ _ hscanned hplace') hplace with ⟨e, he, hlocate⟩ | hsame
  · exact Or.inl ⟨e, he, h.textAt_of_locate hdistinct he hplace hlocate⟩
  · obtain ⟨found, hfound⟩ := hfiles₀
    have hmem := h.disk.mem_files htree (fun t ht =>
      let ⟨_, _, hnamed⟩ := h.exists_isNamed ht
      ⟨_, hnamed⟩) hfound hfiles hpath (Disk.isFile_iff.2 ⟨content, hsame ▸ hcontent⟩)
    exact Or.inr ⟨⟨found, hfound, hmem, hincluded⟩, Files.textAt_congr hsame⟩

include h hdistinct in
/-- A source file of the directory has been written, or was one before with the same text. -/
theorem HasRenewed.sourceFile_cases (htree : w.disk.IsTree)
    (hpath : path ∈ w'.disk.sourceFiles s.directory) :
    (∃ e ∈ written, textAt w'.disk path = machineText s.style e.1 e.2) ∨
      path ∈ w.disk.sourceFiles s.directory ∧ textAt w'.disk path = textAt w.disk path := by
  by_cases hother : ∀ e ∈ written, path ≠ s.machinePath e.1
  · have hmem := mem_sourceFiles_of_unwritten h.mem_machineBases h.disk hpath hother
    exact Or.inr ⟨hmem, (textAt_of_unwritten h.mem_machineBases h.disk htree hmem hother).2⟩
  · push Not at hother
    obtain ⟨e, he, rfl⟩ := hother
    exact Or.inl ⟨e, he, (h.hasText hdistinct he).textAt_eq⟩

include htable h hread in
/-- A key of a text that is not blank was used before when a text that is written looks it up. -/
theorem HasRenewed.contains_of_mem_lines
    (hleaves : LeavesUses s (s.dataOf w.disk) valid bases w w') {text : Text}
    (htext : (s.dataOf w.disk).text? key Locale.source = some text)
    (hblank : isBlankText text = false) {e : Text × Dictionary Text} (he : e ∈ written)
    (hline : line ∈ Text.lines (machineText s.style e.1 e.2)) {r : Glue.Reference}
    (hr : r ∈ Glue.references s.scanner.patterns line) (hkey : Text.fold r.key = Text.fold key) :
    valid.contains key = true := by
  obtain ⟨line', hrenewal, r', hr', hsame⟩ := h.exists_renewalLine htable hread he hline hr
  obtain ⟨hbase, hdue⟩ := h.due_of_mem he
  have hfold : Text.fold r'.key = Text.fold key := hsame ▸ hkey
  have htext' : (s.dataOf w.disk).text? r'.key Locale.source = some text := by
    rw [← htext]
    exact congrArg _ (funext fun texts => Lexicon.get?_congr texts hfold)
  rw [← KeySet.contains_congr valid hfold]
  exact hleaves.unused e.1 hbase hdue line' hrenewal r' hr' text htext' hblank

include htable h hread hdistinct in
/-- A key of a text that is not blank is used afterwards only when it was used before. -/
theorem HasRenewed.contains_of_uses (htree : w.disk.IsTree)
    (hfiles₀ : ∃ paths, w.disk.files s.addon.text s.settings.scan.pattern true = .ok paths)
    (hvalid : ∀ key, s.Uses w.disk key → valid.contains key = true)
    (hleaves : LeavesUses s (s.dataOf w.disk) valid bases w w') {text : Text}
    (htext : (s.dataOf w.disk).text? key Locale.source = some text)
    (hblank : isBlankText text = false) (huses : s.Uses w'.disk key) :
    valid.contains key = true := by
  cases huses with
  | source hfiles hpath hincluded hline hr hkey =>
    rcases h.scanned_cases hdistinct hleaves.backups htree hfiles₀ ⟨_, hfiles, hpath, hincluded⟩ with
      ⟨e, he, hwritten⟩ | ⟨⟨paths, hfound, hmem, -⟩, hsame⟩
    · exact h.contains_of_mem_lines htable hread hleaves htext hblank he (hwritten ▸ hline) hr hkey
    · exact hvalid key (.source hfound hmem hincluded (hsame ▸ hline) hr hkey)
  | value hpath hline hr hkey =>
    rcases h.sourceFile_cases hdistinct htree hpath with ⟨e, he, hwritten⟩ | ⟨hmem, hsame⟩
    · exact h.contains_of_mem_lines htable hread hleaves htext hblank he (hwritten ▸ hline)
        (Glue.mem_references_of_mem_valueReferences hr) hkey
    · exact hvalid key (.value hmem (hsame ▸ hline) hr hkey)

include htable h hread hdistinct in
/-- No base locale is due after a renewal that leaves the use of keys as it is. -/
theorem HasRenewed.isDue_eq_false (htree : w.disk.IsTree)
    (hfiles₀ : ∃ paths, w.disk.files s.addon.text s.settings.scan.pattern true = .ok paths)
    (hvalid : ∀ key, s.Uses w.disk key → valid.contains key = true)
    (hleaves : LeavesUses s (s.dataOf w.disk) valid bases w w') {valid' : KeySet}
    (huses : ∀ key, valid'.contains key = true ↔ s.Uses w'.disk key) :
    ∀ base ∈ bases, isDue (s.dataOf w'.disk) valid' base = false := by
  intro base hbase
  refine isDue_eq_false_iff.2 ⟨fun key hmachine => (huses key).2 ?_,
    fun key text htext hblank hused => ?_⟩
  · rcases (machineText?_after htable h hread hdistinct hbase key).1 hmachine with
      ⟨e, he, hstays, hkey⟩ | ⟨e, he, hkey⟩
    · exact ((hleaves.kept base hbase e he hstays).uses htable h hread hdistinct hleaves.backups
        htree).congr hkey
    · obtain ⟨hmem, hblank, hwanted, -⟩ := mem_missingEntries.1 he
      have htext : (s.dataOf w.disk).text? e.1 Locale.source = some e.2 :=
        DataSet.text?_eq_some_iff.2 ⟨_, hmem, rfl⟩
      exact ((hleaves.used e.1 e.2 htext hblank hwanted).uses htable h hread hdistinct
        hleaves.backups htree).congr hkey
  · rw [h.text?_source htree] at htext
    exact machineText?_after_of_text? htable h hread hdistinct hbase htext hblank
      (h.contains_of_uses htable hread hdistinct htree hfiles₀ hvalid hleaves htext hblank
        ((huses key).1 hused))

end Settled

end Renew

end Phrasebook
