import Phrasebook.Proofs.Command.Renewal
import Phrasebook.Proofs.Command.Scan
import Phrasebook.Proofs.Locale.Keys

/-!
# What is read after a renewal

A renewal leaves the texts of all locales as they are, and the machine translations of the base
locales that it does not write. A base locale that it writes has the kept entries that are not blank
and a translation of each missing text, when what is written is read back.
-/

namespace Phrasebook.Renew

open Files (textAt)
open Job (Keeps Yields)
open Save (machineText)
open Text (isBlankText)
open Translation (keptEntries missingEntries mem_keptEntries mem_missingEntries)

variable {s : Session} {service : Translation.Service} {d d' : Disk} {valid : KeySet}
  {base code key : Text} {w w' : World}

/-- A base locale is not due when its machine translations have valid keys and cover the texts of
the source locale that are not blank and have valid keys. -/
theorem isDue_eq_false_iff {data : DataSet} :
    isDue data valid base = false ↔
      (∀ key, data.machineText? key base ≠ none → valid.contains key = true) ∧
        ∀ key text, data.text? key Locale.source = some text → isBlankText text = false →
          valid.contains key = true → data.machineText? key base ≠ none := by
  have hdue : isDue data valid base = false ↔ data.machineOrphans base valid = [] ∧
      missingEntries data base (some valid) Locale.source = [] := by
    simp [isDue]
  rw [hdue, DataSet.machineOrphans, DataSet.orphanKeys_eq_nil_iff]
  refine and_congr_right fun hvalid => ⟨fun hnone key text htext hblank hkey => ?_, fun hall => ?_⟩
  · obtain ⟨k, hmem, hk⟩ := DataSet.text?_eq_some_iff.1 htext
    by_contra hmissing
    refine List.not_mem_nil (hnone ▸ mem_missingEntries.2 ⟨hmem, hblank,
      (KeySet.contains_congr valid hk).trans hkey, fun e he hsame => ?_⟩)
    exact DataSet.machineText?_ne_none_iff.2 ⟨e, (mem_keptEntries.1 he).1, hsame.trans hk⟩ hmissing
  · refine List.eq_nil_iff_forall_not_mem.2 fun e he => ?_
    obtain ⟨hmem, hblank, hkey, hnone⟩ := mem_missingEntries.1 he
    obtain ⟨k, hk, hsame⟩ :=
      DataSet.machineText?_ne_none_iff.1 (hall e.1 e.2 (DataSet.text?_eq_some_iff.2 ⟨_, hmem, rfl⟩) hblank hkey)
    exact hnone k (mem_keptEntries.2 ⟨hk, (KeySet.contains_congr valid hsame).trans hkey⟩) hsame

/-- The files that are written for base locales, with their texts. -/
def writtenTexts (s : Session) (written : List (Text × Dictionary Text)) : List (Text × Text) :=
  written.map fun e => (s.machinePath e.1, machineText s.style e.1 e.2)

section Written

variable {written : List (Text × Dictionary Text)}
  (hbases : ∀ e ∈ written, e.1 ∈ Locale.machineBases)

include hbases

/-- The files that are written are those of machine translations. -/
theorem isNamed_of_mem_writtenTexts {t : Text × Text} (ht : t ∈ writtenTexts s written) :
    ∃ e ∈ written, Path.IsNamed t.1 (Locale.machineFile e.1) ∧
      t.2 = machineText s.style e.1 e.2 := by
  obtain ⟨e, he, rfl⟩ := List.mem_map.1 ht
  exact ⟨e, he, Session.isNamed_machinePath (hbases e he), rfl⟩

variable (h : Written d (writtenTexts s written) d')

include h

/-- The last file of a locale is the same. -/
theorem fileOf?_of_written (code : Text) : s.fileOf? d' code = s.fileOf? d code := by
  let isLoaded (path : Text) : Bool :=
    (Scanner.locale? s.settings.files.otherEndings path).isSome
  have hfiles : (d'.sourceFiles s.directory).filter isLoaded =
      (d.sourceFiles s.directory).filter isLoaded := by
    refine h.filter_sourceFiles fun t ht => ?_
    obtain ⟨e, he, hnamed, -⟩ := isNamed_of_mem_writtenTexts hbases ht
    have hnone : Scanner.locale? s.settings.files.otherEndings (s.machinePath e.1) = none :=
      Scanner.locale?_machineFile (Session.isNamed_machinePath (hbases e he)) (hbases e he)
    refine ⟨_, hnamed, ?_⟩
    rw [← Path.inDirectory_eq _ hnamed.2]
    exact Option.isSome_eq_false_iff.2 (Option.isNone_iff_eq_none.2 hnone)
  rw [Session.fileOf?, ← Scanner.lastFile?_filter, hfiles, Scanner.lastFile?_filter,
    Session.fileOf?]

/-- A source file of the directory that is not written is one afterwards, and keeps its text. -/
theorem textAt_of_unwritten (htree : d.IsTree) {path : Text}
    (hpath : path ∈ d.sourceFiles s.directory)
    (hunwritten : ∀ e ∈ written, path ≠ s.machinePath e.1) :
    path ∈ d'.sourceFiles s.directory ∧ textAt d' path = textAt d path := by
  obtain ⟨paths, hfiles, hmore⟩ := h.exists_files (d.files_sourcePattern s.directory)
  obtain rfl := Except.ok.inj ((d'.files_sourcePattern s.directory).symm.trans hfiles)
  refine ⟨hmore hpath, Files.textAt_congr (h.read_eq_of_mem_sourceFiles htree hpath
    (fun t ht => ?_) fun t ht hwritten => ?_)⟩
  · obtain ⟨e, he, rfl⟩ := List.mem_map.1 ht
    exact ⟨_, rfl, Session.isNamed_machinePath (hbases e he)⟩
  · obtain ⟨e, he, rfl⟩ := List.mem_map.1 ht
    exact hunwritten e he hwritten.symm

/-- A source file of the directory that is not written was one before. -/
theorem mem_sourceFiles_of_unwritten {path : Text} (hpath : path ∈ d'.sourceFiles s.directory)
    (hunwritten : ∀ e ∈ written, path ≠ s.machinePath e.1) : path ∈ d.sourceFiles s.directory := by
  let keep (path : Text) : Bool := decide (∀ e ∈ written, path ≠ s.machinePath e.1)
  have hfiles : (d'.sourceFiles s.directory).filter keep =
      (d.sourceFiles s.directory).filter keep := by
    refine h.filter_sourceFiles fun t ht => ?_
    obtain ⟨e, he, hnamed, -⟩ := isNamed_of_mem_writtenTexts hbases ht
    exact ⟨_, hnamed, decide_eq_false fun hnone =>
      hnone e he (Path.inDirectory_eq _ hnamed.2).symm⟩
  have hmem : path ∈ (d'.sourceFiles s.directory).filter keep :=
    List.mem_filter.2 ⟨hpath, decide_eq_true hunwritten⟩
  rw [hfiles] at hmem
  exact (List.mem_filter.1 hmem).1

/-- The texts of a locale are the same. -/
theorem get?_texts_of_written (htree : d.IsTree) (hcode : Locale.canonical? code = some code) :
    (s.dataOf d').texts.get? code = (s.dataOf d).texts.get? code := by
  rw [Session.get?_texts_dataOf hcode, Session.get?_texts_dataOf hcode,
    fileOf?_of_written hbases h]
  cases hpath : s.fileOf? d code with
  | none => rfl
  | some path =>
    obtain ⟨hmem, hlocale⟩ := Scanner.of_lastFile? hpath
    have hsame := (textAt_of_unwritten hbases h htree hmem fun e he hsame => by
      rw [hsame, Scanner.locale?_machineFile (Session.isNamed_machinePath (hbases e he))
        (hbases e he)] at hlocale
      simp at hlocale).2
    rw [Option.map_some, Option.map_some, Session.entriesAt, hsame, Session.entriesAt]

/-- A base locale that is not written has the machine translations that it had. -/
theorem get?_machine_of_unwritten (hbase : base ∈ Locale.machineBases)
    (hunwritten : ∀ e ∈ written, e.1 ≠ base) :
    (s.dataOf d').machine.get? base = (s.dataOf d).machine.get? base := by
  obtain ⟨t, hfile⟩ := Locale.exists_machineFile_eq hbase
  have hnamed : Path.IsNamed (s.machinePath base) (t ++ ".lua".toList) :=
    hfile ▸ Session.isNamed_machinePath hbase
  have hother : ∀ w ∈ writtenTexts s written,
      ∃ other, Path.IsNamed w.1 other ∧ other ≠ t ++ ".lua".toList := by
    intro w hw
    obtain ⟨e, he, hother, -⟩ := isNamed_of_mem_writtenTexts hbases hw
    exact ⟨_, hother, fun hsame => hunwritten e he
      (Locale.eq_of_machineFile_eq (hbases e he) hbase (hsame.trans hfile.symm))⟩
  have hexists := h.isFile_iff_of_unwritten hnamed (Save.ne_backup t) hother
  rw [Session.get?_machine_dataOf hbase, Session.get?_machine_dataOf hbase]
  by_cases hwas : d.isFile (.ofText (s.machinePath base)) = true
  · have hread := h.read_eq hnamed (Save.ne_backup t) hother hwas
    rw [if_pos hwas, if_pos (hexists.2 hwas), Session.entriesAt, Files.textAt_congr hread,
      Session.entriesAt]
  · rw [if_neg hwas, if_neg (mt hexists.1 hwas)]

/-- The file of a base locale that is written has the text that was written. -/
theorem hasText_of_written (hdistinct : (written.map (·.1)).Nodup) {e : Text × Dictionary Text}
    (he : e ∈ written) :
    Files.HasText d' (s.machinePath e.1) (machineText s.style e.1 e.2) := by
  have hbase := hbases e he
  obtain ⟨t, hfile⟩ := Locale.exists_machineFile_eq hbase
  have hnamed : Path.IsNamed (s.machinePath e.1) (t ++ ".lua".toList) :=
    hfile ▸ Session.isNamed_machinePath hbase
  refine h.hasText_of_mem hnamed (Save.ne_backup t) (List.mem_map_of_mem he) fun w hw => ?_
  obtain ⟨e', he', hother, hcontent⟩ := isNamed_of_mem_writtenTexts hbases hw
  refine ⟨_, hother, fun hsame => ?_⟩
  have hkey := Locale.eq_of_machineFile_eq (hbases e' he') hbase (hsame.trans hfile.symm)
  rw [hcontent, List.inj_on_of_nodup_map hdistinct he' he hkey]

/-- A base locale that is written has the machine translations of the text that was written. -/
theorem get?_machine_of_written (hdistinct : (written.map (·.1)).Nodup)
    {e : Text × Dictionary Text} (he : e ∈ written) :
    (s.dataOf d').machine.get? e.1 =
      some (s.scanner.entriesOf (machineText s.style e.1 e.2)).texts := by
  have htext := hasText_of_written hbases h hdistinct he
  have hexists : d'.isFile (.ofText (s.machinePath e.1)) = true := by
    obtain ⟨content, -, hread, -⟩ := htext
    exact Disk.isFile_iff.2 ⟨content, hread⟩
  rw [Session.get?_machine_dataOf (hbases e he), if_pos hexists, Session.entriesAt, htext.textAt_eq]

end Written

/-- What is read of a file is on lines that the table is assigned to. -/
theorem of_mem_entriesAt
    (htable : Readers.name (.text s.settings.scan.table) = .ok s.settings.scan.table)
    {path text : Text} (he : (key, text) ∈ (s.entriesAt d path).texts.entries) :
    Readers.isName s.settings.scan.table = true ∧ '\n' ∉ s.settings.scan.table ∧ '\n' ∉ key := by
  obtain ⟨a, ha, hkey⟩ := Locale.exists_assignment_of_mem_entries he
  have hlines : ∀ line ∈ Text.lines (textAt d path), '\n' ∉ line :=
    fun _ => Text.not_mem_of_mem_lines
  have hassigned := List.ne_nil_of_mem ha
  obtain rfl : a.key = key := hkey
  exact ⟨Locale.isName_of_assignments htable hassigned,
    Locale.newline_not_mem_table hassigned hlines, Locale.newline_not_mem_key ha hlines⟩

/-- The machine translations of a base locale are read of its file. -/
theorem mem_entriesAt_of_mem_machineEntries (hbase : base ∈ Locale.machineBases)
    {e : Text × Text} (he : e ∈ (s.dataOf d).machineEntries base) :
    e ∈ (s.entriesAt d (s.machinePath base)).texts.entries := by
  unfold DataSet.machineEntries at he
  rw [Session.get?_machine_dataOf hbase] at he
  split at he
  · exact he
  · simp at he

/-- The texts of a locale are read of its last file. -/
theorem exists_mem_entriesAt_of_mem (hcode : Locale.canonical? code = some code)
    {e : Text × Text} (he : e ∈ (((s.dataOf d).texts.get? code).map (·.entries)).getD []) :
    ∃ path, e ∈ (s.entriesAt d path).texts.entries := by
  rw [Session.get?_texts_dataOf hcode] at he
  cases hpath : s.fileOf? d code with
  | none => simp [hpath] at he
  | some path => exact ⟨path, by simpa [hpath] using he⟩

/-- When a base locale is due, some file has entries of it. -/
theorem exists_mem_entriesAt_of_isDue (hbase : base ∈ Locale.machineBases)
    (hdue : isDue (s.dataOf d) valid base = true) :
    ∃ path key text, (key, text) ∈ (s.entriesAt d path).texts.entries := by
  rcases Bool.or_eq_true_iff.1 hdue with horphans | hmissing
  · obtain ⟨key, hkey⟩ : ∃ key, key ∈ (s.dataOf d).machineOrphans base valid :=
      List.exists_mem_of_ne_nil _ (by simpa using horphans)
    rw [DataSet.machineOrphans_eq, (sortKeys_perm _).mem_iff] at hkey
    obtain ⟨e, he, -⟩ := List.mem_map.1 hkey
    exact ⟨_, _, _, mem_entriesAt_of_mem_machineEntries hbase (List.mem_filter.1 he).1⟩
  · obtain ⟨e, he⟩ : ∃ e, e ∈ missingEntries (s.dataOf d) base (some valid) Locale.source :=
      List.exists_mem_of_ne_nil _ (by simpa using hmissing)
    obtain ⟨path, hmem⟩ :=
      exists_mem_entriesAt_of_mem Locale.canonical?_source (mem_missingEntries.1 he).1
    exact ⟨path, e.1, e.2, hmem⟩

/-- What is renewed has keys of one line. -/
theorem IsRenewed.newline_not_mem
    (htable : Readers.name (.text s.settings.scan.table) = .ok s.settings.scan.table)
    (hbase : base ∈ Locale.machineBases) {received entries : List (Text × Text)}
    (h : IsRenewed (s.dataOf d) valid base received entries) {e : Text × Text} (he : e ∈ entries) :
    '\n' ∉ e.1 := by
  rcases h.new e he with hkept | ⟨text, hmissing, -⟩
  · exact (of_mem_entriesAt htable
      (mem_entriesAt_of_mem_machineEntries hbase (mem_keptEntries.1 hkept).1)).2.2
  · obtain ⟨path, hmem⟩ :=
      exists_mem_entriesAt_of_mem Locale.canonical?_source (mem_missingEntries.1 hmissing).1
    exact (of_mem_entriesAt htable hmem).2.2

/-- What a renewal of base locales writes is read back: the blank machine translations that it
leaves out belong to no texts, and each line that it writes is read as an assignment of its key. -/
structure IsReadBack (s : Session) (data : DataSet) (valid : KeySet) (bases : List Text)
    (w w' : World) : Prop where
  /-- No blank machine translation of a base locale that is due belongs to a text that is not
  blank. -/
  filled : ∀ base ∈ bases, isDue data valid base = true →
    ∀ e ∈ keptEntries data base (some valid), isBlankText e.2 = true →
      ∀ text, data.text? e.1 Locale.source = some text → isBlankText text = true
  /-- The machine translations that are written again are read back. -/
  kept : ∀ base ∈ bases, isDue data valid base = true →
    ∀ e ∈ keptEntries data base (some valid), isBlankText e.2 = false →
      Locale.readsBack s.settings.scan.table e.1 e.2 = true
  /-- The translations that were received are read back. -/
  received : ∀ base ∈ bases, ∀ language, Locale.language? base = some language →
    ∀ e ∈ missingEntries data base (some valid) Locale.source,
      ∀ t, (e.2, t) ∈ w.translations w' language →
        Locale.readsBack s.settings.scan.table e.1 t = true
  /-- The header of what is written has no other lines. -/
  header : (∃ base ∈ bases, isDue data valid base = true) →
    '\n' ∉ s.settings.files.addon ∧ '\n' ∉ s.settings.files.expression

section Settled

variable {bases : List Text} {written : List (Text × Dictionary Text)}
  (htable : Readers.name (.text s.settings.scan.table) = .ok s.settings.scan.table)
  (h : HasRenewed s (s.dataOf w.disk) valid bases written w w')
  (hread : IsReadBack s (s.dataOf w.disk) valid bases w w')

include h

/-- Only base locales with files of machine translations are written. -/
theorem HasRenewed.mem_machineBases : ∀ e ∈ written, e.1 ∈ Locale.machineBases :=
  fun e he => (h.renewed e he).1

/-- What is written has the name of a file of machine translations. -/
theorem HasRenewed.exists_isNamed {t : Text × Text} (ht : t ∈ writtenTexts s written) :
    ∃ base ∈ Locale.machineBases, Path.IsNamed t.1 (Locale.machineFile base) := by
  obtain ⟨e, he, hnamed, -⟩ := isNamed_of_mem_writtenTexts h.mem_machineBases ht
  exact ⟨e.1, h.mem_machineBases e he, hnamed⟩

/-- What a renewal leaves is a tree of text files again. -/
theorem HasRenewed.isTree (htree : w.disk.IsTree) : w'.disk.IsTree :=
  h.disk.isTree htree fun _ ht =>
    let ⟨_, _, hnamed⟩ := h.exists_isNamed ht
    ⟨_, hnamed⟩

/-- Each of the base locales is written once. -/
theorem HasRenewed.nodup (hdistinct : bases.Nodup) : (written.map (·.1)).Nodup :=
  h.due ▸ hdistinct.filter _

/-- The file of a base locale that is written has the text that was written. -/
theorem HasRenewed.hasText (hdistinct : bases.Nodup) {e : Text × Dictionary Text}
    (he : e ∈ written) :
    Files.HasText w'.disk (s.machinePath e.1) (machineText s.style e.1 e.2) :=
  hasText_of_written h.mem_machineBases h.disk (h.nodup hdistinct) he

/-- A scan of what a renewal leaves finds the keys that are used there. -/
theorem HasRenewed.exists_scan (htree : w.disk.IsTree) (hlegible : s.IsLegible w.disk)
    (haddon : w.disk.isDirectory (.ofText s.addon.text) = true) {paths : List Text}
    (hfiles : w.disk.files s.addon.text s.settings.scan.pattern true = .ok paths) :
    ∃ summary, Yields w'.disk s.scan summary ∧
      ∀ key, summary.keys.contains key = true ↔ s.Uses w'.disk key := by
  have hlegible' : s.IsLegible w'.disk := hlegible.of_unwritten h.disk fun t ht => by
    obtain ⟨base, hbase, hnamed⟩ := h.exists_isNamed ht
    exact ⟨_, hnamed, (Locale.file_ne_machineFile Locale.canonical?_source hbase).symm⟩
  obtain ⟨paths', hfiles', -⟩ := h.disk.exists_files hfiles
  exact Session.scan_yields (h.isTree htree) hlegible' (h.disk.isDirectory.trans haddon) hfiles'

/-- The texts of the source locale are the same. -/
theorem HasRenewed.text?_source (htree : w.disk.IsTree) (key : Text) :
    (s.dataOf w'.disk).text? key Locale.source = (s.dataOf w.disk).text? key Locale.source := by
  rw [DataSet.text?, get?_texts_of_written h.mem_machineBases h.disk htree Locale.canonical?_source,
    DataSet.text?]

/-- A base locale that is not due has the machine translations that it had. -/
theorem machineText?_of_not_due (hbase : base ∈ bases)
    (hdue : isDue (s.dataOf w.disk) valid base = false) (key : Text) :
    (s.dataOf w'.disk).machineText? key base = (s.dataOf w.disk).machineText? key base := by
  suffices (s.dataOf w'.disk).machine.get? base = (s.dataOf w.disk).machine.get? base by
    rw [DataSet.machineText?, this, DataSet.machineText?]
  by_cases hmachine : base ∈ Locale.machineBases
  · refine get?_machine_of_unwritten h.mem_machineBases h.disk hmachine fun e he hsame => ?_
    rw [← hsame, (h.due_of_mem he).2] at hdue
    exact Bool.noConfusion hdue
  · obtain ⟨language, hlanguage⟩ := h.known base hbase
    rw [Session.get?_machine_dataOf_of_not_mem hlanguage hmachine,
      Session.get?_machine_dataOf_of_not_mem hlanguage hmachine]

include htable hread

/-- What has been written for a base locale is a line for each entry and those of the header. -/
theorem HasRenewed.newline_not_mem {e : Text × Dictionary Text} (he : e ∈ written) :
    Readers.isName s.style.table = true ∧
      ('\n' ∉ s.style.table ∧ '\n' ∉ s.style.addon ∧ '\n' ∉ s.style.expression) ∧
      ∀ x ∈ e.2.entries, '\n' ∉ x.1 := by
  obtain ⟨hbase, hdue⟩ := h.due_of_mem he
  obtain ⟨hmachine, hrenewed⟩ := h.renewed e he
  obtain ⟨language, hlanguage⟩ := h.known e.1 hbase
  -- What makes the base locale due was read of a file, so the table has a name.
  obtain ⟨path, k, text, hmem⟩ := exists_mem_entriesAt_of_isDue hmachine hdue
  obtain ⟨hname, hline, -⟩ := of_mem_entriesAt htable hmem
  exact ⟨hname, ⟨hline, hread.header ⟨e.1, hbase, hdue⟩⟩,
    fun x hx => (hrenewed language hlanguage).newline_not_mem htable hmachine hx⟩

/-- What has been written for a base locale is read with the keys of the entries that are not
blank. -/
theorem machineText?_of_written (hdistinct : bases.Nodup) {e : Text × Dictionary Text}
    (he : e ∈ written) (key : Text) :
    (s.dataOf w'.disk).machineText? key e.1 ≠ none ↔
      ∃ x ∈ e.2.entries, isBlankText x.2 = false ∧ Text.fold x.1 = Text.fold key := by
  obtain ⟨hbase, hdue⟩ := h.due_of_mem he
  obtain ⟨language, hlanguage⟩ := h.known e.1 hbase
  have hentries := (h.renewed e he).2 language hlanguage
  obtain ⟨hname, hnames, hkeys⟩ := h.newline_not_mem htable hread he
  rw [DataSet.machineText?, get?_machine_of_written h.mem_machineBases h.disk (h.nodup hdistinct) he,
    Option.bind_some]
  refine @Locale.get?_newFile_ne_none_iff s.style key _ e.2 hname hnames
    (fun code hcode => Locale.newline_not_mem_of_mem_codesOf (List.mem_filter.1 hcode).1)
    hkeys fun x hx hb => ?_
  rcases hentries.new x hx with hkept | ⟨text, hmissing, hpair⟩
  · exact hread.kept e.1 hbase hdue x hkept hb
  · exact hread.received e.1 hbase language hlanguage _ hmissing x.2 hpair

/-- A base locale has machine translations of the keys that stay and of those that were missing. -/
theorem machineText?_after (hdistinct : bases.Nodup) (hbase : base ∈ bases) (key : Text) :
    (s.dataOf w'.disk).machineText? key base ≠ none ↔
      (∃ e ∈ keptEntries (s.dataOf w.disk) base (some valid),
        (isDue (s.dataOf w.disk) valid base = true → isBlankText e.2 = false) ∧
          Text.fold e.1 = Text.fold key) ∨
      ∃ e ∈ missingEntries (s.dataOf w.disk) base (some valid) Locale.source,
        Text.fold e.1 = Text.fold key := by
  cases hdue : isDue (s.dataOf w.disk) valid base with
  | false =>
    have hmissing : missingEntries (s.dataOf w.disk) base (some valid) Locale.source = [] := by
      simpa using (Bool.or_eq_false_iff.1 hdue).2
    obtain ⟨hvalid, -⟩ := isDue_eq_false_iff.1 hdue
    rw [machineText?_of_not_due h hbase hdue, DataSet.machineText?_ne_none_iff, hmissing]
    simp only [List.not_mem_nil, false_and, exists_false, or_false, Bool.false_eq_true,
      false_implies, true_and]
    refine exists_congr fun e => and_congr_left fun _ => ⟨fun he => ?_, fun he => ?_⟩
    · exact mem_keptEntries.2 ⟨he, hvalid e.1 (DataSet.machineText?_ne_none_iff.2 ⟨e, he, rfl⟩)⟩
    · exact (mem_keptEntries.1 he).1
  | true =>
    obtain ⟨texts, he⟩ := h.mem_of_due hbase hdue
    obtain ⟨language, hlanguage⟩ := h.known base hbase
    have hentries := (h.renewed _ he).2 language hlanguage
    rw [machineText?_of_written htable h hread hdistinct he]
    constructor
    · rintro ⟨x, hx, hblank, hkey⟩
      rcases hentries.new x hx with hkept | ⟨text, hmissing, -⟩
      · exact Or.inl ⟨x, hkept, fun _ => hblank, hkey⟩
      · exact Or.inr ⟨_, hmissing, hkey⟩
    · rintro (⟨x, hkept, hblank, hkey⟩ | ⟨x, hmissing, hkey⟩)
      · exact ⟨x, hentries.kept hkept, hblank rfl, hkey⟩
      · obtain ⟨t, ht, hblank⟩ := hentries.filled x hmissing
        exact ⟨_, ht, hblank, hkey⟩

/-- A base locale has machine translations of the texts that are not blank and had valid keys. -/
theorem machineText?_after_of_text? (hdistinct : bases.Nodup) (hbase : base ∈ bases) {text : Text}
    (htext : (s.dataOf w.disk).text? key Locale.source = some text)
    (hblank : isBlankText text = false) (hkey : valid.contains key = true) :
    (s.dataOf w'.disk).machineText? key base ≠ none := by
  rw [machineText?_after htable h hread hdistinct hbase]
  obtain ⟨k, hmem, hk⟩ := DataSet.text?_eq_some_iff.1 htext
  -- A kept entry of the key is not blank where it is written again; without one, the key is missing.
  by_cases hkept : ∃ e ∈ keptEntries (s.dataOf w.disk) base (some valid),
      Text.fold e.1 = Text.fold k
  · obtain ⟨e, he, hsame⟩ := hkept
    refine Or.inl ⟨e, he, fun hdue => ?_, hsame.trans hk⟩
    by_contra hfilled
    have htext' : (s.dataOf w.disk).text? e.1 Locale.source = some text := by
      rw [← htext]
      exact congrArg _ (funext fun texts => Lexicon.get?_congr texts (hsame.trans hk))
    have hdropped := hread.filled base hbase hdue e he (by simpa using hfilled) text htext'
    rw [hblank] at hdropped
    exact Bool.noConfusion hdropped
  · exact Or.inr ⟨(k, text), mem_missingEntries.2 ⟨hmem, hblank,
      (KeySet.contains_congr valid hk).trans hkey, fun e he hsame => hkept ⟨e, he, hsame⟩⟩, hk⟩

end Settled

end Phrasebook.Renew
