import Phrasebook.Proofs.Command.KeptTexts
import Phrasebook.Proofs.Command.Snapshot
import Phrasebook.Proofs.Locale.Collapse
import Phrasebook.Proofs.Workspace.Batch

/-!
# What a clean-up of duplicates leaves

The file of each locale with duplicates is merged with its own texts, and every other locale file is
left. When the files with duplicates are collapsible, loading the directory again gives the texts
that were loaded before, but for the blank ones of these files, and no duplicates.
-/

namespace Phrasebook.Clean

open Files (HasText textAt)
open Job (Triple)
open Save (localePath mergedText)
open Text (isBlankText)

variable {s : Session} {d d' : Disk} {code path : Text}

/-- A clean-up collapses the file of a locale: it reads the file that it writes, no line of which
starts with a mark of the byte order, and the file is collapsible. -/
structure Collapses (s : Session) (d : Disk) (code : Text) : Prop where
  /-- The file that is loaded last has the name that the catalog gives it. -/
  named : s.fileOf? d code = some (localePath s.directory code)
  /-- No line starts with a mark of the byte order. -/
  unmarked : ∀ line ∈ Text.lines (textAt d (localePath s.directory code)),
    line.head? ≠ some '\uFEFF'
  /-- The lines are collapsible. -/
  collapsible : Locale.Collapsible s.settings.scan.table
    (Text.lines (textAt d (localePath s.directory code)))

/-- The files that a clean-up of duplicates writes, with their texts. -/
def collapsedTexts (s : Session) (d : Disk) : List (Text × Text) :=
  ((s.dataOf d).codes.filter (s.dataOf d).hasDuplicates).map fun code =>
    (localePath s.directory code, mergedText s.style code
      (Locale.exactly (((s.dataOf d).texts.get? code).getD ∅))
      (textAt d (localePath s.directory code)))

/-- A written file is that of a locale with duplicates. -/
theorem exists_of_mem_collapsedTexts {w : Text × Text} (h : w ∈ collapsedTexts s d) :
    ∃ code ∈ (s.dataOf d).codes, (s.dataOf d).hasDuplicates code = true ∧
      w.1 = localePath s.directory code ∧ Path.IsNamed w.1 (Locale.file code) := by
  obtain ⟨code, hcode, rfl⟩ := List.mem_map.1 h
  obtain ⟨hloaded, hduplicates⟩ := List.mem_filter.1 hcode
  exact ⟨code, hloaded, hduplicates, rfl,
    Save.isNamed_localePath (Session.canonical?_of_mem_codes hloaded)⟩

/-- A clean-up of duplicates that ends with a result has written the files of the locales with
duplicates. -/
theorem written_of_duplicates {backup : Bool} {w w' : World} (htree : w.disk.IsTree)
    (hnamed : ∀ code ∈ (s.dataOf w.disk).codes, (s.dataOf w.disk).hasDuplicates code = true →
      s.fileOf? w.disk code = some (localePath s.directory code))
    (hrun : Job.outcome (Clean.duplicates s backup) w = (.ok ⟨⟩, w')) :
    Written w.disk (collapsedTexts s w.disk) w'.disk := by
  obtain ⟨data, w₁, hload, hrest⟩ := Job.exists_of_outcome_bind hrun
  obtain ⟨-, rfl, hdisk⟩ := s.eq_dataOf_of_outcome htree hload
  have hstart : Written w.disk [] w₁.disk := hdisk ▸ .start
  refine Triple.result (P := Written w.disk []) (E := fun _ => True)
    (Q := fun _ => Written w.disk (collapsedTexts s w.disk)) ?_ hstart hrest
  split
  · rename_i hnone
    rw [collapsedTexts, hnone]
    exact Triple.print
  · let saves : Dictionary (Dictionary Text) :=
      .ofList (((s.dataOf w.disk).codes.filter (s.dataOf w.disk).hasDuplicates).map fun code =>
        (code, Locale.exactly (((s.dataOf w.disk).texts.get? code).getD ∅)))
    have hentries : saves.entries = _ := Lexicon.entries_ofList (by
      rw [List.map_map]
      exact (((s.dataOf w.disk).texts.nodup_keys.of_map _).filter _).map fun _ _ h => h)
    have hsaves : ∀ e ∈ saves.entries, Locale.canonical? e.1 = some e.1 ∧
        HasText w.disk (localePath s.directory e.1)
          (textAt w.disk (localePath s.directory e.1)) := by
      intro e he
      rw [hentries] at he
      obtain ⟨code, hcode, rfl⟩ := List.mem_map.1 he
      obtain ⟨hloaded, hduplicates⟩ := List.mem_filter.1 hcode
      exact ⟨Session.canonical?_of_mem_codes hloaded, Files.hasText_textAt htree
        (Session.isFile_of_fileOf? htree (hnamed code hloaded hduplicates))⟩
    have hbatch : Triple (Written w.disk []) (Save.batch s.style s.directory saves backup showSave)
        _ _ := Save.batch_written (fun _ _ => Triple.print) saves backup
      (fun code => textAt w.disk (localePath s.directory code)) hsaves
    rw [hentries, List.map_map] at hbatch
    exact Triple.bind (Triple.forM fun _ _ => Triple.print) fun _ => Triple.discard hbatch

/-- A file of a locale without duplicates is read as before. -/
theorem read_eq_of_duplicates (htree : d.IsTree) (h : Written d (collapsedTexts s d) d')
    (hpath : path ∈ d.sourceFiles s.directory)
    (hlocale : Scanner.locale? s.settings.files.otherEndings path = some code)
    (hunique : (s.dataOf d).hasDuplicates code = false) :
    d'.read (.ofText path) = d.read (.ofText path) := by
  refine h.read_eq_of_mem_sourceFiles htree hpath (fun w hw => ?_) fun w hw hwritten => ?_
  · obtain ⟨other, -, -, hdirectory, hnamed⟩ := exists_of_mem_collapsedTexts hw
    exact ⟨_, hdirectory, hnamed⟩
  · obtain ⟨other, hother, hduplicates, -, hnamed⟩ := exists_of_mem_collapsedTexts hw
    obtain rfl := Scanner.eq_of_locale?_file (hwritten ▸ hnamed)
      (Session.canonical?_of_mem_codes hother) hlocale
    rw [hunique] at hduplicates
    simp at hduplicates

/-- The file of a locale with duplicates is read as its merged text. -/
theorem hasText_of_duplicates (h : Written d (collapsedTexts s d) d')
    (hloaded : code ∈ (s.dataOf d).codes) (hduplicates : (s.dataOf d).hasDuplicates code = true)
    (hnamed : s.fileOf? d code = some (localePath s.directory code)) :
    HasText d' (localePath s.directory code) (Files.dropMark (mergedText s.style code
      (Locale.exactly (s.entriesAt d (localePath s.directory code)).texts)
      (textAt d (localePath s.directory code)))) := by
  have hcode := Session.canonical?_of_mem_codes hloaded
  have htexts := s.get?_texts_dataOf (d := d) hcode
  rw [hnamed, Option.map_some] at htexts
  have hmem : (localePath s.directory code, mergedText s.style code
      (Locale.exactly (s.entriesAt d (localePath s.directory code)).texts)
      (textAt d (localePath s.directory code))) ∈ collapsedTexts s d := by
    refine List.mem_map.2 ⟨code, List.mem_filter.2 ⟨hloaded, hduplicates⟩, ?_⟩
    rw [htexts]
    rfl
  refine h.hasText_of_mem (Save.isNamed_localePath hcode) (Save.ne_backup code) hmem fun w hw => ?_
  obtain ⟨other, hother, rfl⟩ := List.mem_map.1 hw
  have hcode' := Session.canonical?_of_mem_codes (List.mem_filter.1 hother).1
  refine ⟨_, Save.isNamed_localePath hcode', fun hfile => ?_⟩
  obtain rfl := Locale.file_injective hfile
  rw [htexts]
  rfl

/-- A locale with duplicates has a literal assignment in its file. -/
theorem assignments_ne_nil_of_duplicates {table : Text} {lines : List Text}
    (h : (Locale.Entries.ofLines table lines).duplicates.isEmpty = false) :
    Locale.assignments table lines ≠ [] := by
  intro hnil
  have hnone : (Locale.Entries.ofLines table lines).duplicates.isEmpty = true :=
    Locale.isEmpty_duplicates_iff.2 fun key => by simp [Locale.literals, hnil]
  rw [hnone] at h
  simp at h

/-- The file of a locale with duplicates is read again without them, and with its texts that are
not blank. -/
theorem entriesAt_of_duplicates (hmark : s.settings.scan.table.head? ≠ some '\uFEFF')
    (h : Written d (collapsedTexts s d) d')
    (hloaded : code ∈ (s.dataOf d).codes) (hduplicates : (s.dataOf d).hasDuplicates code = true)
    (hcollapses : Collapses s d code) :
    (s.entriesAt d' (localePath s.directory code)).duplicates.isEmpty = true ∧
      ∀ key, (s.entriesAt d' (localePath s.directory code)).texts.get? key =
        ((s.entriesAt d (localePath s.directory code)).texts.get? key).filter
          fun text => !isBlankText text := by
  have hassigned : Locale.assignments s.style.table
      (Text.lines (textAt d (localePath s.directory code))) ≠ [] := by
    rw [Session.hasDuplicates_dataOf (Session.canonical?_of_mem_codes hloaded),
      hcollapses.named, Option.any_some, Bool.not_eq_true'] at hduplicates
    exact assignments_ne_nil_of_duplicates hduplicates
  have htext := hasText_of_duplicates h hloaded hduplicates hcollapses.named
  have hfile : Locale.fileLines s.style code
      (Locale.exactly (s.entriesAt d (localePath s.directory code)).texts)
      (some (Text.lines (textAt d (localePath s.directory code)))) =
        Locale.mergeLines s.style (Text.lines (textAt d (localePath s.directory code)))
          (Locale.Entries.ofLines s.style.table
            (Text.lines (textAt d (localePath s.directory code)))).texts :=
    Locale.fileLines_ofLines hassigned code
  rw [mergedText, hfile] at htext
  have hread := @Locale.entries_of_collapsible s.style _ hmark hassigned
    (fun line hline => ⟨Text.not_mem_of_mem_lines hline, hcollapses.unmarked line hline⟩)
    hcollapses.collapsible (Text.newlineOf (textAt d (localePath s.directory code)))
  rw [Session.entriesAt, htext.textAt_eq]
  exact hread

/-- A locale has no duplicates afterwards, and the texts that it had; but a blank text is gone when
the locale had duplicates. -/
theorem dataOf_of_duplicates (hmark : s.settings.scan.table.head? ≠ some '\uFEFF')
    (htree : d.IsTree) (h : Written d (collapsedTexts s d) d')
    (hsource : d'.sourceFiles s.directory = d.sourceFiles s.directory)
    (hloaded : code ∈ (s.dataOf d).codes)
    (hcollapses : (s.dataOf d).hasDuplicates code = true → Collapses s d code) :
    (s.dataOf d').hasDuplicates code = false ∧ ∀ key, (s.dataOf d').text? key code =
      ((s.dataOf d).text? key code).filter
        fun text => !((s.dataOf d).hasDuplicates code && isBlankText text) := by
  have hcode := Session.canonical?_of_mem_codes hloaded
  have hsame : s.fileOf? d' code = s.fileOf? d code := by
    rw [Session.fileOf?, hsource, Session.fileOf?]
  simp only [Session.text?_dataOf hcode]
  cases hduplicates : (s.dataOf d).hasDuplicates code with
  | true =>
    have hcollapse := hcollapses hduplicates
    obtain ⟨hunique, htexts⟩ := entriesAt_of_duplicates hmark h hloaded hduplicates hcollapse
    rw [Session.hasDuplicates_dataOf hcode, hsame, hcollapse.named]
    simp only [Option.any_some, Option.bind_some, Bool.true_and]
    exact ⟨by rw [hunique]; rfl, htexts⟩
  | false =>
    obtain ⟨path, hpath⟩ := Session.exists_fileOf?_of_mem_codes hloaded
    obtain ⟨hmem, hlocale⟩ := Scanner.of_lastFile? hpath
    have hentries : s.entriesAt d' path = s.entriesAt d path := by
      rw [Session.entriesAt, textAt, read_eq_of_duplicates htree h hmem hlocale hduplicates,
        ← textAt, Session.entriesAt]
    rw [← hduplicates, Session.hasDuplicates_dataOf hcode, Session.hasDuplicates_dataOf hcode,
      hsame, hpath]
    simp only [Option.any_some, Option.bind_some, hentries, true_and]
    intro key
    rw [Session.hasDuplicates_dataOf hcode, hpath, Option.any_some] at hduplicates
    rw [hduplicates]
    cases (s.entriesAt d path).texts.get? key <;> rfl

/-- A clean-up of duplicates collapses only: when it succeeds on a tree of text files and collapses
the files of the locales with duplicates, the directory can be loaded again. It has the same
locales, none with duplicates, and each key has the text that it had; but a blank text is gone from
a locale that had duplicates. The files of the other locales are read as before, byte for byte. What
is stated is the command itself, without the log file that may be opened around it. -/
theorem cleanDuplicates_collapses (settings : Settings) (environmentKey : Option Text)
    (addon : Path) (backup : Bool) {w w' : World} {data : DataSet}
    (htable : Readers.name (.text settings.scan.table) = .ok settings.scan.table)
    (htree : w.disk.IsTree)
    (hrun : Job.outcome (Command.settle (Command.perform settings environmentKey
      (.cleanDuplicates addon backup))) w = (.ok 0, w'))
    (hload : (Job.outcome (Session.load ⟨addon, settings⟩) w).1 = .ok data)
    (hcollapses : ∀ code ∈ data.codes, data.hasDuplicates code = true →
      Collapses ⟨addon, settings⟩ w.disk code) :
    ∃ data', (Job.outcome (Session.load ⟨addon, settings⟩) w').1 = .ok data' ∧
      data'.codes = data.codes ∧
      (∀ code ∈ data.codes, data'.hasDuplicates code = false ∧
        ∀ key, data'.text? key code = (data.text? key code).filter
          fun text => !(data.hasDuplicates code && isBlankText text)) ∧
      ∀ path ∈ w.disk.sourceFiles (Session.directory ⟨addon, settings⟩), ∀ code,
        Scanner.locale? settings.files.otherEndings path = some code →
          data.hasDuplicates code = false →
            w'.disk.read (.ofText path) = w.disk.read (.ofText path) := by
  obtain ⟨hdirectory, rfl, -⟩ := Session.eq_dataOf_of_outcome htree (Prod.ext hload rfl)
  obtain ⟨_, w₁, hcleaned, hdone⟩ := Job.exists_of_outcome_bind (outcome_of_settle hrun)
  obtain rfl : w₁ = w' := (Prod.mk.inj hdone).2
  have hwritten := written_of_duplicates htree
    (fun code hcode hduplicates => (hcollapses code hcode hduplicates).named) hcleaned
  have hnames : ∀ t ∈ collapsedTexts ⟨addon, settings⟩ w.disk, ∃ name, Path.IsNamed t.1 name := by
    intro t ht
    obtain ⟨_, -, -, -, hnamed⟩ := exists_of_mem_collapsedTexts ht
    exact ⟨_, hnamed⟩
  have hfiles : ∀ t ∈ collapsedTexts ⟨addon, settings⟩ w.disk,
      w.disk.isFile (.ofText t.1) = true := by
    intro t ht
    obtain ⟨code, hcode, hduplicates, hpath, -⟩ := exists_of_mem_collapsedTexts ht
    exact hpath ▸ Session.isFile_of_fileOf? htree (hcollapses code hcode hduplicates).named
  have hsource := hwritten.sourceFiles hnames hfiles (Session.directory ⟨addon, settings⟩)
  obtain ⟨_, hreload⟩ := Session.load_yields (hwritten.isTree htree hnames)
    (hwritten.isDirectory.trans hdirectory) w₁ rfl
  exact ⟨_, by rw [hreload], Session.codes_dataOf_congr hsource,
    fun code hcode => dataOf_of_duplicates (head?_ne_mark htable) htree hwritten hsource hcode
      (hcollapses code hcode),
    fun path hpath code hlocale hunique =>
      read_eq_of_duplicates htree hwritten hpath hlocale hunique⟩

/-- A key that a guarded file assigns three times keeps its last text. -/
theorem cleanDuplicates_collapses_guarded :
    let s : Session := ⟨.ofText "A".toList, {}⟩
    let w := addonTree [(["Localization".toList, "deDE.lua".toList],
      Text.joinLines ["if locale == \"deDE\" then".toList, "    L[\"Name\"] = \"a\"".toList,
        "    -- later".toList, "    L[\"NAME\"] = \"b\"".toList,
        "    L[\"name\"] = \"c\" -- last".toList, "end".toList] ['\n'])]
    let run := Job.outcome (Command.settle (Command.perform s.settings none
      (.cleanDuplicates s.addon false))) w
    run.1 = .ok 0 ∧ ∃ data, (Job.outcome s.load run.2).1 = .ok data ∧
      data.codes = ["deDE".toList] ∧ data.hasDuplicates "deDE".toList = false ∧
      data.text? "Name".toList "deDE".toList = some "c".toList := by
  intro s w run
  have hcode : run.1 = .ok 0 := by decide +kernel
  have htree : w.disk.IsTree := isTree_addonTree (by decide +kernel)
  obtain ⟨_, hload⟩ := s.load_yields htree (by decide +kernel) w rfl
  have hcodes : (s.dataOf w.disk).codes = ["deDE".toList] := by decide +kernel
  have hcollapses : ∀ code ∈ (s.dataOf w.disk).codes,
      (s.dataOf w.disk).hasDuplicates code = true → Collapses s w.disk code := by
    intro code hloaded _
    rw [hcodes] at hloaded
    obtain rfl := List.mem_singleton.1 hloaded
    exact ⟨by decide +kernel, by decide +kernel, by decide +kernel⟩
  have hrun : run = (.ok 0, run.2) := Job.outcome_eq_of_result hcode
  have hloaded : (Job.outcome s.load w).1 = .ok (s.dataOf w.disk) := by rw [hload]
  obtain ⟨data, hreload, hsame, htexts, -⟩ := cleanDuplicates_collapses s.settings none s.addon
    false (by decide +kernel) htree hrun hloaded hcollapses
  obtain ⟨hcollapsed, hlast⟩ := htexts "deDE".toList (by rw [hcodes]; simp)
  exact ⟨hcode, data, hreload, hsame.trans hcodes, hcollapsed,
    (hlast "Name".toList).trans (by decide +kernel)⟩

/-- A key whose last text is blank is lost with its other texts. -/
example :
    let s : Session := ⟨.ofText "A".toList, {}⟩
    let w := addonWith "deDE.lua".toList
      (Text.joinLines ["L[\"A\"] = \"a\"".toList, "L[\"A\"] = \"\"".toList] ['\n'])
    let run := Job.outcome (Command.settle (Command.perform s.settings none
      (.cleanDuplicates s.addon false))) w
    let textIn (w : World) := (Job.outcome s.load w).1.toOption.map fun data : DataSet =>
      data.text? "A".toList "deDE".toList
    run.1 = .ok 0 ∧ textIn w = some (some []) ∧ textIn run.2 = some none := by
  decide +kernel

end Phrasebook.Clean
