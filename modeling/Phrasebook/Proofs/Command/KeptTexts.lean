import Phrasebook.Command.Run
import Phrasebook.Proofs.Command.Clean
import Phrasebook.Proofs.Disk.Tree
import Phrasebook.Proofs.Locale.Reread

/-!
# Which texts a clean-up keeps

A key that the sources use keeps its text in every loaded file, as far as the text is not blank and
what has to be written is read back: a merged file gives the text again, and so does a file of
machine translations that is written anew.
-/

namespace Phrasebook.Clean

open Files (HasText)
open Save (IsNoBackup mergedText machineText)
open Text (isBlankText)

variable {s : Session} {valid : KeySet} {key value : Text} {place : Location} {t : Text}

/-- A file is loaded: for a locale of the catalog, or as machine translations of a base locale. -/
inductive IsLoaded (s : Session) (d : Disk) (path : Text) : Prop where
  /-- The file is listed in the directory and named for a locale. -/
  | locale {paths : List Text} {code : Text}
      (hfiles : d.files s.directory sourcePattern false = .ok paths) (hpath : path ∈ paths)
      (hlocale : Scanner.locale? s.settings.files.otherEndings path = some code)
  /-- The file is that of the machine translations of a base locale. -/
  | machine {base : Text} (hbase : base ∈ Locale.machineBases)
      (hpath : path = Files.inDirectory s.directory (Locale.machineFile base))

/-- The place of a loaded file has the last name of its path, which is that of a source file. -/
theorem IsLoaded.getLast?_of_locate {d : Disk} {path : Text} (h : IsLoaded s d path)
    (hlocate : d.locate (.ofText path) = .ok place) :
    place.getLast? = some (Path.ofText path).name ∧
      ∃ t, (Path.ofText path).name = t ++ ".lua".toList := by
  have hnames : ∃ t, (Path.ofText path).names.getLast? = some (t ++ ".lua".toList) := by
    cases h with
    | locale hfiles hpath _ =>
      obtain ⟨t, rfl⟩ := Scanner.exists_of_mem_files hfiles hpath
      exact Path.getLast?_names_ofText_append t (by decide) (by decide)
    | machine hbase hpath =>
      obtain ⟨t, ht⟩ := Locale.exists_machineFile_eq hbase
      refine ⟨t, ?_⟩
      rw [hpath, ← ht]
      exact Path.getLast?_names_inDirectory _ (Locale.isFileName_machineFile hbase)
  obtain ⟨t, hlast⟩ := hnames
  have hname : (Path.ofText path).name = t ++ ".lua".toList := by
    rw [Path.name, hlast]
    rfl
  have hdots : t ++ ".lua".toList ≠ ['.', '.'] := Path.append_ne (by decide) t
  exact ⟨by rw [hname, Disk.getLast?_of_locate hlocate hlast hdots], t, hname⟩

/-- The name of a file of machine translations. -/
theorem name_of_machineFile {path base : Text} (hbase : base ∈ Locale.machineBases)
    (hpath : path = Files.inDirectory s.directory (Locale.machineFile base)) :
    (Path.ofText path).name = Locale.machineFile base := by
  rw [Path.name, hpath,
    Path.getLast?_names_inDirectory _ (Locale.isFileName_machineFile hbase)]
  rfl

/-- A loaded file with the name of a locale is loaded for it. -/
theorem IsLoaded.locale_of_name {d : Disk} {path code : Text} (h : IsLoaded s d path)
    (hcode : Locale.canonical? code = some code)
    (hname : (Path.ofText path).name = Locale.file code) :
    ∃ paths, d.files s.directory sourcePattern false = .ok paths ∧ path ∈ paths ∧
      Scanner.locale? s.settings.files.otherEndings path = some code := by
  have hstem : Path.stem (Path.ofText path).name = code := by
    rw [hname, Locale.stem_file (Locale.mem_codes_of_canonical? hcode)]
  cases h with
  | @locale paths found hfiles hpath hlocale =>
    refine ⟨paths, hfiles, hpath, ?_⟩
    have hfound := hlocale
    unfold Scanner.locale? at hfound
    split at hfound
    · simp at hfound
    · rw [hstem, hcode] at hfound
      exact hlocale.trans hfound.symm
  | machine hbase hpath =>
    have hnone := Locale.canonical?_stem_machineFile hbase
    rw [← name_of_machineFile hbase hpath, hstem, hcode] at hnone
    simp at hnone

/-- A loaded file with the name of a file of machine translations is that file. -/
theorem IsLoaded.machine_of_name {d : Disk} {path base : Text} (h : IsLoaded s d path)
    (hbase : base ∈ Locale.machineBases)
    (hname : (Path.ofText path).name = Locale.machineFile base) :
    path = Files.inDirectory s.directory (Locale.machineFile base) := by
  cases h with
  | locale _ _ hlocale =>
    unfold Scanner.locale? at hlocale
    split at hlocale
    · simp at hlocale
    · rw [hname, Locale.canonical?_stem_machineFile hbase] at hlocale
      simp at hlocale
  | machine hother hpath =>
    have hsame := (name_of_machineFile hother hpath).symm.trans hname
    rw [hpath, Locale.eq_of_machineFile_eq hother hbase hsame]

/-- A clean-up spares the text of a key in a file. A file with the name that the catalog gives to a
locale is the last one that is loaded for it, and the text survives the merge that clears the
orphans of the file. In a file of machine translations with orphans, the line that is written again
for the key is read back, and none of the others is taken for one of the key. -/
structure Spares (s : Session) (d : Disk) (valid : KeySet) (key path t : Text) : Prop where
  /-- No other file is loaded for the locale later. -/
  last : ∀ before after code, d.files s.directory sourcePattern false =
    .ok (before ++ path :: after) →
      Scanner.locale? s.settings.files.otherEndings path = some code →
      (Path.ofText path).name = Locale.file code →
      ∀ p ∈ after, Scanner.locale? s.settings.files.otherEndings p ≠ some code
  /-- The text survives a merge. -/
  merged : ∀ code, Scanner.locale? s.settings.files.otherEndings path = some code →
    (Path.ofText path).name = Locale.file code →
    DataSet.orphanKeys (some (s.scanner.entriesOf t).texts) valid ≠ [] →
      Locale.Survives s.style.table valid key (Text.lines t)
  /-- What is written anew is read back for the key. -/
  written : ∀ base ∈ Locale.machineBases,
    path = Files.inDirectory s.directory (Locale.machineFile base) →
    DataSet.orphanKeys (some (s.scanner.entriesOf t).texts) valid ≠ [] →
      ∀ e ∈ (s.scanner.entriesOf t).texts.entries, valid.contains e.1 = true →
        isBlankText e.2 = false → Locale.IsReadBack s.style.table key e.1 e.2

/-- A name that the settings accept does not start with the mark of the byte order. -/
theorem head?_ne_mark {table : Text} (h : Readers.name (.text table) = .ok table) :
    table.head? ≠ some '\uFEFF' := by
  obtain ⟨name, hname, htable⟩ := Locale.exists_isName_of_name h
  cases name with
  | nil => simp [Readers.isName] at hname
  | cons c name =>
    have hc : c ≠ '\uFEFF' := by
      rintro rfl
      exact Bool.noConfusion hname
    rcases htable with rfl | rfl <;> simpa using hc

variable {texts : KeyMap Text}

/-- A text that survives is read from the merged file. -/
theorem get?_mergedText (style : Locale.Style) (code : Text)
    (hmark : style.table.head? ≠ some '\uFEFF') (hvalid : valid.contains key = true)
    (htexts : (Locale.Entries.ofLines style.table (Text.lines t)).texts = texts)
    (ht : texts.get? key = some value) (hblank : isBlankText value = false)
    (hsurvives : Locale.Survives style.table valid key (Text.lines t)) :
    (Locale.Entries.ofLines style.table (Text.lines (Files.dropMark
      (mergedText style code (cleared texts valid) t)))).texts.get? key = some value := by
  have hlast : (Locale.literals style.table key (Text.lines t)).getLast? = some value := by
    rw [← Locale.get?_ofLines, htexts, ht]
  have hassigned : Locale.assignments style.table (Text.lines t) ≠ [] := by
    intro hnil
    simp [Locale.literals, hnil] at hlast
  subst htexts
  have hclears := clears_cleared style.table (Text.lines t) valid
  rw [Locale.get?_ofLines, mergedText, Locale.fileLines_of_assignments hassigned]
  refine Locale.getLast?_literals_joinLines hmark (Locale.newline_not_mem_mergeLines hassigned
    (fun line hline => Text.not_mem_of_mem_lines hline) hclears.spelled) _ ?_
  exact Locale.getLast?_literals_mergeLines (get?_cleared_of_valid hvalid ht) hblank hlast
    hclears.valid hclears.spelled hsurvives

/-- A valid text is read from the file of machine translations that is written anew. -/
theorem get?_machineText (style : Locale.Style) (base : Text) (hvalid : valid.contains key = true)
    (htexts : (Locale.Entries.ofLines style.table (Text.lines t)).texts = texts)
    (ht : texts.get? key = some value) (hblank : isBlankText value = false)
    (hread : ∀ e ∈ texts.entries, valid.contains e.1 = true → isBlankText e.2 = false →
      Locale.IsReadBack style.table key e.1 e.2) :
    (Locale.Entries.ofLines style.table (Text.lines (Files.dropMark (machineText style base
      (Locale.exactly (DataSet.withoutOrphans texts valid)))))).texts.get? key = some value := by
  obtain ⟨k, hmem, hk⟩ := Lexicon.get?_eq_some_iff.1 ht
  have hentries : ∀ e ∈ (Locale.exactly (DataSet.withoutOrphans texts valid)).entries,
      e ∈ texts.entries ∧ valid.contains e.1 = true :=
    fun _ => DataSet.mem_entries_withoutOrphans.1
  have hkept : (k, value) ∈ (DataSet.withoutOrphans texts valid).entries :=
    DataSet.mem_entries_withoutOrphans.2 ⟨hmem, by rw [KeySet.contains_congr valid hk, hvalid]⟩
  refine Locale.get?_newFile _ _ (fun line (hline : line ∈ Text.lines t) =>
    Text.not_mem_of_mem_lines hline) (fun e he => ?_)
    (DataSet.withoutOrphans texts valid).nodup_keys hkept hk hblank fun e he hb =>
      hread e (hentries e he).1 (hentries e he).2 hb
  rw [htexts]
  exact (hentries e he).1

/-- A command with exit code 0 has done its job. -/
theorem outcome_of_settle {job : Job Bool} {w w' : World}
    (h : Job.outcome (Command.settle job) w = (.ok 0, w')) :
    Job.outcome job w = (.ok true, w') := by
  obtain ⟨result, w₁, hattempt, hrest⟩ := Job.exists_of_outcome_bind h
  rw [Job.outcome_attempt] at hattempt
  obtain ⟨hresult, rfl⟩ := Prod.mk.inj hattempt
  obtain hsame : (Job.outcome job w).1 = result := Except.ok.inj hresult
  have htold : ∀ message, Job.outcome (do
      Job.record .error message
      return 1 : Job Nat) (Job.outcome job w).2 ≠ (.ok 0, w') := by
    intro message he
    obtain ⟨_, _, -, hpure⟩ := Job.exists_of_outcome_bind he
    simp at hpure
  cases result with
  | ok b =>
    cases b with
    | true => exact Prod.ext hsame (Prod.mk.inj hrest).2
    | false => simp at hrest
  | error fault => cases fault <;> exact absurd hrest (htold _)

/-- A job that is done has exit code 0. -/
theorem outcome_settle_of_done {job : Job Bool} {w w' : World}
    (h : Job.outcome job w = (.ok true, w')) :
    Job.outcome (Command.settle job) w = (.ok 0, w') := by
  rw [Command.settle, Job.outcome_bind, Job.outcome_attempt, h]
  rfl

/-- Cleaning removes orphans only: when it succeeds, a key that the sources use keeps its text in
every loaded file, if the text is not blank and the clean-up spares it. What is stated is the command
itself, without the log file that may be opened around it. -/
theorem cleanOrphans_keeps_used_texts (settings : Settings) (environmentKey : Option Text)
    (addon : Path) (backup : Bool) {w w' : World} {summary : Glue.Summary}
    {entries : Locale.Entries} {key path value : Text}
    (htable : Readers.name (.text settings.scan.table) = .ok settings.scan.table)
    (hrun : Job.outcome (Command.settle (Command.perform settings environmentKey
      (.cleanOrphans addon backup))) w = (.ok 0, w'))
    (hscan : (Job.outcome (Session.scan ⟨addon, settings⟩) w).1 = .ok summary)
    (hvalid : summary.keys.contains key = true) (hloaded : IsLoaded ⟨addon, settings⟩ w.disk path)
    (hentries : (Job.outcome ((Session.scanner ⟨addon, settings⟩).entries path) w).1 = .ok entries)
    (hvalue : entries.texts.get? key = some value) (hblank : isBlankText value = false)
    (hspares : ∀ t, HasText w.disk path t →
      Spares ⟨addon, settings⟩ w.disk summary.keys key path t) :
    ∃ entries', (Job.outcome ((Session.scanner ⟨addon, settings⟩).entries path) w').1 =
      .ok entries' ∧ entries'.texts.get? key = some value := by
  obtain ⟨t, htext, rfl⟩ := Scanner.exists_hasText hentries
  have hsafe := hspares t htext
  obtain ⟨content, t', hread, hdecode, ht⟩ := id htext
  obtain ⟨place, hholds⟩ := Disk.read_eq_ok_iff.1 hread
  obtain ⟨hlast, suffix, hname⟩ := hloaded.getLast?_of_locate hholds.1
  have hplace : IsNoBackup place := Save.isNoBackup_of_getLast? (hname ▸ hlast)
  obtain ⟨_, w₁, hcleaned, hdone⟩ := Job.exists_of_outcome_bind (outcome_of_settle hrun)
  obtain rfl : w₁ = w' := (Prod.mk.inj hdone).2
  obtain ⟨data, hloads, content', hcontent, hholds'⟩ :=
    cleaned_of_outcome hcleaned hscan hplace hdecode hholds
  suffices ∃ t'', Text.decode content' = .ok t'' ∧
      (Scanner.entriesOf (Session.scanner ⟨addon, settings⟩)
        (Files.dropMark t'')).texts.get? key = some value by
    obtain ⟨t'', hdecode', hget⟩ := this
    exact ⟨_, Scanner.outcome_entries _ ⟨content', t'', hholds'.read, hdecode', rfl⟩, hget⟩
  cases hcontent with
  | left => exact ⟨t', hdecode, ht ▸ hvalue⟩
  | @merged code texts hfile hcode htexts horphans =>
    have hnamed : (Path.ofText path).name = Locale.file code :=
      Option.some.inj (hlast.symm.trans hfile)
    obtain ⟨paths, hfiles, hpath, hlocale⟩ := hloaded.locale_of_name hcode hnamed
    obtain ⟨before, after, rfl⟩ := List.append_of_mem hpath
    have hlater := hsafe.last before after code hfiles hlocale hnamed
    have hget := hloads.last before path after code t hfiles hlocale hlater htext
    obtain rfl := Option.some.inj (htexts.symm.trans hget)
    refine ⟨_, Text.decode_encode _, ?_⟩
    rw [← ht]
    exact get?_mergedText (Session.style ⟨addon, settings⟩) code (head?_ne_mark htable) hvalid rfl
      hvalue hblank (hsafe.merged code hlocale hnamed horphans)
  | @written base texts hfile hbase htexts horphans =>
    have hnamed : (Path.ofText path).name = Locale.machineFile base :=
      Option.some.inj (hlast.symm.trans hfile)
    have hpath := hloaded.machine_of_name hbase hnamed
    have hget := hloads.machine base hbase t (hpath ▸ htext)
    obtain rfl := Option.some.inj (htexts.symm.trans hget)
    refine ⟨_, Text.decode_encode _, ?_⟩
    exact get?_machineText (Session.style ⟨addon, settings⟩) base hvalid rfl hvalue hblank
      (hsafe.written base hbase hpath horphans)

/-- An addon with one file in its localization directory. -/
def addonWith (name t : Text) : World :=
  ⟨⟨[(["A".toList], .directory), (["A".toList, "Localization".toList], .directory),
    (["A".toList, "Localization".toList, name], .file (Text.encode t))], []⟩, [], [],
    fun _ => .timeout [], [], []⟩

/-- An addon with a localization directory and the given files. -/
def addonTree (files : List (Location × Text)) : World :=
  ⟨⟨(["A".toList], .directory) :: (["A".toList, "Localization".toList], .directory) ::
    files.map fun f => ("A".toList :: f.1, .file (Text.encode f.2)), []⟩, [], [],
    fun _ => .timeout [], [], []⟩

/-- An addon whose files have proper names is a tree of text files. -/
theorem isTree_addonTree {files : List (Location × Text)}
    (h : ∀ f ∈ files, ∀ name ∈ f.1, Path.IsFileName name) : (addonTree files).disk.IsTree := by
  have hentries : ∀ entry ∈ (addonTree files).disk.nodes, entry.2 = .directory ∧
      (∀ name ∈ entry.1, Path.IsFileName name) ∨ ∃ f ∈ files,
        entry = ("A".toList :: f.1, .file (Text.encode f.2)) := by
    intro entry hentry
    rcases List.mem_cons.1 hentry with rfl | hentry
    · exact Or.inl ⟨rfl, by decide⟩
    · rcases List.mem_cons.1 hentry with rfl | hentry
      · exact Or.inl ⟨rfl, by decide⟩
      · obtain ⟨f, hf, rfl⟩ := List.mem_map.1 hentry
        exact Or.inr ⟨f, hf, rfl⟩
  constructor
  · intro entry hentry name hname
    rcases hentries entry hentry with ⟨-, hnames⟩ | ⟨f, hf, rfl⟩
    · exact hnames name hname
    · rcases List.mem_cons.1 hname with rfl | hname
      · decide
      · exact h f hf name hname
  · intro entry hentry content hcontent
    rcases hentries entry hentry with ⟨hdirectory, -⟩ | ⟨f, hf, rfl⟩
    · rw [hdirectory] at hcontent
      simp at hcontent
    · obtain rfl : Text.encode f.2 = content := by simpa using hcontent
      exact ⟨f.2, Text.decode_encode f.2⟩

/-- A result with a known value. -/
theorem exists_of_toOption_map {α β : Type} {result : Except Fault α} {f : α → β} {b : β}
    (h : result.toOption.map f = some b) : ∃ a, result = .ok a ∧ f a = b := by
  cases result with
  | error fault => simp [Except.toOption] at h
  | ok a => exact ⟨a, rfl, Option.some.inj h⟩

/-- A repeated key of a guarded file keeps its last text when an orphan is removed. -/
theorem cleanOrphans_keeps_repeated_text :
    let t := Text.joinLines ["if locale == \"deDE\" then".toList, "    L[\"Name\"] = \"a\"".toList,
      "    L[\"Sum\"] = L[\"name\"] .. \"!\"".toList, "    L[\"Gone\"] = \"x\"".toList,
      "    L[\"NAME\"] = \"b\"".toList, "end".toList] ['\n']
    let w := addonWith "deDE.lua".toList t
    let run := Job.outcome (Command.settle (Command.perform {} none
      (.cleanOrphans (.ofText "A".toList) false))) w
    run.1 = .ok 0 ∧ ∃ entries, (Job.outcome ((Session.scanner ⟨.ofText "A".toList, {}⟩).entries
      "A/Localization/deDE.lua".toList) run.2).1 = .ok entries ∧
        entries.texts.get? "name".toList = some "b".toList := by
  intro t w run
  have hcode : run.1 = .ok 0 := by decide +kernel
  obtain ⟨summary, hscan, hvalid⟩ := exists_of_toOption_map
    (show (Job.outcome (Session.scan ⟨.ofText "A".toList, {}⟩) w).1.toOption.map
      (fun summary => summary.keys.contains "name".toList) = some true by decide +kernel)
  obtain ⟨entries, hentries, hvalue⟩ := exists_of_toOption_map
    (show (Job.outcome ((Session.scanner ⟨.ofText "A".toList, {}⟩).entries
      "A/Localization/deDE.lua".toList) w).1.toOption.map
        (fun entries => entries.texts.get? "name".toList) = some (some "b".toList) by
      decide +kernel)
  have hfiles : w.disk.files (Session.directory ⟨.ofText "A".toList, {}⟩) sourcePattern false =
      .ok ["A/Localization/deDE.lua".toList] := by
    decide +kernel
  have htext : HasText w.disk "A/Localization/deDE.lua".toList t :=
    ⟨Text.encode t, t, rfl, Text.decode_encode t, by decide +kernel⟩
  have hlocale : Scanner.locale? ["GT.lua".toList] "A/Localization/deDE.lua".toList =
      some "deDE".toList := by
    decide +kernel
  have hregion : Locale.region? "L".toList (Text.lines t) = some ⟨1, 5, true⟩ := by
    decide +kernel
  have hrun : run = (.ok 0, run.2) := Job.outcome_eq_of_result hcode
  refine ⟨hcode, cleanOrphans_keeps_used_texts {} none (.ofText "A".toList) false (by decide +kernel)
    hrun hscan hvalid (.locale hfiles (by simp) hlocale) hentries hvalue
    (by decide +kernel) fun t' htext' => ?_⟩
  obtain rfl := htext.unique htext'
  refine ⟨?_, ?_, ?_⟩
  · intro before after code hsplit _ _ p hp
    have hlength := congrArg List.length (Except.ok.inj (hfiles.symm.trans hsplit))
    have hpos := List.length_pos_of_mem hp
    simp at hlength
    omega
  · intro code _ _ _ region hr
    obtain rfl : _ = region := Option.some.inj (hregion.symm.trans hr)
    have hread : ∀ a ∈ Locale.assignments "L".toList (Text.lines t),
        ∀ text ∈ (Locale.Entries.ofLines "L".toList (Text.lines t)).texts.get? a.key,
          isBlankText text = false →
            Locale.writes "L".toList ((Locale.Region.mk 1 5 true).slice (Text.lines t)) a.key text =
              true → Locale.IsReadBack "L".toList "name".toList a.key text := by
      decide +kernel
    exact Or.inr ⟨by decide +kernel, fun a ha _ => hread a ha⟩
  · intro base hbase hpath
    have hother : ∀ base ∈ Locale.machineBases, "A/Localization/deDE.lua".toList ≠
        Files.inDirectory "A/Localization".toList (Locale.machineFile base) := by
      decide +kernel
    exact absurd hpath (hother base hbase)

/-- A blank text that the sources use is lost when an orphan is removed. -/
theorem cleanOrphans_drops_blank_text :
    let t := Text.joinLines ["L[\"Name\"] = \"\"".toList,
      "L[\"Sum\"] = L[\"Name\"] .. \"!\"".toList, "L[\"Gone\"] = \"x\"".toList] ['\n']
    let s : Session := ⟨.ofText "A".toList, {}⟩
    let w := addonWith "de-GT.lua".toList t
    let run := Job.outcome (Command.settle (Command.perform s.settings none
      (.cleanOrphans s.addon false))) w
    run.1 = .ok 0 ∧
      (∃ summary, (Job.outcome s.scan w).1 = .ok summary ∧
        summary.keys.contains "Name".toList = true) ∧
      IsLoaded s w.disk "A/Localization/de-GT.lua".toList ∧
      (∃ entries, (Job.outcome (s.scanner.entries "A/Localization/de-GT.lua".toList) w).1 =
        .ok entries ∧ entries.texts.get? "Name".toList = some []) ∧
      ∃ entries, (Job.outcome (s.scanner.entries "A/Localization/de-GT.lua".toList) run.2).1 =
        .ok entries ∧ entries.texts.get? "Name".toList = none := by
  intro t s w run
  have hbase : "de".toList ∈ Locale.machineBases := by decide +kernel
  have hscan : (Job.outcome s.scan w).1.toOption.map (fun summary : Glue.Summary =>
      summary.keys.contains "Name".toList) = some true := by
    decide +kernel
  have hbefore : (Job.outcome (s.scanner.entries "A/Localization/de-GT.lua".toList)
      w).1.toOption.map (fun entries : Locale.Entries => entries.texts.get? "Name".toList) =
        some (some []) := by
    decide +kernel
  have hafter : (Job.outcome (s.scanner.entries "A/Localization/de-GT.lua".toList)
      run.2).1.toOption.map (fun entries : Locale.Entries => entries.texts.get? "Name".toList) =
        some none := by
    decide +kernel
  exact ⟨by decide +kernel, exists_of_toOption_map hscan, .machine hbase (by decide +kernel),
    exists_of_toOption_map hbefore, exists_of_toOption_map hafter⟩

end Phrasebook.Clean
