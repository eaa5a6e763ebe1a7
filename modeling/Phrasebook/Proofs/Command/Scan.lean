import Phrasebook.Proofs.Command.Session
import Phrasebook.Proofs.Glue.Summary
import Phrasebook.Proofs.Workspace.Reading

/-!
# What a session scans on a disk

The keys that a scan finds are those that a tree of text files uses: a line of a scanned source file
looks them up, or the value of an assignment in the localization directory does.
-/

namespace Phrasebook.Session

open Files (textAt)
open Job (Triple Yields)

variable {s : Session} {d : Disk} {key : Text}

/-- A key is used: a scanned source file looks it up, or the value of an assignment in a file of the
localization directory does. -/
inductive Uses (s : Session) (d : Disk) (key : Text) : Prop where
  /-- A line of a scanned source file looks the key up. -/
  | source {paths : List Text} {path line : Text} {r : Glue.Reference}
      (hfiles : d.files s.addon.text s.settings.scan.pattern true = .ok paths)
      (hpath : path ∈ paths)
      (hscanned : Path.isExcluded path s.addon.text s.settings.scan.excluded = false)
      (hline : line ∈ Text.lines (textAt d path))
      (hr : r ∈ Glue.references s.scanner.patterns line) (hkey : Text.fold r.key = Text.fold key)
  /-- The value of an assignment looks the key up. -/
  | value {path line : Text} {r : Glue.Reference} (hpath : path ∈ d.sourceFiles s.directory)
      (hline : line ∈ Text.lines (textAt d path))
      (hr : r ∈ Glue.valueReferences s.scanner.patterns line)
      (hkey : Text.fold r.key = Text.fold key)

/-- A use of a key is one of every key that differs in case only. -/
theorem Uses.congr {key' : Text} (h : s.Uses d key) (hfold : Text.fold key = Text.fold key') :
    s.Uses d key' := by
  cases h with
  | source hfiles hpath hscanned hline hr hkey =>
    exact .source hfiles hpath hscanned hline hr (hkey.trans hfold)
  | value hpath hline hr hkey => exact .value hpath hline hr (hkey.trans hfold)

/-- The summaries of several files together have the keys that some file looks up. -/
theorem contains_keys_foldl_merge (s : Scanner) (d : Disk) (known : Glue.Summary)
    (paths : List Text) :
    (paths.foldl (fun known path => known.merge
      (.ofLines s.patterns s.cap path (Text.lines (textAt d path)))) known).keys.contains key =
        true ↔
      known.keys.contains key = true ∨ ∃ path ∈ paths, ∃ line ∈ Text.lines (textAt d path),
        ∃ r ∈ Glue.references s.patterns line, Text.fold r.key = Text.fold key := by
  induction paths generalizing known with
  | nil => simp
  | cons path paths ih =>
    rw [List.foldl_cons, ih, Glue.Summary.contains_keys_merge
      (Glue.Summary.isKeyed_ofLines _ _ _ _), Glue.Summary.contains_keys_ofLines]
    simp only [List.mem_cons, exists_eq_or_imp, or_assoc]

/-- The keys that files use in values come in addition. -/
theorem addUsages_yields (s : Session) (known : Glue.Summary) {paths : List Text}
    (h : ∀ path ∈ paths, Files.HasText d path (textAt d path)) :
    ∃ summary, Yields d (s.addUsages known paths) summary ∧ ∀ key,
      summary.keys.contains key = true ↔ known.keys.contains key = true ∨
        ∃ path ∈ paths, ∃ line ∈ Text.lines (textAt d path),
          ∃ r ∈ Glue.valueReferences s.scanner.patterns line, Text.fold r.key = Text.fold key := by
  induction paths generalizing known with
  | nil => exact ⟨known, Yields.pure known, by simp⟩
  | cons path paths ih =>
    have husages := s.scanner.usages_yields (h path (by simp))
    generalize hused : Locale.usedKeys s.scanner.patterns (Text.lines (textAt d path)) = used
      at husages
    obtain ⟨summary, hyields, hkeys⟩ := ih (known.addReferenced used.keys)
      fun p hp => h p (by simp [hp])
    refine ⟨summary, Yields.bind husages hyields, fun key => ?_⟩
    have hfile : (∃ k ∈ used.keys, Text.fold k = Text.fold key) ↔
        ∃ line ∈ Text.lines (textAt d path),
          ∃ r ∈ Glue.valueReferences s.scanner.patterns line, Text.fold r.key = Text.fold key := by
      rw [← KeySet.contains_iff, ← hused, Locale.usedKeys, KeySet.contains_ofList]
      constructor
      · rintro ⟨k, hk, hfold⟩
        obtain ⟨line, hline, hk⟩ := List.mem_flatMap.1 hk
        obtain ⟨r, hr, rfl⟩ := List.mem_map.1 hk
        exact ⟨line, hline, r, hr, hfold⟩
      · rintro ⟨line, hline, r, hr, hfold⟩
        exact ⟨r.key, List.mem_flatMap.2 ⟨line, hline, List.mem_map_of_mem hr⟩, hfold⟩
    rw [hkeys, Glue.Summary.contains_keys_addReferenced, hfile]
    simp only [List.mem_cons, exists_eq_or_imp, or_assoc]

/-- Specifiers are attached to a summary without a change of its keys. -/
theorem attach_yields (s : Session) (htree : d.IsTree) (hlegible : s.IsLegible d)
    (summary : Glue.Summary) :
    ∃ attached, Yields d (do
      if ← Files.isFile (Files.inDirectory s.directory (Locale.file Locale.source)) then
        let specifiers ← s.scanner.specifiers
          (Files.inDirectory s.directory (Locale.file Locale.source))
        Job.record .debug ("Attached format parameters to ".toList ++
          Text.ofNat (summary.attachable specifiers) ++ " keys".toList)
        return summary.attach specifiers
      else return summary) attached ∧
        ∀ key, attached.keys.contains key = summary.keys.contains key := by
  have hsource := Files.isFile_yields (d := d)
    (Files.inDirectory s.directory (Locale.file Locale.source))
  cases hfile : d.isFile (.ofText (Files.inDirectory s.directory (Locale.file Locale.source))) with
  | false =>
    rw [hfile] at hsource
    exact ⟨summary, Yields.bind hsource (Yields.pure _), fun _ => rfl⟩
  | true =>
    rw [hfile] at hsource
    have htext := Files.hasText_textAt htree hfile
    obtain ⟨specifiers, hspecifiers⟩ := Locale.specifiersByKey_isOk_iff.2 (hlegible _ htext)
    exact ⟨_, Yields.bind hsource (Yields.bind (s.scanner.specifiers_yields htext hspecifiers)
      (Yields.bind (Yields.record _ _) (Yields.pure _))),
      fun _ => Glue.Summary.contains_keys_attach _⟩

/-- A scan of a tree of text files finds the keys that the tree uses, if the source locale's texts
have legible numbers. -/
theorem scan_yields (htree : d.IsTree) (hlegible : s.IsLegible d)
    (haddon : d.isDirectory (.ofText s.addon.text) = true) {paths : List Text}
    (hfiles : d.files s.addon.text s.settings.scan.pattern true = .ok paths) :
    ∃ summary, Yields d s.scan summary ∧
      ∀ key, summary.keys.contains key = true ↔ s.Uses d key := by
  let scanned := paths.filter fun path =>
    !Path.isExcluded path s.addon.text s.settings.scan.excluded
  have hscanned : Yields d (s.scanner.scanFiles (.empty s.scanner.cap) scanned) _ :=
    s.scanner.scanFiles_yields _ fun path hpath => Files.hasText_textAt htree
      (htree.hasFileNames.isFile_of_mem_files hfiles (List.mem_filter.1 hpath).1)
  obtain ⟨used, husages, hused⟩ := addUsages_yields (d := d) s (scanned.foldl (fun known path =>
    known.merge (.ofLines s.scanner.patterns s.scanner.cap path (Text.lines (textAt d path))))
      (.empty s.scanner.cap)) fun path hpath => Files.hasText_textAt htree
        (htree.hasFileNames.isFile_of_mem_files (d.files_sourcePattern s.directory) hpath)
  obtain ⟨summary, hattach, hkeys⟩ := s.attach_yields htree hlegible used
  refine ⟨summary, ?_, fun key => ?_⟩
  · refine Yields.bind (Yields.bind (Files.requireDirectory_yields _ haddon)
      (Yields.bind (Files.find_yields hfiles) (Yields.bind hscanned
        (Yields.bind (Yields.record _ _) (Yields.pure _))))) ?_
    have hdirectory := Files.isDirectory_yields (d := d) s.directory
    refine Yields.bind hdirectory ?_
    split
    · exact Yields.bind (Files.find_yields (d.files_sourcePattern s.directory))
        (Yields.bind husages hattach)
    · rename_i hnone
      have hempty : d.sourceFiles s.directory = [] := if_neg hnone
      rw [hempty] at husages
      exact Yields.bind (Yields.pure _) (Yields.bind husages hattach)
  · rw [hkeys, hused, contains_keys_foldl_merge]
    constructor
    · rintro ((hnone | ⟨path, hpath, line, hline, r, hr, hkey⟩) |
        ⟨path, hpath, line, hline, r, hr, hkey⟩)
      · exact absurd hnone Bool.false_ne_true
      · obtain ⟨hfound, hkept⟩ := List.mem_filter.1 hpath
        exact .source hfiles hfound (by simpa using hkept) hline hr hkey
      · exact .value hpath hline hr hkey
    · rintro (⟨hfiles', hpath, hkept, hline, hr, hkey⟩ | ⟨hpath, hline, hr, hkey⟩)
      · obtain rfl := Except.ok.inj (hfiles.symm.trans hfiles')
        exact Or.inl (Or.inr ⟨_, List.mem_filter.2 ⟨hpath, by simp [hkept]⟩, _, hline, _, hr,
          hkey⟩)
      · exact Or.inr ⟨_, hpath, _, hline, _, hr, hkey⟩

/-- What a scan of a tree of text files has found. -/
theorem of_scan_outcome {w w' : World} {summary : Glue.Summary} (htree : w.disk.IsTree)
    (h : Job.outcome s.scan w = (.ok summary, w')) :
    w.disk.isDirectory (.ofText s.addon.text) = true ∧
      (∃ paths, w.disk.files s.addon.text s.settings.scan.pattern true = .ok paths) ∧
      (∀ key, summary.keys.contains key = true ↔ s.Uses w.disk key) ∧ s.IsLegible w.disk ∧
      w'.disk = w.disk := by
  obtain ⟨_, w₁, hscanned, -⟩ := Job.exists_of_outcome_bind h
  obtain ⟨_, w₂, hrequired, hsearched⟩ := Job.exists_of_outcome_bind hscanned
  have htriple := Files.requireDirectory_triple "Directory not found: ".toList s.addon.text
    (P := fun d => d = w.disk) (E := fun _ => True) fun _ _ => trivial
  obtain ⟨hsame, haddon⟩ := htriple.result rfl hrequired
  rw [hsame] at haddon
  obtain ⟨paths, w₃, hfound, -⟩ := Job.exists_of_outcome_bind hsearched
  have hfind := Files.find_triple s.addon.text s.settings.scan.pattern true
    (P := fun d => d = w.disk) (E := fun _ => True) fun _ _ => trivial
  obtain ⟨hsame', hfiles⟩ := hfind.result hsame hfound
  rw [hsame'] at hfiles
  have hscan := s.scan_triple (P := fun d => d = w.disk) (E := fun _ => True) fun _ _ => trivial
  obtain ⟨hdisk, hlegible⟩ := hscan.result rfl h
  rw [hdisk] at hlegible
  obtain ⟨found, hyields, hkeys⟩ := scan_yields htree hlegible haddon hfiles
  obtain ⟨rfl, -⟩ := hyields.result rfl h
  exact ⟨haddon, ⟨paths, hfiles⟩, hkeys, hlegible, hdisk⟩

end Phrasebook.Session
