import Phrasebook.Command.Session
import Phrasebook.Proofs.Workspace.Reading

/-!
# What a session loads from a disk

The data set that a session loads is a function of the disk. A locale has the entries of the last of
its files, and a base locale with machine translations those of its file.
-/

namespace Phrasebook

open Files (textAt)
open Job (Yields)

namespace Scanner

variable {s : Scanner} {endings : List Text} {d : Disk} {directory code base : Text}

/-- The last of some files that is loaded for a locale. -/
def lastFile? (endings : List Text) (code : Text) (paths : List Text) : Option Text :=
  paths.reverse.find? fun path => locale? endings path = some code

/-- The last file is the new one when it belongs to the locale. -/
theorem lastFile?_concat (paths : List Text) (path : Text) :
    lastFile? endings code (paths ++ [path]) =
      if locale? endings path = some code then some path else lastFile? endings code paths := by
  by_cases h : locale? endings path = some code <;> simp [lastFile?, h]

/-- Files that are loaded for no locale do not matter for the last file of one. -/
theorem lastFile?_filter (paths : List Text) :
    lastFile? endings code (paths.filter fun path => (locale? endings path).isSome) =
      lastFile? endings code paths := by
  induction paths using List.reverseRecOn with
  | nil => rfl
  | append_singleton paths path ih =>
    rw [List.filter_append, lastFile?_concat, ← ih]
    cases h : locale? endings path with
    | none => simp [h]
    | some found => simp [h, lastFile?_concat]

/-- The last file of a locale is one of its files. -/
theorem of_lastFile? {paths : List Text} {path : Text}
    (h : lastFile? endings code paths = some path) :
    path ∈ paths ∧ locale? endings path = some code := by
  have hfound := List.find?_some h
  exact ⟨List.mem_reverse.1 (List.mem_of_find?_eq_some h), by simpa using hfound⟩

/-- The file of a locale is loaded for no other one. -/
theorem eq_of_locale?_file {path other : Text} (hnamed : Path.IsNamed path (Locale.file other))
    (hother : Locale.canonical? other = some other) (h : locale? endings path = some code) :
    other = code := by
  have hstem : Path.stem (Path.ofText path).name = other := by
    rw [Path.name, hnamed.1]
    exact Locale.stem_file (Locale.mem_codes_of_canonical? hother)
  unfold locale? at h
  split at h
  · simp at h
  · rw [hstem, hother] at h
    exact Option.some.inj h

/-- The entry that a locale has in a map that is filled file by file is that of its last file. -/
theorem get?_foldl_insert {V : Type} (value : Text → V) (m : KeyMap V)
    (hcode : Locale.canonical? code = some code) (paths : List Text) :
    (paths.foldl (fun m path => match locale? endings path with
      | none => m
      | some found => m.insert found (value path)) m).get? code =
        ((lastFile? endings code paths).map value).or (m.get? code) := by
  induction paths using List.reverseRecOn with
  | nil => simp [lastFile?]
  | append_singleton paths path ih =>
    rw [List.foldl_append, List.foldl_cons, List.foldl_nil, lastFile?_concat]
    cases hfound : locale? endings path with
    | none => simpa using ih
    | some found =>
      simp only
      rw [Lexicon.get?_insert]
      by_cases hsame : found = code
      · simp [hsame]
      · have hfold : Text.fold found ≠ Text.fold code := fun h => hsame
          (Locale.eq_of_fold_eq (Locale.mem_codes_of_canonical? (canonical?_of_locale? hfound))
            (Locale.mem_codes_of_canonical? hcode) h)
        rw [if_neg hfold, ih, if_neg (by simpa using hsame)]

/-- The keys of a map that is filled file by file do not depend on the contents of the files. -/
theorem keys_foldl_insert {V : Type} (value value' : Text → V) {m m' : KeyMap V}
    (hm : m.keys = m'.keys) (paths : List Text) :
    (paths.foldl (fun m path => match locale? endings path with
      | none => m
      | some found => m.insert found (value path)) m).keys =
      (paths.foldl (fun m path => match locale? endings path with
        | none => m
        | some found => m.insert found (value' path)) m').keys := by
  induction paths generalizing m m' with
  | nil => exact hm
  | cons path paths ih =>
    rw [List.foldl_cons, List.foldl_cons]
    cases locale? endings path with
    | none => exact ih hm
    | some found => exact ih (by simp only [Lexicon.keys_insert, hm])

/-- The parts of a data set that is filled file by file. -/
theorem foldl_withFile (data : DataSet) (paths : List Text) :
    (paths.foldl (s.withFile endings d) data).texts =
        paths.foldl (fun m path => match locale? endings path with
          | none => m
          | some found => m.insert found (s.entriesOf (textAt d path)).texts) data.texts ∧
      (paths.foldl (s.withFile endings d) data).duplicates =
        paths.foldl (fun m path => match locale? endings path with
          | none => m
          | some found => m.insert found (s.entriesOf (textAt d path)).duplicates)
          data.duplicates ∧
      (paths.foldl (s.withFile endings d) data).machine = data.machine := by
  induction paths generalizing data with
  | nil => exact ⟨rfl, rfl, rfl⟩
  | cons path paths ih =>
    obtain ⟨htexts, hduplicates, hmachine⟩ := ih (s.withFile endings d data path)
    rw [List.foldl_cons, List.foldl_cons, List.foldl_cons, htexts, hduplicates, hmachine]
    unfold withFile
    cases locale? endings path <;> exact ⟨rfl, rfl, rfl⟩

/-- The codes of a data set that is filled file by file are spelled by the catalog. -/
theorem canonical?_of_mem_foldl {V : Type} (value : Text → V) {m : KeyMap V} {paths : List Text}
    (hm : ∀ code ∈ m.keys, Locale.canonical? code = some code)
    (h : code ∈ (paths.foldl (fun m path => match locale? endings path with
      | none => m
      | some found => m.insert found (value path)) m).keys) :
    Locale.canonical? code = some code := by
  induction paths using List.reverseRecOn with
  | nil => exact hm code h
  | append_singleton paths path ih =>
    rw [List.foldl_append, List.foldl_cons, List.foldl_nil] at h
    cases hfound : locale? endings path with
    | none => exact ih (by simpa [hfound] using h)
    | some found =>
      simp only [hfound] at h
      rcases Lexicon.mem_keys_of_mem_keys_insert h with h | rfl
      · exact ih h
      · exact canonical?_of_locale? hfound

/-- Loading machine translations leaves the locales alone. -/
theorem foldl_withMachineFile (loaded : DataSet × Nat) (bases : List Text) :
    (bases.foldl (s.withMachineFile directory d) loaded).1.texts = loaded.1.texts ∧
      (bases.foldl (s.withMachineFile directory d) loaded).1.duplicates = loaded.1.duplicates := by
  induction bases generalizing loaded with
  | nil => exact ⟨rfl, rfl⟩
  | cons base bases ih =>
    obtain ⟨htexts, hduplicates⟩ := ih (s.withMachineFile directory d loaded base)
    rw [List.foldl_cons, htexts, hduplicates]
    unfold withMachineFile
    split <;> exact ⟨rfl, rfl⟩

/-- Only base locales of the catalog have machine translations. -/
theorem mem_machineBases_of_mem_foldl {loaded : DataSet × Nat} (hstart : loaded.1.machine = ∅)
    {bases : List Text}
    (h : base ∈ (bases.foldl (s.withMachineFile directory d) loaded).1.machine.keys) :
    base ∈ bases := by
  induction bases using List.reverseRecOn with
  | nil => simp [hstart, Lexicon.keys] at h
  | append_singleton bases last ih =>
    rw [List.foldl_append, List.foldl_cons, List.foldl_nil, withMachineFile] at h
    split at h
    · rcases Lexicon.mem_keys_of_mem_keys_insert h with h | rfl
      · exact List.mem_append_left _ (ih h)
      · simp
    · exact List.mem_append_left _ (ih h)

end Scanner

namespace Session

variable {s : Session} {d : Disk} {code base : Text}

/-- The data set that is loaded from a disk. -/
def dataOf (s : Session) (d : Disk) : DataSet :=
  (Locale.machineBases.foldl (s.scanner.withMachineFile s.directory d)
    ((d.sourceFiles s.directory).foldl
      (s.scanner.withFile s.settings.files.otherEndings d) .empty, 0)).1

/-- The last file that is loaded for a locale. -/
def fileOf? (s : Session) (d : Disk) (code : Text) : Option Text :=
  Scanner.lastFile? s.settings.files.otherEndings code (d.sourceFiles s.directory)

/-- The path of the machine translations of a base locale. -/
def machinePath (s : Session) (base : Text) : Text :=
  Files.inDirectory s.directory (Locale.machineFile base)

/-- The path of the machine translations of a base locale ends with the name of their file. -/
theorem isNamed_machinePath (h : base ∈ Locale.machineBases) :
    Path.IsNamed (s.machinePath base) (Locale.machineFile base) :=
  Path.isNamed_inDirectory s.directory (Locale.isFileName_machineFile h)

/-- The entries of the file at a path. -/
def entriesAt (s : Session) (d : Disk) (path : Text) : Locale.Entries :=
  s.scanner.entriesOf (textAt d path)

/-- Loading a tree of text files gives its data set. -/
theorem load_yields (htree : d.IsTree) (hdirectory : d.isDirectory (.ofText s.directory) = true) :
    Yields d s.load (s.dataOf d) :=
  Yields.bind (s.scanner.loadDirectory_yields _ htree hdirectory)
    (Yields.bind (s.scanner.loadMachineFiles_yields _ htree hdirectory)
      (Yields.bind (Yields.record _ _) (Yields.pure _)))

/-- What is loaded from a tree of text files is its data set. -/
theorem eq_dataOf_of_outcome {w w' : World} {data : DataSet} (htree : w.disk.IsTree)
    (h : Job.outcome s.load w = (.ok data, w')) :
    w.disk.isDirectory (.ofText s.directory) = true ∧ data = s.dataOf w.disk ∧
      w'.disk = w.disk := by
  have hdirectory : w.disk.isDirectory (.ofText s.directory) = true := by
    obtain ⟨_, w₁, hloaded, -⟩ := Job.exists_of_outcome_bind h
    obtain ⟨_, w₂, hrequired, -⟩ := Job.exists_of_outcome_bind hloaded
    have htriple := Files.requireDirectory_triple "Directory not found: ".toList s.directory
      (P := fun d => d = w.disk) (E := fun _ => True) fun _ _ => trivial
    obtain ⟨hsame, hfound⟩ := htriple.result rfl hrequired
    exact hsame ▸ hfound
  exact ⟨hdirectory, (load_yields htree hdirectory).result rfl h⟩

/-- A locale has the texts of its last file. -/
theorem get?_texts_dataOf (hcode : Locale.canonical? code = some code) :
    (s.dataOf d).texts.get? code =
      (s.fileOf? d code).map fun path => (s.entriesAt d path).texts := by
  rw [dataOf, (Scanner.foldl_withMachineFile _ _).1, (Scanner.foldl_withFile _ _).1,
    Scanner.get?_foldl_insert _ _ hcode]
  exact Option.or_none

/-- A locale has the duplicates of its last file. -/
theorem get?_duplicates_dataOf (hcode : Locale.canonical? code = some code) :
    (s.dataOf d).duplicates.get? code =
      (s.fileOf? d code).map fun path => (s.entriesAt d path).duplicates := by
  rw [dataOf, (Scanner.foldl_withMachineFile _ _).2, (Scanner.foldl_withFile _ _).2.1,
    Scanner.get?_foldl_insert _ _ hcode]
  exact Option.or_none

/-- The catalog spells the codes of the loaded locales. -/
theorem canonical?_of_mem_codes (h : code ∈ (s.dataOf d).codes) :
    Locale.canonical? code = some code := by
  rw [DataSet.codes, dataOf, (Scanner.foldl_withMachineFile _ _).1,
    (Scanner.foldl_withFile _ _).1] at h
  refine Scanner.canonical?_of_mem_foldl _ (fun code hcode => ?_) h
  simp [DataSet.empty, Lexicon.keys] at hcode

/-- The locales that are loaded depend on the names of the source files only. -/
theorem codes_dataOf_congr {d' : Disk}
    (h : d'.sourceFiles s.directory = d.sourceFiles s.directory) :
    (s.dataOf d').codes = (s.dataOf d).codes := by
  simp only [DataSet.codes, dataOf, (Scanner.foldl_withMachineFile _ _).1,
    (Scanner.foldl_withFile _ _).1, h]
  exact Scanner.keys_foldl_insert _ _ rfl _

/-- A locale has a text of a key when its last file has it. -/
theorem text?_dataOf (hcode : Locale.canonical? code = some code) (key : Text) :
    (s.dataOf d).text? key code =
      (s.fileOf? d code).bind fun path => (s.entriesAt d path).texts.get? key := by
  rw [DataSet.text?, get?_texts_dataOf hcode, Option.bind_map]
  rfl

/-- A locale has duplicates when its last file has some. -/
theorem hasDuplicates_dataOf (hcode : Locale.canonical? code = some code) :
    (s.dataOf d).hasDuplicates code =
      (s.fileOf? d code).any fun path => !(s.entriesAt d path).duplicates.isEmpty := by
  rw [DataSet.hasDuplicates, DataSet.duplicatesOf, get?_duplicates_dataOf hcode]
  cases s.fileOf? d code <;> simp [Lexicon.values, Lexicon.isEmpty]

/-- A loaded locale has a file. -/
theorem exists_fileOf?_of_mem_codes (h : code ∈ (s.dataOf d).codes) :
    ∃ path, s.fileOf? d code = some path := by
  obtain ⟨e, he, rfl⟩ := List.mem_map.1 h
  have hget : (s.dataOf d).texts.get? e.1 = some e.2 := Lexicon.get?_eq_some_iff.2 ⟨e.1, he, rfl⟩
  rw [get?_texts_dataOf (canonical?_of_mem_codes h)] at hget
  obtain ⟨path, hpath, -⟩ := Option.map_eq_some_iff.1 hget
  exact ⟨path, hpath⟩

/-- The last file of a locale is on the disk. -/
theorem isFile_of_fileOf? (htree : d.IsTree) {path : Text} (h : s.fileOf? d code = some path) :
    d.isFile (.ofText path) = true :=
  htree.hasFileNames.isFile_of_mem_files (d.files_sourcePattern s.directory)
    (Scanner.of_lastFile? h).1

/-- A base locale has the machine translations of its file. -/
theorem get?_machine_dataOf (hbase : base ∈ Locale.machineBases) :
    (s.dataOf d).machine.get? base =
      if d.isFile (.ofText (s.machinePath base)) then
        some (s.entriesAt d (s.machinePath base)).texts
      else none := by
  rw [dataOf, Scanner.get?_foldl_withMachineFile hbase _ (List.Subset.refl _),
    (Scanner.foldl_withFile _ _).2.2]
  simp only [hbase, true_and]
  rfl

/-- Only base locales of the catalog have machine translations. -/
theorem mem_machineBases_of_mem_bases (h : base ∈ (s.dataOf d).bases) :
    base ∈ Locale.machineBases :=
  Scanner.mem_machineBases_of_mem_foldl (Scanner.foldl_withFile _ _).2.2 h

/-- A base locale of the catalog without a file of its own has no machine translations. -/
theorem get?_machine_dataOf_of_not_mem {language : Text}
    (hlanguage : Locale.language? base = some language) (hbase : base ∉ Locale.machineBases) :
    (s.dataOf d).machine.get? base = none := by
  refine Lexicon.get?_eq_none_iff.2 fun e he hfold => hbase ?_
  exact Locale.mem_machineBases_of_fold_eq hlanguage
    (mem_machineBases_of_mem_bases (List.mem_map_of_mem he)) hfold

/-- A base locale has machine translations when it has a file. -/
theorem mem_bases_iff (hbase : base ∈ Locale.machineBases) :
    base ∈ (s.dataOf d).bases ↔ d.isFile (.ofText (s.machinePath base)) = true := by
  have hget := s.get?_machine_dataOf (d := d) hbase
  constructor
  · intro hmem
    by_contra hfile
    rw [if_neg hfile, Lexicon.get?_eq_none_iff] at hget
    obtain ⟨e, he, rfl⟩ := List.mem_map.1 hmem
    exact hget e he rfl
  · intro hfile
    rw [if_pos hfile] at hget
    obtain ⟨k, hmem, hk⟩ := Lexicon.get?_eq_some_iff.1 hget
    have hk' : k ∈ (s.dataOf d).bases := List.mem_map_of_mem hmem
    rwa [Locale.eq_of_fold_base_eq (mem_machineBases_of_mem_bases hk') hbase hk] at hk'

/-- A base locale has a machine translation of a key when its file has it. -/
theorem machineText?_dataOf (hbase : base ∈ (s.dataOf d).bases) (key : Text) :
    (s.dataOf d).machineText? key base =
      (s.entriesAt d (s.machinePath base)).texts.get? key := by
  have hknown := mem_machineBases_of_mem_bases hbase
  rw [DataSet.machineText?, get?_machine_dataOf hknown, if_pos ((mem_bases_iff hknown).1 hbase)]
  rfl

end Session

end Phrasebook
