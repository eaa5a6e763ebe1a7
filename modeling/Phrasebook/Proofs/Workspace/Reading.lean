import Phrasebook.Proofs.Job.Reading
import Phrasebook.Proofs.Workspace.Listing

/-!
# What jobs read from a disk

What jobs read from a tree of text files is known beforehand: whether a path leads to a file or a
directory, the text of a file, what it defines and uses, and what the files of a directory are
loaded to.
-/

namespace Phrasebook

open Job (Yields)

namespace Files

variable {d : Disk} {path t : Text}

/-- The text of a file; none for what is no text file. -/
def textAt (d : Disk) (path : Text) : Text :=
  match d.read (.ofText path) with
  | .error _ => []
  | .ok content =>
    match Text.decode content with
    | .error _ => []
    | .ok t => dropMark t

/-- A file that has a text has that text. -/
theorem HasText.textAt_eq (h : HasText d path t) : textAt d path = t := by
  obtain ⟨content, t', hread, hdecode, rfl⟩ := h
  simp only [textAt, hread, hdecode]

/-- Paths that are read alike have the same text. -/
theorem textAt_congr {d' : Disk} {path' : Text}
    (h : d'.read (.ofText path') = d.read (.ofText path)) :
    textAt d' path' = textAt d path := by
  rw [textAt, h, textAt]

/-- The files of a tree of text files have texts. -/
theorem hasText_textAt (htree : d.IsTree) (hfile : d.isFile (.ofText path) = true) :
    HasText d path (textAt d path) := by
  obtain ⟨content, t, hread, hdecode⟩ := htree.exists_decode hfile
  have htext : HasText d path (dropMark t) := ⟨content, t, hread, hdecode, rfl⟩
  rwa [htext.textAt_eq]

/-- Whether a path leads to a file is read from the disk. -/
theorem isFile_yields (path : Text) : Yields d (isFile path) (d.isFile (.ofText path)) := by
  refine Yields.get fun w hw => ?_
  rw [hw]
  exact Yields.pure _

/-- Whether a path leads to a directory is read from the disk. -/
theorem isDirectory_yields (path : Text) :
    Yields d (isDirectory path) (d.isDirectory (.ofText path)) := by
  refine Yields.get fun w hw => ?_
  rw [hw]
  exact Yields.pure _

/-- A search is a search of the disk. -/
theorem find_yields {directory pattern : Text} {recursive : Bool} {paths : List Text}
    (h : d.files directory pattern recursive = .ok paths) :
    Yields d (find directory pattern recursive) paths := by
  refine Yields.get fun w hw => ?_
  rw [hw, h]
  exact Yields.pure _

/-- A directory that is required is there. -/
theorem requireDirectory_yields (what : Text) (h : d.isDirectory (.ofText path) = true) :
    Yields d (requireDirectory what path) ⟨⟩ := by
  refine Yields.bind (isDirectory_yields path) ?_
  rw [h]
  exact Yields.pure _

/-- A file that is required is there. -/
theorem requireFile_yields (h : HasText d path t) : Yields d (requireFile path) ⟨⟩ := by
  obtain ⟨content, t', hread, -⟩ := h
  refine Yields.bind (isFile_yields path) ?_
  rw [Disk.isFile_iff.2 ⟨content, hread⟩]
  exact Yields.pure _

/-- The lines of a file are those of its text. -/
theorem readLines_yields (h : HasText d path t) : Yields d (readLines path) (Text.lines t) := by
  obtain ⟨content, t', hread, hdecode, rfl⟩ := h
  have htext : Yields d (readText path) (dropMark t') := by
    refine Yields.get fun w hw => ?_
    simp only [hw, hread, hdecode]
    exact Yields.pure _
  exact Yields.bind htext (Yields.pure _)

end Files

namespace Scanner

open Files (HasText textAt)

variable {d : Disk} {path t : Text}

/-- The entries of a file are those of its text. -/
theorem entries_yields (s : Scanner) (h : HasText d path t) :
    Yields d (s.entries path) (s.entriesOf t) := by
  refine Yields.bind (Files.requireFile_yields h) (Yields.bind (Files.readLines_yields h) ?_)
  dsimp only
  split
  · exact Yields.pure _
  · exact Yields.bind (Yields.record _ _) (Yields.pure _)

/-- What a file looks up in values is read off its text. -/
theorem usages_yields (s : Scanner) (h : HasText d path t) :
    Yields d (s.usages path) (Locale.usedKeys s.patterns (Text.lines t)) :=
  Yields.bind (Files.requireFile_yields h) (Yields.bind (Files.readLines_yields h) (Yields.pure _))

/-- The specifiers of a file are those of its text, if their numbers can be read. -/
theorem specifiers_yields (s : Scanner) (h : HasText d path t)
    {specifiers : KeyMap (List Format.Specifier)}
    (hspecifiers : Locale.specifiersByKey s.patterns.table (Text.lines t) = .ok specifiers) :
    Yields d (s.specifiers path) specifiers := by
  refine Yields.bind (Files.requireFile_yields h) (Yields.bind (Files.readLines_yields h) ?_)
  rw [hspecifiers]
  exact Yields.pure _

/-- The summary of a file is that of its text. -/
theorem scanFile_yields (s : Scanner) (h : HasText d path t) :
    Yields d (s.scanFile path) (.ofLines s.patterns s.cap path (Text.lines t)) :=
  Yields.bind (Files.requireFile_yields h) (Yields.bind (Files.readLines_yields h)
    (Yields.bind (Yields.record _ _) (Yields.pure _)))

/-- The summaries of files are merged one after another. -/
theorem scanFiles_yields (s : Scanner) (known : Glue.Summary) {paths : List Text}
    (h : ∀ path ∈ paths, HasText d path (textAt d path)) :
    Yields d (s.scanFiles known paths) (paths.foldl (fun known path =>
      known.merge (.ofLines s.patterns s.cap path (Text.lines (textAt d path)))) known) := by
  induction paths generalizing known with
  | nil => exact Yields.pure known
  | cons path paths ih =>
    exact Yields.bind (s.scanFile_yields (h path (by simp))) (ih _ fun p hp => h p (by simp [hp]))

/-- The data set with the texts of one more file, if it is a locale file. -/
def withFile (s : Scanner) (endings : List Text) (d : Disk) (data : DataSet) (path : Text) :
    DataSet :=
  match locale? endings path with
  | none => data
  | some code =>
    data.addLocale code (s.entriesOf (textAt d path)).texts (s.entriesOf (textAt d path)).duplicates

/-- The data set with the machine translations of one more base locale, if it has a file, and the
number of these files. -/
def withMachineFile (s : Scanner) (directory : Text) (d : Disk) (loaded : DataSet × Nat)
    (base : Text) : DataSet × Nat :=
  if d.isFile (.ofText (Files.inDirectory directory (Locale.machineFile base))) then
    (loaded.1.addMachine base
      (s.entriesOf (textAt d (Files.inDirectory directory (Locale.machineFile base)))).texts,
        loaded.2 + 1)
  else loaded

/-- One more file is loaded. -/
theorem loadFile_yields (s : Scanner) (endings : List Text) (data : DataSet)
    (h : HasText d path (textAt d path)) :
    Yields d (s.loadFile endings data path) (s.withFile endings d data path) := by
  unfold loadFile withFile locale?
  dsimp only
  split
  · exact Yields.pure _
  · cases Locale.canonical? (Path.stem (Path.ofText path).name) with
    | none => exact Yields.bind (Yields.record _ _) (Yields.pure _)
    | some code =>
      exact Yields.bind (s.entries_yields h) (Yields.bind (Yields.record _ _) (Yields.pure _))

/-- A directory is loaded file by file. -/
theorem loadDirectory_yields (s : Scanner) {directory : Text} (endings : List Text)
    (htree : d.IsTree) (hdirectory : d.isDirectory (.ofText directory) = true) :
    Yields d (s.loadDirectory directory endings)
      ((d.sourceFiles directory).foldl (s.withFile endings d) .empty) := by
  have hfiles := d.files_sourcePattern directory
  refine Yields.bind (Files.requireDirectory_yields _ hdirectory)
    (Yields.bind (Files.find_yields hfiles) (Yields.bind (Yields.foldlM _ fun data path hpath => ?_)
      (Yields.bind (Yields.record _ _) (Yields.pure _))))
  exact s.loadFile_yields endings data
    (Files.hasText_textAt htree (htree.hasFileNames.isFile_of_mem_files hfiles hpath))

/-- The machine translations of all base locales are loaded when their files have texts. -/
theorem loadMachineFiles_yields_of_hasText (s : Scanner) {directory : Text} (data : DataSet)
    (hdirectory : d.isDirectory (.ofText directory) = true)
    (hfiles : ∀ base ∈ Locale.machineBases,
      d.isFile (.ofText (Files.inDirectory directory (Locale.machineFile base))) = true →
        ∃ t, HasText d (Files.inDirectory directory (Locale.machineFile base)) t) :
    Yields d (s.loadMachineFiles directory data)
      (Locale.machineBases.foldl (s.withMachineFile directory d) (data, 0)) := by
  refine Yields.bind (Files.requireDirectory_yields _ hdirectory)
    (Yields.foldlM _ fun loaded base hbase => ?_)
  refine Yields.bind (Files.isFile_yields _) ?_
  unfold withMachineFile
  split
  · rename_i hfile
    obtain ⟨t, htext⟩ := hfiles base hbase hfile
    rw [htext.textAt_eq]
    exact Yields.bind (s.entries_yields htext) (Yields.pure _)
  · exact Yields.bind (Yields.record _ _) (Yields.pure _)

/-- The machine translations of all base locales are loaded from a tree of text files. -/
theorem loadMachineFiles_yields (s : Scanner) {directory : Text} (data : DataSet)
    (htree : d.IsTree) (hdirectory : d.isDirectory (.ofText directory) = true) :
    Yields d (s.loadMachineFiles directory data)
      (Locale.machineBases.foldl (s.withMachineFile directory d) (data, 0)) :=
  s.loadMachineFiles_yields_of_hasText data hdirectory fun _ _ hfile =>
    ⟨_, Files.hasText_textAt htree hfile⟩

/-- The file of the machine translations of a base locale is loaded for no locale. -/
theorem locale?_machineFile {endings : List Text} {base : Text}
    (hnamed : Path.IsNamed path (Locale.machineFile base))
    (hbase : base ∈ Locale.machineBases) : locale? endings path = none := by
  have hstem : Locale.canonical? (Path.stem (Path.ofText path).name) = none := by
    rw [Path.name, hnamed.1]
    exact Locale.canonical?_stem_machineFile hbase
  unfold locale?
  split
  · rfl
  · exact hstem

/-- A base locale has the machine translations of its file, if it has one. -/
theorem get?_foldl_withMachineFile {s : Scanner} {directory base : Text}
    (hbase : base ∈ Locale.machineBases) (loaded : DataSet × Nat)
    {bases : List Text} (hbases : bases ⊆ Locale.machineBases) :
    (bases.foldl (s.withMachineFile directory d) loaded).1.machine.get? base =
      if base ∈ bases ∧ d.isFile (.ofText (Files.inDirectory directory (Locale.machineFile base)))
      then some (s.entriesOf (textAt d (Files.inDirectory directory
        (Locale.machineFile base)))).texts
      else loaded.1.machine.get? base := by
  induction bases using List.reverseRecOn with
  | nil => simp
  | append_singleton bases last ih =>
    have hlast := hbases (List.mem_append_right bases (List.mem_singleton_self last))
    have hbefore := ih fun b hb => hbases (List.mem_append_left _ hb)
    rw [List.foldl_append, List.foldl_cons, List.foldl_nil]
    generalize bases.foldl (s.withMachineFile directory d) loaded = before at hbefore ⊢
    unfold withMachineFile
    by_cases hsame : last = base
    · subst hsame
      split
      · rename_i hfile
        rw [DataSet.addMachine, Lexicon.get?_insert, if_pos rfl, if_pos ⟨by simp, hfile⟩]
      · rename_i hfile
        rw [hbefore, if_neg fun h => hfile h.2, if_neg fun h => hfile h.2]
    · have hfold : Text.fold last ≠ Text.fold base := fun h =>
        hsame (Locale.eq_of_fold_base_eq hlast hbase h)
      have hmem : base ∈ bases ++ [last] ↔ base ∈ bases := by simp [Ne.symm hsame]
      simp only [hmem]
      split
      · rw [DataSet.addMachine, Lexicon.get?_insert, if_neg hfold]
        exact hbefore
      · exact hbefore

end Scanner

end Phrasebook
