import Phrasebook.Proofs.Disk.Named
import Phrasebook.Proofs.Path.Pattern
import Phrasebook.Proofs.Workspace.Backup

/-!
# Which backups are listed

The code of a locale is a part of the pattern of its backups. The names of the pattern are those of
backups of some locale file, and those of the backups of its own file when the code is plain. The
listed paths lead to files with names of the pattern, in the order of their texts.
-/

namespace Phrasebook.Backup

variable {directory code name time path : Text} {w : World} {paths : List Text}

/-- What the pattern of backups has behind the code of the locale. -/
def patternEnd : Text :=
  ".lua.*.backup".toList

/-- The pattern of backups starts with the code. -/
theorem pattern_eq (code : Text) : pattern code = spelling code ++ patternEnd := by
  rw [pattern, Locale.file, List.append_assoc, List.append_assoc]
  rfl

/-- What comes behind the code in the name of a backup. -/
theorem globMatches_patternEnd :
    Path.globMatches (Path.globFrom 0 patternEnd) name = true ↔
      ∃ time, name = Backup.path ".lua".toList time := by
  have hglob : Path.globFrom 0 patternEnd =
      ".lua.".toList.map .char ++ .anyText :: ending.map .char := by decide
  simp only [hglob, Path.globMatches_map_char_append, Path.globMatches_anyText,
    Path.globMatches_map_char]
  constructor
  · rintro ⟨_, rfl, time, _, rfl, rfl⟩
    exact ⟨time, by simp [Backup.path]⟩
  · rintro ⟨time, rfl⟩
    exact ⟨time ++ ending, by simp [Backup.path], time, ending, rfl, rfl⟩

/-- The names of the pattern of backups are those of backups of some locale file. -/
theorem exists_of_nameMatches_pattern (h : Path.nameMatches (pattern code) name = true) :
    ∃ other time, name = Backup.path (Locale.file other) time := by
  rw [Path.nameMatches, pattern_eq] at h
  obtain ⟨gs, hgs⟩ := Path.exists_globFrom_append (show ']' ∉ patternEnd by decide)
    (Nat.zero_le (spelling code).length)
  rw [hgs] at h
  obtain ⟨other, behind, rfl, hbehind⟩ := Path.exists_of_globMatches_append h
  obtain ⟨time, rfl⟩ := globMatches_patternEnd.1 hbehind
  exact ⟨other, time, by simp [Backup.path, Locale.file]⟩

/-- The names of the pattern for a plain code are those of the backups of its file. -/
theorem nameMatches_pattern_iff (hplain : Path.isPattern (spelling code) = false) :
    Path.nameMatches (pattern code) name = true ↔
      ∃ time, name = Backup.path (Locale.file (spelling code)) time := by
  rw [Path.nameMatches, pattern_eq, Path.globFrom_append_of_plain hplain,
    Path.globMatches_map_char_append]
  simp only [globMatches_patternEnd]
  constructor
  · rintro ⟨behind, rfl, time, rfl⟩
    exact ⟨time, by simp [Backup.path, Locale.file]⟩
  · rintro ⟨time, rfl⟩
    exact ⟨Backup.path ".lua".toList time, by simp [Backup.path, Locale.file], time, rfl⟩

/-- Known codes are plain, and no path. -/
theorem plain_of_canonical? {canonical : Text} (h : Locale.canonical? code = some canonical) :
    Path.isPattern (spelling code) = false ∧ '/' ∉ spelling code := by
  have hall : ∀ code ∈ Locale.codes, Path.isPattern code = false ∧ '/' ∉ code := by
    decide +kernel
  rw [spelling, h]
  exact hall canonical (Locale.mem_codes_of_canonical? h)

/-- The pattern of backups is a name when the code is no path. -/
theorem isFileName_pattern (hslash : '/' ∉ spelling code) : Path.IsFileName (pattern code) := by
  have hlong : 2 < patternEnd.length := by decide
  rw [pattern_eq]
  refine ⟨Path.append_ne ?_ _, Path.append_ne ?_ _, Path.append_ne ?_ _, ?_⟩
  · exact Nat.zero_lt_of_lt hlong
  · exact Nat.lt_of_succ_lt hlong
  · exact hlong
  · simp [hslash, show '/' ∉ patternEnd by decide]

/-- The search for the backups of a code that is no path has one step, or it is refused. -/
theorem stepsOf_pattern_cases (hslash : '/' ∉ spelling code) :
    stepsOf (pattern code) false = .error .starsInName ∨
      stepsOf (pattern code) false = .ok [.matching (pattern code)] := by
  have hstars : pattern code ≠ ['*', '*'] := by
    rw [pattern_eq]
    exact Path.append_ne (by decide) _
  refine stepsOf_of_isFileName (isFileName_pattern hslash) hstars ?_
  rw [pattern_eq, Path.isPattern, List.any_append, Bool.or_eq_true]
  exact Or.inr (by decide)

/-- The search for the backups of a known code has one step. -/
theorem stepsOf_pattern {canonical : Text} (h : Locale.canonical? code = some canonical) :
    stepsOf (pattern code) false = .ok [.matching (pattern code)] := by
  have hall : ∀ code ∈ Locale.codes, stepsOf (code ++ patternEnd) false =
      .ok [.matching (code ++ patternEnd)] := by
    decide +kernel
  have hspelling : spelling code = canonical := by
    rw [spelling, h]
    rfl
  rw [pattern_eq, hspelling]
  exact hall canonical (Locale.mem_codes_of_canonical? h)

/-- Backups are searched for and then sorted. -/
theorem outcome_all_eq (hdirectory : w.disk.isDirectory (.ofText directory) = true) :
    Job.outcome (all directory code) w =
      match w.disk.files directory (pattern code) false with
      | .ok paths => (.ok (Text.sort (paths.filter fun path =>
          Path.nameMatches (pattern code) (Path.ofText path).name)), w)
      | .error fault => (.error (.pattern fault), w) := by
  rw [all, Job.outcome_bind, outcome_requireDirectory hdirectory]
  dsimp only
  rw [Job.outcome_bind, Files.find, Job.outcome_bind, Job.outcome_get]
  dsimp only
  cases w.disk.files directory (pattern code) false <;> rfl

/-- A list of backups has files with names of the pattern, or there is a fault. -/
theorem all_cases (code : Text) (hnames : w.disk.HasFileNames)
    (hdirectory : w.disk.isDirectory (.ofText directory) = true) :
    (∃ fault, Job.outcome (all directory code) w = (.error fault, w)) ∨
      ∃ paths, Job.outcome (all directory code) w = (.ok paths, w) ∧
        ∀ path ∈ paths, w.disk.isFile (.ofText path) = true ∧
          Path.nameMatches (pattern code) (Path.ofText path).name = true := by
  rw [outcome_all_eq hdirectory]
  cases hfiles : w.disk.files directory (pattern code) false with
  | error fault => exact Or.inl ⟨_, rfl⟩
  | ok paths =>
    refine Or.inr ⟨_, rfl, fun path hpath => ?_⟩
    obtain ⟨hmem, hmatch⟩ := List.mem_filter.1 ((List.mergeSort_perm _ _).mem_iff.1 hpath)
    exact ⟨hnames.isFile_of_mem_files hfiles hmem, hmatch⟩

/-- The backups that a search of one step lists. -/
theorem outcome_all (hnames : w.disk.HasFileNames)
    (hdirectory : w.disk.isDirectory (.ofText directory) = true)
    (hsteps : stepsOf (pattern code) false = .ok [.matching (pattern code)]) :
    Job.outcome (all directory code) w =
      (.ok (w.disk.filesNamed directory (pattern code)), w) := by
  rw [outcome_all_eq hdirectory, Disk.files_eq_filesNamed hsteps]
  dsimp only
  rw [List.filter_eq_self.2 fun path hpath => ?_, Text.sort,
    List.mergeSort_of_pairwise (w.disk.pairwise_filesNamed directory (pattern code))]
  obtain ⟨name, hname, hmatch, rfl, -⟩ := hnames.mem_filesNamed_iff.1 hpath
  rwa [Path.name, Path.getLast?_names_inDirectory directory hname]

/-- The listed files for a known code are the backups of its file. -/
theorem mem_filesNamed_pattern_iff {d : Disk} {canonical : Text} (hnames : d.HasFileNames)
    (hcode : Locale.canonical? code = some canonical) :
    path ∈ d.filesNamed directory (pattern code) ↔ ∃ time, '/' ∉ time ∧
      path = Backup.path (Save.localePath directory canonical) time ∧
      d.isFile (.ofText path) = true := by
  have hspelling : spelling code = canonical := by
    rw [spelling, hcode]
    rfl
  have hfile := Locale.isFileName_file hcode
  rw [hnames.mem_filesNamed_iff]
  simp only [nameMatches_pattern_iff (plain_of_canonical? hcode).1, hspelling, Save.localePath]
  constructor
  · rintro ⟨_, hname, ⟨time, rfl⟩, rfl, hisFile⟩
    have htime : '/' ∉ time := fun hslash => hname.2.2.2 (by simp [Backup.path, hslash])
    exact ⟨time, htime, (path_inDirectory directory hfile htime).symm, hisFile⟩
  · rintro ⟨time, htime, rfl, hisFile⟩
    exact ⟨_, isFileName_path hfile htime, ⟨time, rfl⟩, path_inDirectory directory hfile htime,
      hisFile⟩

end Phrasebook.Backup
