import Phrasebook.Path.Exclusion
import Phrasebook.Proofs.Path.Text

/-!
# Exclusion below a base directory

For a file below a base directory only its path from there on counts: what a path is made of before
that is dropped, whatever it is. The file is excluded exactly when the names of an exclusion stand
one after another among the directories of that path, where slashes and backslashes separate names.
-/

namespace Phrasebook.Path

/-! ### Segments -/

/-- Slashes and backslashes separate names. -/
def isSeparator (c : Char) : Bool :=
  c = '/' || c = '\\'

/-- The root that a text starts with, as a list of segments. Exactly two separators at the front are
a root of their own. -/
def rootSegments (t : Text) : List Text :=
  match (t.takeWhile isSeparator).length with
  | 0 => []
  | 2 => [['/', '/']]
  | _ => [['/']]

/-- The segments of a text: its root, and what stands between its separators. What is empty or a
single dot is no segment. -/
def segmentsOf (t : Text) : List Text :=
  rootSegments t ++ (t.splitOnP isSeparator).filter fun name => !name.isEmpty && name != ['.']

/-- The directories that lead to a file: the segments of its path without the last one. -/
def directoriesOf (p : Path) : List Text :=
  (segmentsOf p.text).dropLast

/-- A character, with the backslash read as a slash. -/
def slashed (c : Char) : Char :=
  if c = '\\' then '/' else c

/-- What is read as a slash separates names. -/
theorem slashed_eq_slash_iff {c : Char} : slashed c = '/' ↔ isSeparator c = true := by
  by_cases hc : c = '\\' <;> simp [slashed, isSeparator, hc]

/-- What does not separate names is read as it is. -/
theorem slashed_eq_self {c : Char} (hc : isSeparator c = false) : slashed c = c := by
  have hne : c ≠ '\\' := by
    rintro rfl
    simp [isSeparator] at hc
  exact if_neg hne

/-- A text with its backslashes read as slashes is cut at all separators. -/
theorem pieces_slashed (t : Text) :
    Text.pieces '/' (t.map slashed) = t.splitOnP isSeparator := by
  induction t with
  | nil => rfl
  | cons c t ih =>
    rw [List.map_cons, Text.pieces, List.splitOnP_cons_eq_if_modifyHead, ih]
    by_cases hc : isSeparator c = true
    · rw [if_pos (slashed_eq_slash_iff.2 hc), if_pos hc]
    · rw [if_neg (mt slashed_eq_slash_iff.1 hc), if_neg hc, slashed_eq_self (by simpa using hc)]
      cases hpieces : t.splitOnP isSeparator with
      | nil => exact absurd hpieces (List.splitOnP_ne_nil _ _)
      | cons piece rest => rfl

/-- The number of slashes at the front of a text decides about its root. -/
theorem rootOf_segments (t : Text) :
    (if (rootOf t).isEmpty then [] else [rootOf t]) =
      match (t.takeWhile (· = '/')).length with
      | 0 => []
      | 2 => [['/', '/']]
      | _ => [['/']] := by
  have hfront : ∀ {t : Text}, (∀ rest, t = '/' :: rest → False) → t.takeWhile (· = '/') = [] := by
    intro t ht
    cases t with
    | nil => rfl
    | cons c t =>
      have hc : c ≠ '/' := fun hc => ht t (by rw [hc])
      exact List.takeWhile_cons_of_neg (by simpa using hc)
  unfold rootOf
  split
  · simp
  · rename_i rest hthree
    simp [hfront hthree]
  · rename_i rest _ htwo
    simp [hfront htwo]
  · rename_i hone
    simp [hfront hone]

/-- A text with its backslashes read as slashes starts with the root that its separators make. -/
theorem rootOf_slashed (t : Text) :
    (if (rootOf (t.map slashed)).isEmpty then [] else [rootOf (t.map slashed)]) =
      rootSegments t := by
  have hfront : ((t.map slashed).takeWhile (· = '/')).length =
      (t.takeWhile isSeparator).length := by
    rw [List.takeWhile_map, List.length_map]
    congr 2
    funext c
    exact Bool.eq_iff_iff.2 (by simp [slashed_eq_slash_iff])
  rw [rootOf_segments, hfront]
  rfl

/-- The folded segments of a text are its segments up to case. -/
theorem foldedSegments_eq (t : Text) : foldedSegments t = (segmentsOf t).map Text.fold := by
  have hpath : ofText (t.map slashed) = ⟨rootOf (t.map slashed),
      (t.splitOnP isSeparator).filter fun name => !name.isEmpty && name != ['.']⟩ := by
    rw [ofText, pieces_slashed]
  change (ofText (t.map slashed)).segments.map Text.fold = _
  rw [hpath, segmentsOf, ← rootOf_slashed, segments, isAbsolute]
  cases (rootOf (t.map slashed)).isEmpty <;> rfl

/-! ### The search for an exclusion -/

/-- The search finds names exactly when they stand in a list one after another. -/
theorem occursIn_iff {names directories : List Text} :
    occursIn names directories = true ↔ names <:+: directories := by
  induction directories with
  | nil => simp [occursIn]
  | cons directory directories ih =>
    rw [occursIn, Bool.or_eq_true, List.isPrefixOf_iff_prefix, ih, List.infix_cons_iff]

/-! ### The path below the base directory -/

/-- The path below a base directory of a file there. -/
theorem below_inDirectory (base : Text) {r : Text} (hr : (ofText r).isAbsolute = false) :
    below (Files.inDirectory base r) base = (ofText r).text := by
  have happend : (ofText base).append (ofText r) =
      ⟨(ofText base).root, (ofText base).names ++ (ofText r).names⟩ := by
    rw [append, if_neg (by simp [hr])]
  have hreadable : ((ofText base).append (ofText r)).IsReadable :=
    happend ▸ (isReadable_ofText base).append_names (isReadable_ofText r).names
  have hroot : (ofText r).root = [] := by simpa [isAbsolute] using hr
  have hrelative : (⟨[], (ofText r).names⟩ : Path) = ofText r := by rw [← hroot]
  rw [below, Files.inDirectory, hreadable.ofText_text, happend]
  simp [relativeTo?, hrelative]

/-- A file below a base directory is excluded exactly when the names of an exclusion stand one after
another among its directories from there on, up to case. -/
theorem isExcluded_inDirectory_iff (base : Text) {r : Text} (hr : (ofText r).isAbsolute = false)
    (exclusions : List Text) :
    isExcluded (Files.inDirectory base r) base exclusions = true ↔
      ∃ exclusion ∈ exclusions, segmentsOf exclusion ≠ [] ∧
        (segmentsOf exclusion).map Text.fold <:+: (directoriesOf (ofText r)).map Text.fold := by
  simp only [isExcluded, below_inDirectory base hr, foldedSegments_eq, List.any_eq_true,
    Bool.and_eq_true, occursIn_iff, directoriesOf, List.map_dropLast]
  simp

/-- Whether a file below a base directory is excluded depends on its path from there on. It is
excluded exactly when the names of an exclusion stand one after another among the directories of
that path, up to case. So the base directory does not matter, nor does the order of the exclusions,
and with more exclusions no fewer files are excluded. -/
theorem exclusion_is_relative (base : Text) {r : Text} (hr : (ofText r).isAbsolute = false)
    (exclusions : List Text) :
    (isExcluded (Files.inDirectory base r) base exclusions = true ↔
      ∃ exclusion ∈ exclusions, segmentsOf exclusion ≠ [] ∧
        (segmentsOf exclusion).map Text.fold <:+: (directoriesOf (ofText r)).map Text.fold) ∧
    (∀ other, isExcluded (Files.inDirectory other r) other exclusions =
      isExcluded (Files.inDirectory base r) base exclusions) ∧
    (∀ reordered, exclusions.Perm reordered → isExcluded (Files.inDirectory base r) base reordered =
      isExcluded (Files.inDirectory base r) base exclusions) ∧
    ∀ more, exclusions ⊆ more → isExcluded (Files.inDirectory base r) base exclusions = true →
      isExcluded (Files.inDirectory base r) base more = true := by
  have hexcluded := fun b => isExcluded_inDirectory_iff b hr
  have hmono : ∀ few more : List Text, few ⊆ more →
      isExcluded (Files.inDirectory base r) base few = true →
        isExcluded (Files.inDirectory base r) base more = true := by
    intro few more hsubset h
    obtain ⟨exclusion, hmem, hnames⟩ := (hexcluded base few).1 h
    exact (hexcluded base more).2 ⟨exclusion, hsubset hmem, hnames⟩
  refine ⟨hexcluded base exclusions, fun other => ?_, fun reordered hperm => ?_, hmono exclusions⟩
  · exact Bool.eq_iff_iff.2 ((hexcluded other exclusions).trans (hexcluded base exclusions).symm)
  · exact Bool.eq_iff_iff.2 ⟨hmono _ _ hperm.symm.subset, hmono _ _ hperm.subset⟩

/-- The names of the base directory do not count, and backslashes separate names: a file in
`Core\LIBS` below `/Libs` is excluded by `core/libs`, but not by `libs/core`. -/
theorem exclusion_is_relative_of_backslash :
    (ofText "Core\\LIBS/x.lua".toList).isAbsolute = false ∧
    isExcluded (Files.inDirectory "/Libs".toList "Core\\LIBS/x.lua".toList) "/Libs".toList
      ["core/libs".toList] = true ∧
    isExcluded (Files.inDirectory "/Libs".toList "Core\\LIBS/x.lua".toList) "/Libs".toList
      ["libs/core".toList] = false := by
  have hr : (ofText "Core\\LIBS/x.lua".toList).isAbsolute = false := by decide +kernel
  have hiff := fun exclusions => (exclusion_is_relative "/Libs".toList hr exclusions).1
  refine ⟨hr, (hiff _).2 ⟨_, List.mem_singleton_self _, by decide +kernel, by decide +kernel⟩, ?_⟩
  rw [← Bool.not_eq_true, hiff]
  decide +kernel

end Phrasebook.Path
