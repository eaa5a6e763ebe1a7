import Mathlib.Data.List.Nodup
import Mathlib.Data.List.Perm.Subperm
import Phrasebook.Proofs.Disk.Find
import Phrasebook.Proofs.Key.Order

/-!
# The files of a directory

A search of one step lists the files of a directory that have a name of the pattern, in the order of
their paths.
-/

namespace Phrasebook

namespace Path

/-- The path of a file in a directory is read back. -/
theorem ofText_inDirectory (directory : Text) {name : Text} (hname : IsFileName name) :
    ofText (Files.inDirectory directory name) = (ofText directory).child name := by
  rw [inDirectory_eq directory hname]
  refine (((isReadable_ofText directory).append_names fun other hother => ?_)).ofText_text
  rw [List.mem_singleton.1 hother]
  exact hname.isReadableName

end Path

/-- The search for a pattern that is a name has one step, or it is refused. -/
theorem stepsOf_of_isFileName {pattern : Text} (hname : Path.IsFileName pattern)
    (hstars : pattern ≠ ['*', '*']) (hpattern : Path.isPattern pattern = true) :
    stepsOf pattern false = .error .starsInName ∨
      stepsOf pattern false = .ok [.matching pattern] := by
  have hending : Text.endsWith pattern ['/'] = false := by
    rw [Text.endsWith]
    cases hafter : Text.after? ['/'].reverse pattern.reverse with
    | none => rfl
    | some rest =>
      have hmem : '/' ∈ pattern.reverse := by
        rw [Text.after?_eq_some_iff.1 hafter]
        simp
      exact absurd (List.mem_reverse.1 hmem) hname.2.2.2
  have hempty : pattern.isEmpty = false := by
    simpa using hname.1
  rw [stepsOf, Path.ofText_of_isFileName hname]
  simp only [hempty, hending, Bool.false_and, Bool.false_eq_true, if_false, Path.isAbsolute,
    List.isEmpty_nil, Bool.not_true, List.mapM_cons, List.mapM_nil, Step.ofName, if_neg hstars]
  split_ifs
  · exact Or.inl rfl
  · exact Or.inr rfl

namespace Disk

variable {d : Disk} {p : Path} {place : Location} {directory pattern name path : Text}

/-- The paths of the files in a directory with names of a pattern. -/
def filesNamed (d : Disk) (directory pattern : Text) : List Text :=
  if d.isDirectory (.ofText directory) then
    Text.sort (((d.childNames (.ofText directory)).filter fun name =>
      Path.nameMatches pattern name && d.isFile ((Path.ofText directory).child name)).map
        fun name => ((Path.ofText directory).child name).text)
  else []

/-- A search of one step finds the files in the directory. -/
theorem files_eq_filesNamed {pattern : Text} (h : stepsOf pattern false = .ok [.matching pattern])
    (d : Disk) (directory : Text) :
    d.files directory pattern false = .ok (d.filesNamed directory pattern) := by
  refine files_eq_ok_iff.2 ⟨[.matching pattern], h, ?_⟩
  have hfound : (d.search [.matching pattern] (.ofText directory)).filter d.isFile =
      ((d.childNames (.ofText directory)).filter fun name => Path.nameMatches pattern name &&
        d.isFile ((Path.ofText directory).child name)).map fun name =>
          (Path.ofText directory).child name := by
    have hexists : ∀ q, d.isFile q = true → d.exists? q = true := by
      intro q hq
      unfold isFile at hq
      unfold exists?
      split at hq <;> simp_all
    simp only [search, List.isEmpty_nil, if_true]
    rw [← List.map_eq_flatMap, List.filter_map, List.filter_filter]
    congr 1
    refine List.filter_congr fun name _ => ?_
    cases hfile : d.isFile ((Path.ofText directory).child name) with
    | false => simp [hfile]
    | true => simp [hfile, hexists _ hfile]
  rw [filesNamed, hfound, List.map_map]
  rfl

/-- A file in a directory stands there under its name. -/
theorem exists_of_isFile_inDirectory (hname : Path.IsFileName name)
    (hfile : d.isFile (.ofText (Files.inDirectory directory name)) = true) :
    ∃ parent content, d.locate (.ofText directory) = .ok parent ∧
      d.isDirectory (.ofText directory) = true ∧
      d.locate (.ofText (Files.inDirectory directory name)) = .ok (parent ++ [name]) ∧
      d.node? (parent ++ [name]) = some (.file content) := by
  obtain ⟨content, hread⟩ := isFile_iff.1 hfile
  obtain ⟨place, hplace, hnode⟩ := read_eq_ok_iff.1 hread
  have hchild := hplace
  rw [Path.ofText_inDirectory directory hname] at hchild
  obtain ⟨parent, hparent, hdirectory, rfl⟩ := (locate_child_iff hname.2.2.1).1 hchild
  refine ⟨parent, content, hparent, ?_, hplace, hnode⟩
  rw [isDirectory, get?, hparent]
  simp [hdirectory]

/-- The listed files of a directory are its files with names of the pattern. -/
theorem HasFileNames.mem_filesNamed_iff (h : d.HasFileNames) :
    path ∈ d.filesNamed directory pattern ↔ ∃ name, Path.IsFileName name ∧
      Path.nameMatches pattern name = true ∧ path = Files.inDirectory directory name ∧
      d.isFile (.ofText path) = true := by
  unfold filesNamed
  constructor
  · intro hpath
    split_ifs at hpath
    · obtain ⟨name, hmem, rfl⟩ := List.mem_map.1 ((List.mergeSort_perm _ _).mem_iff.1 hpath)
      obtain ⟨hlisted, hkind⟩ := List.mem_filter.1 hmem
      obtain ⟨hmatch, hfile⟩ := Bool.and_eq_true_iff.1 hkind
      obtain ⟨place, -, hentry⟩ := mem_childNames_iff.1 hlisted
      obtain ⟨entry, he, hplace⟩ := List.mem_map.1 hentry
      have hname : Path.IsFileName name := h entry he name (by simp [hplace])
      have hpath := Path.inDirectory_eq directory hname
      refine ⟨name, hname, hmatch, hpath.symm, ?_⟩
      rwa [← hpath, Path.ofText_inDirectory directory hname]
    · simp at hpath
  · rintro ⟨name, hname, hmatch, rfl, hfile⟩
    obtain ⟨parent, content, hparent, hexists, -, hnode⟩ :=
      exists_of_isFile_inDirectory hname hfile
    rw [Path.ofText_inDirectory directory hname] at hfile
    rw [if_pos hexists]
    refine (List.mergeSort_perm _ _).mem_iff.2 (List.mem_map.2 ⟨name, List.mem_filter.2 ⟨?_, ?_⟩,
      (Path.inDirectory_eq directory hname).symm⟩)
    · exact mem_childNames_iff.2 ⟨parent, hparent,
        List.mem_map_of_mem (mem_nodes_of_node? hnode (by simp))⟩
    · rw [hmatch, hfile, Bool.and_self]

/-- The listed files of a directory are in order. -/
theorem pairwise_filesNamed (d : Disk) (directory pattern : Text) :
    (d.filesNamed directory pattern).Pairwise fun a b => Text.le a b = true := by
  unfold filesNamed
  split_ifs
  · exact Text.pairwise_sort _
  · exact List.Pairwise.nil

/-- The files of a directory are listed once, when each place stands on the disk once. -/
theorem HasFileNames.nodup_filesNamed (h : d.HasFileNames)
    (hplaces : (d.nodes.map Prod.fst).Nodup) (directory pattern : Text) :
    (d.filesNamed directory pattern).Nodup := by
  unfold filesNamed
  split_ifs
  · refine (List.mergeSort_perm _ _).nodup_iff.2 (List.Nodup.map_on ?_ (List.Nodup.filter _ ?_))
    · have hnamed : ∀ name, name ∈ (d.childNames (.ofText directory)).filter (fun name =>
          Path.nameMatches pattern name && d.isFile ((Path.ofText directory).child name)) →
          Path.ofText ((Path.ofText directory).child name).text =
            (Path.ofText directory).child name := by
        intro name hmem
        obtain ⟨place, -, hentry⟩ := mem_childNames_iff.1 (List.mem_filter.1 hmem).1
        obtain ⟨entry, he, hplace⟩ := List.mem_map.1 hentry
        have hname : Path.IsFileName name := h entry he name (by simp [hplace])
        rw [← Path.inDirectory_eq directory hname, Path.ofText_inDirectory directory hname]
      intro name hmem other hother hsame
      have hpaths := (hnamed name hmem).symm.trans ((congrArg Path.ofText hsame).trans
        (hnamed other hother))
      simpa [Path.child] using hpaths
    · cases hlocate : d.locate (.ofText directory) with
      | error refusal => simp [childNames, hlocate]
      | ok place =>
        rw [childNames_eq hlocate]
        refine hplaces.filterMap fun place place' name hname hname' => ?_
        rw [childName?_eq_some_iff.1 hname, childName?_eq_some_iff.1 hname']
  · exact List.nodup_nil

/-- A listed file of a directory stands there under its name. -/
theorem HasFileNames.locate_of_mem_filesNamed (h : d.HasFileNames)
    (hpath : path ∈ d.filesNamed directory pattern) :
    ∃ parent name, d.locate (.ofText path) = .ok (parent ++ [name]) ∧
      path = Files.inDirectory directory name := by
  obtain ⟨name, hname, -, rfl, hfile⟩ := h.mem_filesNamed_iff.1 hpath
  obtain ⟨parent, -, -, -, hplace, -⟩ := exists_of_isFile_inDirectory hname hfile
  exact ⟨parent, name, hplace, rfl⟩

/-- There are as many places of the listed files of a directory as there are listed files. -/
theorem HasFileNames.length_filesNamed_le (h : d.HasFileNames)
    (hplaces : (d.nodes.map Prod.fst).Nodup) {places : List Location}
    (hlisted : ∀ path ∈ d.filesNamed directory pattern, ∃ place ∈ places,
      d.locate (.ofText path) = .ok place) :
    (d.filesNamed directory pattern).length ≤ places.length := by
  have hdistinct : ((d.filesNamed directory pattern).map fun path =>
      d.locate (.ofText path)).Nodup := by
    refine List.Nodup.map_on (fun path hpath other hother hsame => ?_)
      (h.nodup_filesNamed hplaces directory pattern)
    obtain ⟨parent, name, hplace, rfl⟩ := h.locate_of_mem_filesNamed hpath
    obtain ⟨parent', name', hplace', rfl⟩ := h.locate_of_mem_filesNamed hother
    have hends := Except.ok.inj (hplace.symm.trans (hsame.trans hplace'))
    rw [(List.append_singleton_inj.1 hends).2]
  have hsubset : ((d.filesNamed directory pattern).map fun path => d.locate (.ofText path)) ⊆
      places.map Except.ok := by
    intro located hlocated
    obtain ⟨path, hpath, rfl⟩ := List.mem_map.1 hlocated
    obtain ⟨place, hplace, hlocate⟩ := hlisted path hpath
    exact List.mem_map.2 ⟨place, hplace, hlocate.symm⟩
  simpa using (List.subperm_of_subset hdistinct hsubset).length_le

end Disk

end Phrasebook
