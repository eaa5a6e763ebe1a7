import Phrasebook.Proofs.Disk.Named
import Phrasebook.Proofs.Workspace.Load

/-!
# The source files of a directory

The source files of a directory are listed by their names. The list stays the same when a file is
written that is on the disk already, or one that is no source file.
-/

namespace Phrasebook.Disk

variable {d d' : Disk} {p : Path} {directory path name : Text} {content : ByteArray}

/-- The paths of the source files in a directory. -/
def sourceFiles (d : Disk) (directory : Text) : List Text :=
  if d.isDirectory (.ofText directory) then
    Text.sort (((d.childNames (.ofText directory)).filter fun name =>
      Path.nameMatches sourcePattern name && d.isFile ((Path.ofText directory).child name)).map
        fun name => ((Path.ofText directory).child name).text)
  else []

/-- A search for source files finds them. -/
theorem files_sourcePattern (d : Disk) (directory : Text) :
    d.files directory sourcePattern false = .ok (d.sourceFiles directory) :=
  files_eq_filesNamed rfl d directory

/-- In a tree of text files, a source file has the path of a file in its directory. -/
theorem IsTree.exists_isFileName (htree : d.IsTree) (h : path ∈ d.sourceFiles directory) :
    ∃ name, path = Files.inDirectory directory name ∧ Path.IsFileName name ∧
      Path.nameMatches sourcePattern name = true := by
  obtain ⟨name, hname, hmatch, hpath, -⟩ := htree.hasFileNames.mem_filesNamed_iff.1 h
  exact ⟨name, hpath, hname, hmatch⟩

/-- The name of a source file is no pair of dots. -/
theorem ne_dots_of_nameMatches (h : Path.nameMatches sourcePattern name = true) :
    name ≠ ['.', '.'] := by
  obtain ⟨t, rfl⟩ := Scanner.nameMatches_sourcePattern_iff.1 h
  exact Path.append_ne (by decide) t

/-- Writing a file that is on the disk, or one that is no source file, leaves the source files of a
directory the same. -/
theorem sourceFiles_write (h : d.write p content = .ok d') (hlast : p.names.getLast? = some name)
    (hname : name ≠ ['.', '.'])
    (hkind : d.isFile p = true ∨ Path.nameMatches sourcePattern name = false) :
    d'.sourceFiles directory = d.sourceFiles directory := by
  obtain ⟨target, htarget, hroot, -⟩ := write_eq_ok h
  have hnamed : target.getLast? = some name := getLast?_of_locate htarget hlast hname
  obtain ⟨new, hchildren, hnew⟩ := exists_childNames_write (p := .ofText directory) h htarget
  -- A name that is new on the disk is not the name of a source file.
  have hdropped : new.filter (fun other => Path.nameMatches sourcePattern other &&
      d'.isFile ((Path.ofText directory).child other)) = [] := by
    rw [List.filter_eq_nil_iff]
    intro other hother
    obtain ⟨hlastOther, hunlisted⟩ := hnew other hother
    obtain rfl : name = other := Option.some.inj (hnamed.symm.trans hlastOther)
    rcases hkind with hfile | hmatch
    · obtain ⟨old, hread⟩ := isFile_iff.1 hfile
      obtain ⟨place, hplace, hnode⟩ := read_eq_ok_iff.1 hread
      obtain rfl : target = place := Except.ok.inj (htarget.symm.trans hplace)
      exact absurd (List.mem_map_of_mem (mem_nodes_of_node? hnode hroot)) hunlisted
    · simp [hmatch]
  have hsame : ∀ other ∈ d.childNames (.ofText directory),
      (Path.nameMatches sourcePattern other && d'.isFile ((Path.ofText directory).child other)) =
        (Path.nameMatches sourcePattern other &&
          d.isFile ((Path.ofText directory).child other)) := by
    intro other _
    cases hmatch : Path.nameMatches sourcePattern other with
    | false => rfl
    | true =>
      rw [Bool.true_and, Bool.true_and, isFile_write h htarget]
      split_ifs with hplace
      · rcases hkind with hfile | hother
        · obtain ⟨old, hread⟩ := isFile_iff.1 hfile
          obtain ⟨place, hlocate, hnode⟩ := read_eq_ok_iff.1 hread
          obtain rfl : target = place := Except.ok.inj (htarget.symm.trans hlocate)
          exact (isFile_iff.2 ⟨old, read_eq_ok_iff.2 ⟨target, hplace, hnode⟩⟩).symm
        · have hlastOther := getLast?_of_locate hplace (by simp [Path.child])
            (ne_dots_of_nameMatches hmatch)
          obtain rfl := Option.some.inj (hnamed.symm.trans hlastOther)
          simp [hmatch] at hother
      · rfl
  simp only [sourceFiles, isDirectory_write h, hchildren, List.filter_append, hdropped,
    List.append_nil, List.filter_congr hsame]

/-- Writing a file leaves those source files of a directory the same that are selected, when it is not
selected itself. -/
theorem filter_sourceFiles_write (h : d.write p content = .ok d')
    (hlast : p.names.getLast? = some name) (hname : name ≠ ['.', '.']) {keep : Text → Bool}
    (hkeep : keep ((Path.ofText directory).child name).text = false) :
    (d'.sourceFiles directory).filter keep = (d.sourceFiles directory).filter keep := by
  obtain ⟨target, htarget, hroot, -⟩ := write_eq_ok h
  have hnamed : target.getLast? = some name := getLast?_of_locate htarget hlast hname
  obtain ⟨new, hchildren, hnew⟩ := exists_childNames_write (p := .ofText directory) h htarget
  let path (other : Text) : Text := ((Path.ofText directory).child other).text
  let isSource (d : Disk) (other : Text) : Bool :=
    Path.nameMatches sourcePattern other && d.isFile ((Path.ofText directory).child other)
  have hdropped : new.filter (fun other => keep (path other) && isSource d' other) = [] := by
    rw [List.filter_eq_nil_iff]
    intro other hother
    obtain rfl : name = other := Option.some.inj (hnamed.symm.trans (hnew other hother).1)
    simp [path, hkeep]
  have hsame : ∀ other ∈ d.childNames (.ofText directory),
      (keep (path other) && isSource d' other) = (keep (path other) && isSource d other) := by
    intro other _
    by_cases hother : other = name
    · subst hother
      simp [path, hkeep]
    · cases hmatch : Path.nameMatches sourcePattern other with
      | false => simp [isSource, hmatch]
      | true =>
        -- Another name does not lead to the written place.
        have hplace : d.locate ((Path.ofText directory).child other) ≠ .ok target := fun hlocate =>
          hother (Option.some.inj ((getLast?_of_locate hlocate (by simp [Path.child])
            (ne_dots_of_nameMatches hmatch)).symm.trans hnamed))
        simp only [isSource, isFile_write h htarget, if_neg hplace]
  have hfound : (((d'.childNames (.ofText directory)).filter (isSource d')).map path).filter keep =
      (((d.childNames (.ofText directory)).filter (isSource d)).map path).filter keep := by
    simp only [List.filter_map, List.filter_filter, Function.comp_apply, hchildren,
      List.filter_append, hdropped, List.append_nil]
    exact congrArg (List.map path) (List.filter_congr hsame)
  simp only [sourceFiles, isDirectory_write h]
  split
  · rw [Text.filter_sort, Text.filter_sort]
    exact congrArg Text.sort hfound
  · rfl

end Phrasebook.Disk
