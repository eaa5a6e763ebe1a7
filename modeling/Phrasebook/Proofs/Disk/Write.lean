import Phrasebook.Disk.Basic

/-!
# Writing to a disk

Writing a file changes what stands at one place. Every path that led to a place before leads there
afterwards, since no directory is replaced, so other places keep their contents and the new content
is read back.
-/

namespace Phrasebook.Disk

/-- Setting what stands at a place changes nothing elsewhere. -/
theorem lookup_setNode (place other : Location) (node : Node) (nodes : List (Location × Node)) :
    (setNode place node nodes).lookup other =
      if other = place then some node else nodes.lookup other := by
  have hlookup : ∀ (q : Location) (n : Node) (rest : List (Location × Node)),
      ((q, n) :: rest).lookup other = if other = q then some n else rest.lookup other := by
    intro q n rest
    by_cases h : other = q
    · simp [h]
    · rw [List.lookup_cons, beq_false_of_ne h, if_neg h]
  induction nodes with
  | nil => rw [setNode, hlookup]
  | cons entry nodes ih =>
    obtain ⟨q, n⟩ := entry
    by_cases hq : q = place
    · subst hq
      by_cases h : other = q <;> simp [setNode, hlookup, h]
    · by_cases h : other = q
      · simp [setNode, hq, h]
      · simp [setNode, hq, hlookup, h, ih]

/-- What stands at a place after something was set. -/
theorem node?_set {d : Disk} {place : Location} (hplace : place ≠ []) (node : Node)
    (other : Location) :
    (d.set place node).node? other = if other = place then some node else d.node? other := by
  cases other with
  | nil => simp [node?, Ne.symm hplace]
  | cons name other => simp [node?, set, lookup_setNode]

/-- A path leads through directories, so it leads to the same place when something is set where no
directory stands. -/
theorem follow_set {d : Disk} {place : Location} (hplace : place ≠ [])
    (hnode : d.node? place ≠ some .directory) (node : Node) {start target : Location}
    {names : List Text} (h : d.follow start names = .ok target) :
    (d.set place node).follow start names = .ok target := by
  induction names generalizing start with
  | nil => exact h
  | cons name names ih =>
    unfold follow at h ⊢
    split at h
    · simp at h
    · simp at h
    · rename_i hdirectory
      have hne : start ≠ place := by
        rintro rfl
        exact hnode hdirectory
      rw [node?_set hplace, if_neg hne, hdirectory]
      exact ih h

/-- What a write does: it sets the content of a file at the place of its path, where no directory
stands. -/
theorem write_eq_ok {d d' : Disk} {p : Path} {content : ByteArray}
    (h : d.write p content = .ok d') :
    ∃ place, d.locate p = .ok place ∧ place ≠ [] ∧ d.node? place ≠ some .directory ∧
      d' = d.set place (.file content) := by
  unfold write at h
  cases hplace : d.locate p with
  | error refusal => simp [hplace] at h
  | ok place =>
    have hnode : d.node? place ≠ some .directory := by
      intro hdirectory
      simp only [hplace, hdirectory] at h
      split at h <;> simp_all
    refine ⟨place, rfl, ?_, hnode, ?_⟩
    · rintro rfl
      exact hnode rfl
    · simp only [hplace] at h
      split at h <;> simp_all

/-- A path leads to the same place after a write. -/
theorem locate_write {d d' : Disk} {p q : Path} {content : ByteArray} {place : Location}
    (h : d.write p content = .ok d') (hq : d.locate q = .ok place) : d'.locate q = .ok place := by
  obtain ⟨target, -, hne, hnode, rfl⟩ := write_eq_ok h
  exact follow_set hne hnode _ hq

/-- A written content is read back. -/
theorem read_write {d d' : Disk} {p : Path} {content : ByteArray}
    (h : d.write p content = .ok d') : d'.read p = .ok content := by
  obtain ⟨place, hplace, hne, hnode, rfl⟩ := write_eq_ok h
  have hlocate := locate_write h hplace
  simp only [read, hlocate, node?_set hne, if_true]

/-- Names that end with a proper one lead to a place with that name in a directory. -/
theorem follow_concat_iff {d : Disk} {start target : Location} {names : List Text} {name : Text}
    (hname : name ≠ ['.', '.']) :
    d.follow start (names ++ [name]) = .ok target ↔ ∃ directory,
      d.follow start names = .ok directory ∧ d.node? directory = some .directory ∧
        target = directory ++ [name] := by
  induction names generalizing start with
  | nil =>
    simp only [List.nil_append, follow, if_neg hname, Except.ok.injEq, exists_eq_left']
    cases hnode : d.node? start with
    | none => simp
    | some node => cases node <;> simp [eq_comm]
  | cons other names ih =>
    simp only [List.cons_append, follow]
    cases hnode : d.node? start with
    | none => simp
    | some node =>
      cases node with
      | file content => simp
      | directory => exact ih

/-- A path that ends with a name leads to a place with that name in a directory. -/
theorem locate_eq_ok {d : Disk} {p : Path} {place : Location} {name : Text}
    (h : d.locate p = .ok place) (hlast : p.names.getLast? = some name)
    (hname : name ≠ ['.', '.']) :
    ∃ directory, place = directory ++ [name] ∧ d.node? directory = some .directory := by
  obtain ⟨names, hnames⟩ := List.getLast?_eq_some_iff.1 hlast
  rw [locate, hnames] at h
  obtain ⟨directory, -, hnode, htarget⟩ := (follow_concat_iff hname).1 h
  exact ⟨directory, htarget, hnode⟩

/-- The last name of a path is that of the place it leads to. -/
theorem getLast?_of_locate {d : Disk} {p : Path} {place : Location} {name : Text}
    (h : d.locate p = .ok place) (hlast : p.names.getLast? = some name)
    (hname : name ≠ ['.', '.']) : place.getLast? = some name := by
  obtain ⟨directory, rfl, -⟩ := locate_eq_ok h hlast hname
  simp

/-- What a path leads to stands at its place. -/
theorem get?_eq_some_iff {d : Disk} {p : Path} {node : Node} :
    d.get? p = some node ↔ ∃ place, d.locate p = .ok place ∧ d.node? place = some node := by
  unfold get?
  cases d.locate p with
  | error refusal => simp
  | ok place => simp

/-- A path that is read leads to a file. -/
theorem read_eq_ok_iff {d : Disk} {p : Path} {content : ByteArray} :
    d.read p = .ok content ↔
      ∃ place, d.locate p = .ok place ∧ d.node? place = some (.file content) := by
  unfold read
  cases d.locate p with
  | error refusal => simp
  | ok place =>
    cases hnode : d.node? place with
    | none => simp [hnode]
    | some node => cases node <;> simp [hnode]

/-- A file that is read can be written. -/
theorem exists_write_of_read {d : Disk} {p : Path} {content : ByteArray} {name : Text}
    (h : d.read p = .ok content) (hlast : p.names.getLast? = some name)
    (hname : name ≠ ['.', '.']) (new : ByteArray) : ∃ d', d.write p new = .ok d' := by
  obtain ⟨place, hplace, hnode⟩ := read_eq_ok_iff.1 h
  obtain ⟨directory, rfl, hdirectory⟩ := locate_eq_ok hplace hlast hname
  exact ⟨d.set (directory ++ [name]) (.file new), by
    simp [write, hplace, hdirectory, hnode]⟩

/-- A path leads to a file exactly when a content is read there. -/
theorem isFile_iff {d : Disk} {p : Path} :
    d.isFile p = true ↔ ∃ content, d.read p = .ok content := by
  simp only [read_eq_ok_iff, ← get?_eq_some_iff, isFile]
  cases d.get? p with
  | none => simp
  | some node => cases node <;> simp

end Phrasebook.Disk
