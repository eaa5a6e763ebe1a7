import Phrasebook.Proofs.Disk.Tree

/-!
# What stays the same on a disk

Writing and deleting files changes no directory, so every path leads to the same place as before, and
changes nothing under names other than that of the file. Files that are deleted one after another are
removed, and nothing else is.
-/

namespace Phrasebook.Disk

variable {d d' d'' : Disk} {p q : Path} {place other : Location} {content : ByteArray}
  {own own' : Text → Prop} {name : Text}

/-- What a deletion does: it takes away the file at the place of its path. -/
theorem delete_eq_ok (h : d.delete p = .ok d') :
    ∃ place content, d.locate p = .ok place ∧ d.node? place = some (.file content) ∧
      place ≠ [] ∧ d' = { d with nodes := d.nodes.filter fun entry => entry.1 ≠ place } := by
  unfold delete at h
  cases hplace : d.locate p with
  | error refusal => simp [hplace] at h
  | ok place =>
    cases hnode : d.node? place with
    | none => simp [hplace, hnode] at h
    | some node =>
      cases node with
      | directory => simp [hplace, hnode] at h
      | file content =>
        simp only [hplace, hnode] at h
        refine ⟨place, content, rfl, hnode, ?_, (Except.ok.inj h).symm⟩
        rintro rfl
        simp [node?] at hnode

/-- What stands at a place after the file at another one was taken away. -/
theorem node?_filter (hplace : place ≠ []) (other : Location) :
    ({ d with nodes := d.nodes.filter fun entry => entry.1 ≠ place } : Disk).node? other =
      if other = place then none else d.node? other := by
  have hlookup : ∀ nodes : List (Location × Node),
      (nodes.filter fun entry => entry.1 ≠ place).lookup other =
        if other = place then none else nodes.lookup other := by
    intro nodes
    induction nodes with
    | nil => simp
    | cons entry nodes ih =>
      obtain ⟨start, node⟩ := entry
      by_cases hstart : start = place
      · rw [List.filter_cons_of_neg (by simp [hstart]), ih]
        split_ifs with hother
        · rfl
        · rw [List.lookup_cons, beq_false_of_ne (hstart ▸ hother)]
      · rw [List.filter_cons_of_pos (by simp [hstart]), List.lookup_cons, List.lookup_cons, ih]
        by_cases hsame : other = start
        · subst hsame
          simp [hstart]
        · rw [beq_false_of_ne hsame]
  cases other with
  | nil => simp [node?, Ne.symm hplace]
  | cons first rest => simpa [node?] using hlookup d.nodes

/-- A path leads to a directory. -/
theorem isDirectory_iff :
    d.isDirectory p = true ↔ ∃ place, d.locate p = .ok place ∧ d.node? place = some .directory := by
  rw [← get?_eq_some_iff, isDirectory]
  cases d.get? p with
  | none => simp
  | some node => cases node <;> simp

/-- A disk that differs from another one in files with certain names at most. -/
structure ChangesOnly (own : Text → Prop) (d d' : Disk) : Prop where
  /-- The working directory is the same. -/
  working : d'.working = d.working
  /-- The directories are the same. -/
  directories : ∀ place, d'.node? place = some .directory ↔ d.node? place = some .directory
  /-- What stands under other names is the same. -/
  others : ∀ place, (∀ name, place.getLast? = some name → ¬ own name) →
    d'.node? place = d.node? place

namespace ChangesOnly

/-- A disk does not differ from itself. -/
theorem refl (d : Disk) : ChangesOnly own d d :=
  ⟨rfl, fun _ => Iff.rfl, fun _ _ => rfl⟩

/-- Changes may follow each other. -/
theorem trans (h : ChangesOnly own d d') (h' : ChangesOnly own d' d'') : ChangesOnly own d d'' :=
  ⟨h'.working.trans h.working, fun place => (h'.directories place).trans (h.directories place),
    fun place hplace => (h'.others place hplace).trans (h.others place hplace)⟩

/-- Changes under some names are changes under more of them. -/
theorem mono (h : ChangesOnly own d d') (hown : ∀ name, own name → own' name) :
    ChangesOnly own' d d' :=
  ⟨h.working, h.directories, fun place hplace =>
    h.others place fun name hname hn => hplace name hname (hown name hn)⟩

/-- Names that lead through directories lead to the same place. -/
theorem follow (h : ChangesOnly own d d') {start target : Location} {names : List Text}
    (hfollow : d.follow start names = .ok target) : d'.follow start names = .ok target := by
  induction names generalizing start with
  | nil => exact hfollow
  | cons first names ih =>
    rw [Disk.follow] at hfollow ⊢
    split at hfollow
    · simp at hfollow
    · simp at hfollow
    · rename_i hdirectory
      rw [(h.directories start).2 hdirectory]
      exact ih hfollow

/-- The changes may be undone. -/
theorem symm (h : ChangesOnly own d d') : ChangesOnly own d' d :=
  ⟨h.working.symm, fun place => (h.directories place).symm, fun place hplace =>
    (h.others place hplace).symm⟩

/-- A path leads to the same place as before. -/
theorem locate_iff (h : ChangesOnly own d d') : d'.locate q = .ok place ↔ d.locate q = .ok place := by
  unfold locate
  rw [h.working]
  exact ⟨h.symm.follow, h.follow⟩

/-- A path leads to a directory when it did so before. -/
theorem isDirectory_eq (h : ChangesOnly own d d') : d'.isDirectory q = d.isDirectory q := by
  have hsame : ∀ {d₁ d₂ : Disk}, ChangesOnly own d₁ d₂ → d₁.isDirectory q = true →
      d₂.isDirectory q = true := by
    intro d₁ d₂ hchanges hdirectory
    rw [isDirectory_iff] at hdirectory ⊢
    obtain ⟨place, hplace, hnode⟩ := hdirectory
    exact ⟨place, hchanges.locate_iff.2 hplace, (hchanges.directories place).2 hnode⟩
  rw [Bool.eq_iff_iff]
  exact ⟨hsame h.symm, hsame h⟩

/-- A file under another name is read as before. -/
theorem read_iff (h : ChangesOnly own d d') (hlast : p.names.getLast? = some name)
    (hname : name ≠ ['.', '.']) (hown : ¬ own name) :
    d'.read p = .ok content ↔ d.read p = .ok content := by
  rw [read_eq_ok_iff, read_eq_ok_iff]
  refine exists_congr fun place => ?_
  rw [h.locate_iff]
  refine and_congr_right fun hplace => ?_
  rw [h.others place fun other hother => ?_]
  rwa [Option.some.inj (hother.symm.trans (getLast?_of_locate hplace hlast hname))]

/-- A file is written under its name. -/
theorem of_write (h : d.write p content = .ok d') (hlast : p.names.getLast? = some name)
    (hname : name ≠ ['.', '.']) (hown : own name) : ChangesOnly own d d' := by
  obtain ⟨place, hplace, hroot, hnode, rfl⟩ := write_eq_ok h
  have hnamed := getLast?_of_locate hplace hlast hname
  refine ⟨rfl, fun other => ?_, fun other hother => ?_⟩
  · rw [node?_set hroot]
    split_ifs with hsame
    · subst hsame
      simp [hnode]
    · rfl
  · rw [node?_set hroot, if_neg]
    rintro rfl
    exact hother name hnamed hown

/-- A file is deleted under the name of its place. -/
theorem of_delete (h : d.delete p = .ok d')
    (hown : ∀ place name, d.locate p = .ok place → place.getLast? = some name → own name) :
    ChangesOnly own d d' := by
  obtain ⟨place, content, hplace, hnode, hroot, rfl⟩ := delete_eq_ok h
  refine ⟨rfl, fun other => ?_, fun other hother => ?_⟩
  · rw [node?_filter hroot]
    split_ifs with hsame
    · subst hsame
      simp [hnode]
    · rfl
  · rw [node?_filter hroot, if_neg]
    rintro rfl
    have hname := List.getLast?_eq_some_getLast hroot
    exact hother _ hname (hown _ _ hplace hname)

end ChangesOnly

/-- A disk without some of the files of another one. -/
structure Without (removed : List Location) (d d' : Disk) : Prop where
  /-- The working directory is the same. -/
  working : d'.working = d.working
  /-- What is removed was a file. -/
  files : ∀ place ∈ removed, ∃ content, d.node? place = some (.file content)
  /-- Everything else is the same. -/
  rest : ∀ place, d'.node? place = if place ∈ removed then none else d.node? place

namespace Without

variable {removed : List Location}

/-- Nothing is removed. -/
theorem refl (d : Disk) : Without [] d d :=
  ⟨rfl, by simp, by simp⟩

/-- Removed files are changes under their names. -/
theorem changesOnly (h : Without removed d d')
    (hown : ∀ place ∈ removed, ∀ name, place.getLast? = some name → own name) :
    ChangesOnly own d d' := by
  refine ⟨h.working, fun place => ?_, fun place hplace => ?_⟩
  · rw [h.rest]
    split_ifs with hremoved
    · obtain ⟨content, hnode⟩ := h.files place hremoved
      simp [hnode]
    · rfl
  · rw [h.rest, if_neg fun hremoved => ?_]
    obtain ⟨content, hnode⟩ := h.files place hremoved
    have hroot : place ≠ [] := by
      rintro rfl
      simp [node?] at hnode
    have hlast := List.getLast?_eq_some_getLast hroot
    exact hplace _ hlast (hown place hremoved _ hlast)

/-- A file is deleted, or it is removed already. -/
theorem delete (h : Without removed d d') (hfile : d.isFile p = true) :
    ∃ place, d.locate p = .ok place ∧
      (place ∈ removed ∧ d'.delete p = .error .missing ∨
        place ∉ removed ∧ ∃ d'', d'.delete p = .ok d'' ∧ Without (place :: removed) d d'') := by
  obtain ⟨content, hread⟩ := isFile_iff.1 hfile
  obtain ⟨place, hplace, hnode⟩ := read_eq_ok_iff.1 hread
  have hchanges : ChangesOnly (fun _ => True) d d' := h.changesOnly fun _ _ _ _ => trivial
  have hplace' := hchanges.locate_iff.2 hplace
  have hroot : place ≠ [] := by
    rintro rfl
    simp [node?] at hnode
  refine ⟨place, hplace, ?_⟩
  by_cases hremoved : place ∈ removed
  · refine Or.inl ⟨hremoved, ?_⟩
    have hnode' := h.rest place
    rw [if_pos hremoved] at hnode'
    simp only [Disk.delete, hplace', hnode']
  · have hnode' := h.rest place
    rw [if_neg hremoved, hnode] at hnode'
    refine Or.inr ⟨hremoved, { d' with nodes := d'.nodes.filter fun entry => entry.1 ≠ place },
      by simp only [Disk.delete, hplace', hnode'], h.working, fun other hother => ?_,
      fun other => ?_⟩
    · rcases List.mem_cons.1 hother with rfl | hother
      · exact ⟨content, hnode⟩
      · exact h.files other hother
    · rw [node?_filter hroot, h.rest]
      by_cases hsame : other = place <;> simp [hsame]

/-- No file is left where one was removed. -/
theorem isFile_eq_false (h : Without removed d d')
    (hremoved : d.isFile p = true → ∃ place ∈ removed, d.locate p = .ok place) :
    d'.isFile p = false := by
  cases hfile : d'.isFile p with
  | false => rfl
  | true =>
    obtain ⟨content, hread⟩ := isFile_iff.1 hfile
    obtain ⟨place, hplace, hnode⟩ := read_eq_ok_iff.1 hread
    have hchanges : ChangesOnly (fun _ => True) d d' := h.changesOnly fun _ _ _ _ => trivial
    rw [hchanges.locate_iff] at hplace
    rw [h.rest] at hnode
    split_ifs at hnode with hgone
    obtain ⟨other, hother, hlocate⟩ :=
      hremoved (isFile_iff.2 ⟨content, read_eq_ok_iff.2 ⟨place, hplace, hnode⟩⟩)
    obtain rfl := Except.ok.inj (hlocate.symm.trans hplace)
    exact absurd hother hgone

end Without

/-- What is a file after a deletion was one before. -/
theorem isFile_of_delete (h : d.delete p = .ok d') (hfile : d'.isFile q = true) :
    d.isFile q = true := by
  have hchanges : ChangesOnly (fun _ => True) d d' := .of_delete h fun _ _ _ _ => trivial
  obtain ⟨content, hread⟩ := isFile_iff.1 hfile
  obtain ⟨other, hother, hnode⟩ := read_eq_ok_iff.1 hread
  rw [hchanges.locate_iff] at hother
  obtain ⟨place, -, -, -, hroot, rfl⟩ := delete_eq_ok h
  rw [node?_filter hroot] at hnode
  split_ifs at hnode
  exact isFile_iff.2 ⟨content, read_eq_ok_iff.2 ⟨other, hother, hnode⟩⟩

/-- Deleting a file keeps the names of a disk proper. -/
theorem HasFileNames.delete (h : d.HasFileNames) (hdelete : d.delete p = .ok d') :
    d'.HasFileNames := by
  obtain ⟨place, content, -, -, -, rfl⟩ := delete_eq_ok hdelete
  exact fun entry he => h entry (List.mem_filter.1 he).1

end Phrasebook.Disk
