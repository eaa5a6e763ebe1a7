import Phrasebook.Proofs.Disk.Write
import Phrasebook.Proofs.Path.Text
import Phrasebook.Proofs.Text.Utf8

/-!
# Trees of text files

In a tree of text files, every place consists of names of files, and the content of every file is
UTF-8. Writing a text keeps a disk such a tree. A path leads to the same place before and after a
write, and to a directory before exactly when it does so afterwards.
-/

namespace Phrasebook.Disk

/-- The names on a disk are names of files. -/
def HasFileNames (d : Disk) : Prop :=
  ∀ entry ∈ d.nodes, ∀ name ∈ entry.1, Path.IsFileName name

instance : DecidablePred HasFileNames :=
  fun d => inferInstanceAs (Decidable (∀ entry ∈ d.nodes, ∀ name ∈ entry.1, Path.IsFileName name))

/-- A disk with proper names whose files are all UTF-8. -/
structure IsTree (d : Disk) : Prop where
  /-- The names of a place are names of files. -/
  names : ∀ entry ∈ d.nodes, ∀ name ∈ entry.1, Path.IsFileName name
  /-- The content of a file is UTF-8. -/
  decodes : ∀ entry ∈ d.nodes, ∀ content, entry.2 = .file content →
    ∃ t, Text.decode content = .ok t

variable {d d' : Disk} {p q : Path} {place : Location} {content : ByteArray} {node : Node}

/-- A tree of text files has proper names. -/
theorem IsTree.hasFileNames (h : d.IsTree) : d.HasFileNames :=
  h.names

/-- What stands at a place other than the root is listed. -/
theorem mem_nodes_of_node? (h : d.node? place = some node) (hplace : place ≠ []) :
    (place, node) ∈ d.nodes := by
  rw [node?, if_neg (by simpa using hplace)] at h
  obtain ⟨before, after, hsplit, -⟩ := List.lookup_eq_some_iff.1 h
  rw [hsplit]
  simp

/-- What is listed after a place was set: what was set there, and what was listed before. -/
theorem mem_setNode {place : Location} {node : Node} {nodes : List (Location × Node)}
    {entry : Location × Node} (h : entry ∈ setNode place node nodes) :
    entry = (place, node) ∨ entry ∈ nodes := by
  induction nodes with
  | nil => exact Or.inl (by simpa [setNode] using h)
  | cons first rest ih =>
    rw [setNode] at h
    split at h
    · exact (List.mem_cons.1 h).imp_right (List.mem_cons_of_mem _)
    · rcases List.mem_cons.1 h with rfl | h
      · exact Or.inr List.mem_cons_self
      · exact (ih h).imp_right (List.mem_cons_of_mem _)

/-- The places that are listed stay listed, and one that is new comes last. -/
theorem map_fst_setNode (place : Location) (node : Node) (nodes : List (Location × Node)) :
    (setNode place node nodes).map Prod.fst =
      nodes.map Prod.fst ++ if place ∈ nodes.map Prod.fst then [] else [place] := by
  induction nodes with
  | nil => rfl
  | cons first rest ih =>
    by_cases h : first.1 = place
    · simp [setNode, h]
    · rw [setNode, if_neg h, List.map_cons, ih, List.map_cons, List.cons_append]
      simp only [List.mem_cons, Ne.symm h, false_or]

/-- A path that leads somewhere after a file was set led there before. -/
theorem follow_of_set (hplace : place ≠ []) (content : ByteArray) {start target : Location}
    {names : List Text} (h : (d.set place (.file content)).follow start names = .ok target) :
    d.follow start names = .ok target := by
  induction names generalizing start with
  | nil => exact h
  | cons name names ih =>
    unfold follow at h ⊢
    rw [node?_set hplace] at h
    by_cases hstart : start = place
    · simp [hstart] at h
    · rw [if_neg hstart] at h
      split at h
      · simp at h
      · simp at h
      · exact ih h

/-- A path leads to the same place before and after a write. -/
theorem locate_write_iff (h : d.write p content = .ok d') {target : Location} :
    d'.locate q = .ok target ↔ d.locate q = .ok target := by
  refine ⟨fun hq => ?_, locate_write h⟩
  obtain ⟨place, -, hplace, -, rfl⟩ := write_eq_ok h
  exact follow_of_set hplace content hq

/-- What a path leads to after a write. -/
theorem get?_write {target : Location} (h : d.write p content = .ok d')
    (hp : d.locate p = .ok target) :
    d'.get? q = if d.locate q = .ok target then some (.file content) else d.get? q := by
  have hiff : ∀ place, d'.locate q = .ok place ↔ d.locate q = .ok place := fun _ =>
    locate_write_iff h
  obtain ⟨place, hplace, hroot, -, rfl⟩ := write_eq_ok h
  obtain rfl : target = place := Except.ok.inj (hp.symm.trans hplace)
  cases hq : d.locate q with
  | ok other =>
    simp only [get?, (hiff other).2 hq, hq, node?_set hroot, Except.ok.injEq]
  | error refusal =>
    cases hq' : (d.set target (.file content)).locate q with
    | ok other => simp [(hiff other).1 hq'] at hq
    | error refusal' => simp [get?, hq, hq']

/-- A path leads to a directory after a write when it did so before. -/
theorem isDirectory_write (h : d.write p content = .ok d') : d'.isDirectory q = d.isDirectory q := by
  obtain ⟨target, hp, -, hnode, -⟩ := write_eq_ok h
  rw [isDirectory, isDirectory, get?_write h hp]
  split_ifs with hq
  · have hget : d.get? q ≠ some .directory := by
      simpa [get?, hq] using hnode
    split <;> simp_all
  · rfl

/-- A path leads to a file after a write when it did so before or leads to the written place. -/
theorem isFile_write {target : Location} (h : d.write p content = .ok d')
    (hp : d.locate p = .ok target) :
    d'.isFile q = if d.locate q = .ok target then true else d.isFile q := by
  rw [isFile, isFile, get?_write h hp]
  split_ifs <;> rfl

/-- A path leads to something after a write when it did so before or leads to the written place. -/
theorem exists?_write {target : Location} (h : d.write p content = .ok d')
    (hp : d.locate p = .ok target) :
    d'.exists? q = if d.locate q = .ok target then true else d.exists? q := by
  rw [exists?, exists?, get?_write h hp]
  split_ifs <;> rfl

/-- Writing a file under a proper name keeps the names of a disk proper. -/
theorem HasFileNames.write (h : d.HasFileNames) (hwrite : d.write p content = .ok d') {name : Text}
    (hlast : p.names.getLast? = some name) (hname : Path.IsFileName name) : d'.HasFileNames := by
  obtain ⟨place, hplace, -, -, rfl⟩ := write_eq_ok hwrite
  obtain ⟨directory, rfl, hdirectory⟩ := locate_eq_ok hplace hlast hname.2.2.1
  intro entry he other hother
  rcases mem_setNode he with rfl | he
  · rcases List.mem_append.1 hother with hother | hother
    · exact h _ (mem_nodes_of_node? hdirectory (List.ne_nil_of_mem hother)) other hother
    · rwa [List.mem_singleton.1 hother]
  · exact h entry he other hother

/-- A written text keeps a disk a tree of text files. -/
theorem IsTree.write (h : d.IsTree) {t : Text} {name : Text}
    (hwrite : d.write p (Text.encode t) = .ok d') (hlast : p.names.getLast? = some name)
    (hname : Path.IsFileName name) : d'.IsTree := by
  refine ⟨h.hasFileNames.write hwrite hlast hname, fun entry he content hcontent => ?_⟩
  obtain ⟨place, -, -, -, rfl⟩ := write_eq_ok hwrite
  rcases mem_setNode he with rfl | he
  · obtain rfl := Node.file.inj hcontent
    exact ⟨t, Text.decode_encode t⟩
  · exact h.decodes entry he content hcontent

/-- The file that a path leads to in a tree of text files can be decoded. -/
theorem IsTree.exists_decode (h : d.IsTree) (hfile : d.isFile p = true) :
    ∃ content t, d.read p = .ok content ∧ Text.decode content = .ok t := by
  obtain ⟨content, hread⟩ := isFile_iff.1 hfile
  obtain ⟨place, -, hnode⟩ := read_eq_ok_iff.1 hread
  have hplace : place ≠ [] := by
    rintro rfl
    simp [node?] at hnode
  obtain ⟨t, ht⟩ := h.decodes _ (mem_nodes_of_node? hnode hplace) content rfl
  exact ⟨content, t, hread, ht⟩

end Phrasebook.Disk
