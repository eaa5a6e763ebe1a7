import Mathlib.Data.List.Nodup
import Mathlib.Data.List.Perm.Subperm
import Phrasebook.Disk.Replace
import Phrasebook.Proofs.Disk.Tree

/-!
# What replacing a file does

There is always a name for a temporary file. A file that is replaced is written as if there were no
temporary file, and when any step is refused, the disk is left as it was.
-/

namespace Phrasebook.Disk

variable {d : Disk} {p : Path} {place : Location} {content : ByteArray} {name : Text}

/-! ### Temporary files -/

/-- Different numbers make different names of temporary files. -/
theorem temporaryName_injective (name : Text) : Function.Injective (temporaryName name) := by
  intro number other hsame
  have hlength := congrArg List.length hsame
  simp only [temporaryName, List.cons_append, List.length_cons, List.length_append,
    List.length_replicate] at hlength
  omega

/-- There is a place for a temporary file in every directory: more places are tried than things stand
on the disk. -/
theorem exists_mem_temporaryPlaces (d : Disk) (directory : Location) (name : Text) :
    ∃ place ∈ d.temporaryPlaces directory name, (d.node? place).isNone := by
  by_contra hnone
  push Not at hnone
  have hdistinct : (d.temporaryPlaces directory name).Nodup := by
    refine List.nodup_range.map fun number other hsame => temporaryName_injective name ?_
    exact (List.append_singleton_inj.1 hsame).2
  have hlisted : d.temporaryPlaces directory name ⊆ d.nodes.map Prod.fst := by
    intro place hplace
    obtain ⟨node, hnode⟩ : ∃ node, d.node? place = some node :=
      Option.ne_none_iff_exists'.1 fun h => hnone place hplace (Option.isNone_iff_eq_none.2 h)
    have hroot : place ≠ [] := by
      obtain ⟨number, -, rfl⟩ := List.mem_map.1 hplace
      simp
    exact List.mem_map_of_mem (mem_nodes_of_node? hnode hroot)
  have hlength := (List.subperm_of_subset hdistinct hlisted).length_le
  rw [temporaryPlaces, List.length_map, List.length_map, List.length_range] at hlength
  omega

/-- Nothing stands at the place for a temporary file, which is in the directory. -/
theorem node?_temporaryPlace (d : Disk) (directory : Location) (name : Text) :
    d.node? (d.temporaryPlace directory name) = none ∧ d.temporaryPlace directory name ≠ [] := by
  obtain ⟨free, hmem, hfree⟩ := d.exists_mem_temporaryPlaces directory name
  obtain ⟨place, hplace⟩ : ∃ place, (d.temporaryPlaces directory name).find?
      (fun place => (d.node? place).isNone) = some place :=
    Option.isSome_iff_exists.1 (List.find?_isSome.2 ⟨free, hmem, hfree⟩)
  rw [temporaryPlace, hplace, Option.getD_some]
  have hnone := List.find?_some hplace
  obtain ⟨number, -, rfl⟩ := List.mem_map.1 (List.mem_of_find?_eq_some hplace)
  exact ⟨Option.isNone_iff_eq_none.1 hnone, by simp⟩

/-! ### Removing and moving -/

/-- Nothing is removed from a place at which nothing stands. -/
theorem remove_eq_self (h : d.node? place = none) : d.remove place = d := by
  have hlookup : d.nodes.lookup place = none := by
    unfold node? at h
    split_ifs at h
    exact h
  have hnodes : (d.nodes.filter fun entry => entry.1 ≠ place) = d.nodes := by
    refine List.filter_eq_self.2 fun entry he => decide_eq_true ?_
    rintro rfl
    simpa using List.lookup_eq_none_iff.1 hlookup entry he
  rw [remove, hnodes]

/-- What is set at a place is removed with it. -/
theorem remove_set (d : Disk) (place : Location) (node : Node) :
    (d.set place node).remove place = d.remove place := by
  suffices ∀ nodes : List (Location × Node),
      ((setNode place node nodes).filter fun entry => entry.1 ≠ place) =
        nodes.filter fun entry => entry.1 ≠ place by
    rw [remove, remove, set, this]
  intro nodes
  induction nodes with
  | nil => simp [setNode]
  | cons entry rest ih =>
    by_cases hplace : entry.1 = place
    · simp [setNode, hplace]
    · simp only [setNode, if_neg hplace, List.filter_cons, ih]

/-- What is set last stands at a place. -/
theorem set_set (d : Disk) (place : Location) (node node' : Node) :
    (d.set place node).set place node' = d.set place node' := by
  suffices ∀ nodes : List (Location × Node),
      setNode place node' (setNode place node nodes) = setNode place node' nodes by
    rw [set, set, set, this]
  intro nodes
  induction nodes with
  | nil => simp [setNode]
  | cons entry rest ih =>
    by_cases hplace : entry.1 = place
    · simp [setNode, hplace]
    · simp only [setNode, if_neg hplace, ih]

/-- A file that is moved is taken away and written to the path. -/
theorem move_set (hplace : place ≠ []) :
    (d.set place (.file content)).move place p = (d.remove place).write p content := by
  rw [move, node?_set hplace, if_pos rfl]
  exact congrArg (Disk.write · p content) (remove_set d place _)

/-- A file that can be written is replaced when the system refuses no step. -/
theorem replace_eq_ok {d' : Disk} {refused : Stage → Option Text}
    (hwrite : d.write p content = .ok d') (hallowed : ∀ stage, refused stage = none) :
    d.replace p content refused = (.ok ⟨⟩, d') := by
  obtain ⟨target, hlocate⟩ : ∃ target, d.locate p = .ok target := by
    cases hlocate : d.locate p with
    | error refusal => simp [write, hlocate] at hwrite
    | ok target => exact ⟨target, rfl⟩
  have hparent : d.node? target.dropLast = some .directory := by
    cases hparent : d.node? target.dropLast with
    | none => simp [write, hlocate, hparent] at hwrite
    | some node =>
      cases node with
      | file other => simp [write, hlocate, hparent] at hwrite
      | directory => rfl
  obtain ⟨hnode, hplace⟩ := d.node?_temporaryPlace target.dropLast p.name
  simp only [replace, hlocate, hparent, fillAndMove, hallowed, set_set, move_set hplace,
    remove_eq_self hnode, hwrite]

/-- A file that is not replaced leaves the disk as it was: whichever step is refused, what was set
at the place is removed from it. -/
theorem exists_replace_eq_error {refused : Stage → Option Text}
    (h : (∃ refusal, d.write p content = .error refusal) ∨ ∃ stage, refused stage ≠ none) :
    ∃ fault, d.replace p content refused = (.error fault, d) := by
  cases hlocate : d.locate p with
  | error refusal => exact ⟨_, by rw [replace, hlocate]⟩
  | ok target =>
    obtain ⟨hnode, hplace⟩ := d.node?_temporaryPlace target.dropLast p.name
    have hremoved := remove_eq_self hnode
    have hleft : ∀ node, (d.set (d.temporaryPlace target.dropLast p.name) node).remove
        (d.temporaryPlace target.dropLast p.name) = d := fun node =>
      (remove_set d _ node).trans hremoved
    cases hparent : d.node? target.dropLast with
    | none =>
      exact ⟨.create .missing (d.temporaryPlace (d.namedPlace p.parent) p.name),
        by simp only [replace, hlocate, hparent]⟩
    | some node =>
      cases node with
      | file other =>
        exact ⟨.create .notDirectory (d.temporaryPlace (d.namedPlace p.parent) p.name),
          by simp only [replace, hlocate, hparent]⟩
      | directory =>
        simp only [replace, hlocate, hparent, fillAndMove, set_set, move_set hplace, hremoved]
        cases hcreate : refused .create with
        | some cause => exact ⟨.system cause, by simp only [hremoved]⟩
        | none =>
          cases hfill : refused .fill with
          | some cause => exact ⟨.system cause, by simp only [hleft]⟩
          | none =>
            cases hmove : refused .move with
            | some cause => exact ⟨.system cause, by simp only [hleft]⟩
            | none =>
              obtain ⟨refusal, hwrite⟩ : ∃ refusal, d.write p content = .error refusal := by
                refine h.resolve_right ?_
                rintro ⟨stage, hrefused⟩
                cases stage <;> contradiction
              exact ⟨.move refusal (d.temporaryPlace target.dropLast p.name) p,
                by simp only [hwrite, hleft]⟩

end Phrasebook.Disk
