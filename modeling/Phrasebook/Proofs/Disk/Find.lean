import Phrasebook.Disk.Find
import Phrasebook.Proofs.Disk.Tree

/-!
# What a search finds

The files that a search of a disk with proper names finds are files under the paths that their texts
write. What a search finds before a write it finds afterwards, and of the files that are there before
it finds no others.
-/

namespace Phrasebook

/-- Whether a step of a search leads to names that are kept when a path is read. -/
def Step.IsReadable : Step → Prop
  | .named name => Path.IsReadableName name
  | _ => True

/-- The steps for readable names are readable. -/
theorem Step.isReadable_of_mapM {names : List Text} {steps : List Step}
    (hnames : ∀ name ∈ names, Path.IsReadableName name) (h : names.mapM Step.ofName = .ok steps) :
    ∀ step ∈ steps, step.IsReadable := by
  induction names generalizing steps with
  | nil =>
    obtain rfl : [] = steps := Except.ok.inj h
    simp
  | cons name names ih =>
    rw [List.mapM_cons] at h
    cases hfirst : Step.ofName name with
    | error fault => simp [hfirst, bind, Except.bind] at h
    | ok first =>
      cases hrest : names.mapM Step.ofName with
      | error fault => simp [hfirst, hrest, bind, Except.bind] at h
      | ok rest =>
        obtain rfl : first :: rest = steps := by
          simpa [hfirst, hrest, bind, Except.bind, pure, Except.pure] using h
        intro step hstep
        rcases List.mem_cons.1 hstep with rfl | hstep
        · unfold Step.ofName at hfirst
          split_ifs at hfirst <;> obtain rfl := Except.ok.inj hfirst
          · trivial
          · trivial
          · exact hnames name (by simp)
        · exact ih (fun n hn => hnames n (by simp [hn])) hrest step hstep

/-- The steps of a search pattern are readable. -/
theorem isReadable_of_stepsOf {pattern : Text} {recursive : Bool} {steps : List Step}
    (h : stepsOf pattern recursive = .ok steps) : ∀ step ∈ steps, step.IsReadable := by
  have hfinal : ∀ step ∈ (if Text.endsWith pattern ['/'] then [Step.here] else []),
      step.IsReadable := by
    intro step hstep
    split_ifs at hstep
    · rw [List.mem_singleton.1 hstep]
      trivial
    · simp at hstep
  simp only [stepsOf] at h
  generalize (if Text.endsWith pattern ['/'] then [Step.here] else []) = final at h hfinal
  split at h
  · simp at h
  split at h
  · simp at h
  cases hfound : (Path.ofText pattern).names.mapM Step.ofName with
  | error fault => simp [hfound, bind, Except.bind] at h
  | ok found =>
    have hnamed := Step.isReadable_of_mapM (Path.isReadable_ofText pattern).names hfound
    have hboth : ∀ step ∈ found ++ final, step.IsReadable := fun step hstep =>
      (List.mem_append.1 hstep).elim (hnamed step) (hfinal step)
    simp only [hfound, bind, Except.bind] at h
    split at h
    · obtain rfl := Except.ok.inj h
      intro step hstep
      rcases List.mem_cons.1 hstep with rfl | hstep
      · trivial
      · exact hboth step hstep
    · split at h
      · simp [throw, throwThe, MonadExceptOf.throw] at h
      · simp [throw, throwThe, MonadExceptOf.throw] at h
      · obtain rfl := Except.ok.inj h
        exact hboth

namespace Disk

variable {d d' : Disk} {p q r : Path} {content : ByteArray} {name : Text}

/-- The name under which a place stands in a directory, if it stands there. -/
def childName? (directory place : Location) : Option Text :=
  match place.getLast? with
  | some name => if place = directory ++ [name] then some name else none
  | none => none

/-- The name of a place in a directory is its last one. -/
theorem childName?_eq_some_iff {directory place : Location} :
    childName? directory place = some name ↔ place = directory ++ [name] := by
  unfold childName?
  constructor
  · intro h
    split at h
    · split_ifs at h with hplace
      obtain rfl := Option.some.inj h
      exact hplace
    · simp at h
  · rintro rfl
    simp

/-- The names in a directory are those of the places of the disk. -/
theorem childNames_eq {directory : Location} (h : d.locate p = .ok directory) :
    d.childNames p = (d.nodes.map Prod.fst).filterMap (childName? directory) := by
  rw [childNames, h, List.filterMap_map]
  rfl

/-- What stands in a directory is listed under its name. -/
theorem mem_childNames_iff :
    name ∈ d.childNames p ↔
      ∃ place, d.locate p = .ok place ∧ place ++ [name] ∈ d.nodes.map Prod.fst := by
  cases hp : d.locate p with
  | error refusal => simp [childNames, hp]
  | ok directory =>
    simp only [childNames_eq hp, List.mem_filterMap, childName?_eq_some_iff, exists_eq_right,
      Except.ok.injEq, exists_eq_left']

/-- A name in the directory of a path leads to the place of that name in the directory. -/
theorem locate_child_iff {place : Location} (hname : name ≠ ['.', '.']) :
    d.locate (p.child name) = .ok place ↔ ∃ directory,
      d.locate p = .ok directory ∧ d.node? directory = some .directory ∧
        place = directory ++ [name] :=
  follow_concat_iff hname

/-- A write lists a new name at most: that of the written place, if nothing stood there. -/
theorem exists_childNames_write (h : d.write r content = .ok d') {target : Location}
    (hr : d.locate r = .ok target) :
    ∃ new, d'.childNames p = d.childNames p ++ new ∧
      ∀ name ∈ new, target.getLast? = some name ∧ target ∉ d.nodes.map Prod.fst := by
  have hiff : ∀ place, d'.locate p = .ok place ↔ d.locate p = .ok place := fun _ =>
    locate_write_iff h
  obtain ⟨place, hplace, -, -, rfl⟩ := write_eq_ok h
  obtain rfl : target = place := Except.ok.inj (hr.symm.trans hplace)
  cases hp : d.locate p with
  | error refusal =>
    cases hp' : (d.set target (.file content)).locate p with
    | ok other => simp [(hiff other).1 hp'] at hp
    | error refusal' => exact ⟨[], by simp [childNames, hp, hp'], by simp⟩
  | ok directory =>
    rw [childNames_eq ((hiff directory).2 hp), childNames_eq hp, set, map_fst_setNode,
      List.filterMap_append]
    refine ⟨_, rfl, fun name hname => ?_⟩
    split_ifs at hname with hlisted
    · simp at hname
    · obtain ⟨other, hother, hchild⟩ := List.mem_filterMap.1 hname
      obtain rfl := List.mem_singleton.1 hother
      rw [childName?_eq_some_iff.1 hchild]
      exact ⟨by simp, childName?_eq_some_iff.1 hchild ▸ hlisted⟩

/-- A directory below the one of a path is listed. -/
theorem mem_directoriesBelow_iff :
    q ∈ d.directoriesBelow p ↔ ∃ place, d.locate p = .ok place ∧ (q = p ∨
      ∃ other, (other, Node.directory) ∈ d.nodes ∧ place.isPrefixOf other = true ∧
        place.length < other.length ∧ q = ⟨p.root, p.names ++ other.drop place.length⟩) := by
  unfold directoriesBelow
  cases d.locate p with
  | error refusal => simp
  | ok place =>
    simp only [List.mem_cons, List.mem_filterMap, Except.ok.injEq, exists_eq_left']
    refine or_congr_right ⟨?_, ?_⟩
    · rintro ⟨⟨other, node⟩, he, hentry⟩
      cases node with
      | file content => simp at hentry
      | directory =>
        simp only [Bool.and_eq_true, decide_eq_true_eq] at hentry
        split_ifs at hentry with hbelow
        exact ⟨other, he, hbelow.1, hbelow.2, (Option.some.inj hentry).symm⟩
    · rintro ⟨other, he, hstart, hlength, rfl⟩
      exact ⟨(other, .directory), he, by simp [hstart, hlength]⟩

/-- What the directories and names of a disk lead a search to is readable. -/
theorem HasFileNames.isReadable_of_mem_search (h : d.HasFileNames) {steps : List Step}
    (hsteps : ∀ step ∈ steps, step.IsReadable) (hp : p.IsReadable) (hq : q ∈ d.search steps p) :
    q.IsReadable := by
  induction steps generalizing p with
  | nil => rwa [List.mem_singleton.1 hq]
  | cons step steps ih =>
    have hrest : ∀ s ∈ steps, s.IsReadable := fun s hs => hsteps s (by simp [hs])
    have hlisted : ∀ entry ∈ d.nodes, ∀ name ∈ entry.1, Path.IsReadableName name :=
      fun entry he name hname => (h entry he name hname).isReadableName
    cases step with
    | here => rwa [List.mem_singleton.1 hq]
    | named name =>
      simp only [search, List.mem_ite_nil_right] at hq
      refine ih hrest (hp.append_names fun other hother => ?_) hq.2
      rw [List.mem_singleton.1 hother]
      exact hsteps (.named name) (by simp)
    | matching pattern =>
      simp only [search, List.mem_flatMap, List.mem_filter] at hq
      obtain ⟨name, ⟨hname, -⟩, hq⟩ := hq
      obtain ⟨place, -, hentry⟩ := mem_childNames_iff.1 hname
      obtain ⟨entry, he, hplace⟩ := List.mem_map.1 hentry
      refine ih hrest (hp.append_names fun other hother => ?_) hq
      rw [List.mem_singleton.1 hother]
      exact hlisted entry he name (by simp [hplace])
    | anyDepth =>
      simp only [search, List.mem_eraseDups, List.mem_flatMap] at hq
      obtain ⟨r, hr, hq⟩ := hq
      obtain ⟨place, -, rfl | ⟨other, he, -, -, rfl⟩⟩ := mem_directoriesBelow_iff.1 hr
      · exact ih hrest hp hq
      · exact ih hrest (hp.append_names fun name hname =>
          hlisted _ he name (List.mem_of_mem_drop hname)) hq

/-- What a search finds, with its steps. -/
theorem files_eq_ok_iff {directory pattern : Text} {recursive : Bool} {paths : List Text} :
    d.files directory pattern recursive = .ok paths ↔ ∃ steps,
      stepsOf pattern recursive = .ok steps ∧
      paths = if d.isDirectory (.ofText directory) then
        Text.sort (((d.search steps (.ofText directory)).filter d.isFile).map Path.text) else [] := by
  unfold files
  cases stepsOf pattern recursive with
  | error fault => simp [bind, Except.bind]
  | ok steps =>
    simp only [bind, Except.bind, Except.ok.injEq, exists_eq_left']
    split_ifs <;> simp [pure, Except.pure, eq_comm]

/-- A search finds the texts of paths that lead to files. -/
theorem exists_of_mem_files {directory pattern path : Text} {recursive : Bool} {paths : List Text}
    (h : d.files directory pattern recursive = .ok paths) (hpath : path ∈ paths) :
    ∃ steps p, stepsOf pattern recursive = .ok steps ∧ d.isDirectory (.ofText directory) = true ∧
      p ∈ d.search steps (.ofText directory) ∧ d.isFile p = true ∧ path = p.text := by
  obtain ⟨steps, hsteps, rfl⟩ := files_eq_ok_iff.1 h
  split at hpath
  · rename_i hdirectory
    obtain ⟨p, hp, rfl⟩ := List.mem_map.1 ((List.mergeSort_perm _ _).mem_iff.1 hpath)
    obtain ⟨hfound, hfile⟩ := List.mem_filter.1 hp
    exact ⟨steps, p, hsteps, hdirectory, hfound, hfile, rfl⟩
  · simp at hpath

/-- On a disk with proper names, the files that a search finds are files under the paths that their
texts write. -/
theorem HasFileNames.isFile_of_mem_files (h : d.HasFileNames) {directory pattern path : Text}
    {recursive : Bool} {paths : List Text}
    (hfiles : d.files directory pattern recursive = .ok paths) (hpath : path ∈ paths) :
    d.isFile (.ofText path) = true := by
  obtain ⟨steps, p, hsteps, -, hp, hfile, rfl⟩ := exists_of_mem_files hfiles hpath
  have hreadable := h.isReadable_of_mem_search (isReadable_of_stepsOf hsteps)
    (Path.isReadable_ofText directory) hp
  rwa [hreadable.ofText_text]

/-- A directory stays listed when a file is set where no directory stands. -/
theorem mem_setNode_of_directory {place other : Location} (hplace : place ≠ [])
    (hnode : d.node? place ≠ some .directory) (content : ByteArray)
    (h : (other, Node.directory) ∈ d.nodes) :
    (other, Node.directory) ∈ setNode place (.file content) d.nodes := by
  have hlookup : d.nodes.lookup place ≠ some .directory := by
    simpa [node?, hplace] using hnode
  generalize d.nodes = nodes at h hlookup
  induction nodes with
  | nil => simp at h
  | cons first rest ih =>
    obtain ⟨start, node⟩ := first
    by_cases hstart : start = place
    · subst hstart
      rw [setNode, if_pos rfl]
      have hne : (other, Node.directory) ≠ (start, node) := by
        rintro ⟨⟩
        simp at hlookup
      exact List.mem_cons_of_mem _ ((List.mem_cons.1 h).resolve_left hne)
    · rw [setNode, if_neg hstart]
      rw [List.lookup_cons, beq_false_of_ne (Ne.symm hstart)] at hlookup
      exact List.mem_cons.2 ((List.mem_cons.1 h).imp_right fun hrest => ih hrest hlookup)

/-- What a search finds is found after a write. -/
theorem mem_search_write (h : d.write r content = .ok d') {steps : List Step}
    (hq : q ∈ d.search steps p) : q ∈ d'.search steps p := by
  have hpassable : ∀ (steps : List Step) q,
      (if steps.isEmpty then d.exists? q else d.isDirectory q) = true →
        (if steps.isEmpty then d'.exists? q else d'.isDirectory q) = true := by
    intro steps q hq
    obtain ⟨target, htarget, -⟩ := write_eq_ok h
    rw [exists?_write h htarget, isDirectory_write h]
    split_ifs at hq ⊢ <;> first | exact hq | rfl
  induction steps generalizing p with
  | nil => exact hq
  | cons step steps ih =>
    cases step with
    | here => exact hq
    | named name =>
      simp only [search, List.mem_ite_nil_right] at hq ⊢
      exact ⟨hpassable steps _ hq.1, ih hq.2⟩
    | matching pattern =>
      simp only [search, List.mem_flatMap, List.mem_filter, Bool.and_eq_true] at hq ⊢
      obtain ⟨name, ⟨hname, hmatch, hpass⟩, hq⟩ := hq
      refine ⟨name, ⟨?_, hmatch, hpassable steps _ hpass⟩, ih hq⟩
      obtain ⟨place, hplace, hlisted⟩ := mem_childNames_iff.1 hname
      refine mem_childNames_iff.2 ⟨place, locate_write h hplace, ?_⟩
      obtain ⟨target, -, -, -, rfl⟩ := write_eq_ok h
      rw [set, map_fst_setNode]
      exact List.mem_append_left _ hlisted
    | anyDepth =>
      simp only [search, List.mem_eraseDups, List.mem_flatMap] at hq ⊢
      obtain ⟨directory, hdirectory, hq⟩ := hq
      refine ⟨directory, ?_, ih hq⟩
      obtain ⟨place, hplace, hbelow⟩ := mem_directoriesBelow_iff.1 hdirectory
      refine mem_directoriesBelow_iff.2 ⟨place, locate_write h hplace, ?_⟩
      obtain ⟨target, -, hroot, hnode, rfl⟩ := write_eq_ok h
      rcases hbelow with rfl | ⟨other, he, hrest⟩
      · exact Or.inl rfl
      · exact Or.inr ⟨other, mem_setNode_of_directory hroot hnode content he, hrest⟩

/-- The files that a search finds are found after a write. -/
theorem exists_files_write (h : d.write r content = .ok d') {directory pattern : Text}
    {recursive : Bool} {paths : List Text}
    (hfiles : d.files directory pattern recursive = .ok paths) :
    ∃ paths', d'.files directory pattern recursive = .ok paths' ∧ paths ⊆ paths' := by
  obtain ⟨steps, hsteps, -⟩ := files_eq_ok_iff.1 hfiles
  refine ⟨_, files_eq_ok_iff.2 ⟨steps, hsteps, rfl⟩, fun path hpath => ?_⟩
  obtain ⟨steps', p, hsteps', hdirectory, hp, hfile, rfl⟩ := exists_of_mem_files hfiles hpath
  obtain rfl := Except.ok.inj (hsteps.symm.trans hsteps')
  rw [if_pos ((isDirectory_write h).trans hdirectory)]
  refine (List.mergeSort_perm _ _).mem_iff.2 (List.mem_map_of_mem (List.mem_filter.2
    ⟨mem_search_write h hp, ?_⟩))
  obtain ⟨target, htarget, -⟩ := write_eq_ok h
  rw [isFile_write h htarget, hfile, ite_self]

/-- A name that is listed after a write and leads to something before is listed before. -/
theorem HasFileNames.mem_childNames_of_write (hnames : d'.HasFileNames)
    (h : d.write r content = .ok d') (hname : name ∈ d'.childNames p)
    (hexists : d.exists? (p.child name) = true) : name ∈ d.childNames p := by
  obtain ⟨place, hplace, hlisted⟩ := mem_childNames_iff.1 hname
  obtain ⟨entry, hentry, hsame⟩ := List.mem_map.1 hlisted
  have hproper : Path.IsFileName name := hnames entry hentry name (by simp [hsame])
  rw [locate_write_iff h] at hplace
  have hlocate : ∀ {other}, d.locate (p.child name) = .ok other → other = place ++ [name] := by
    intro other hother
    obtain ⟨directory, hdirectory, -, rfl⟩ := (locate_child_iff hproper.2.2.1).1 hother
    rw [Except.ok.inj (hdirectory.symm.trans hplace)]
  refine mem_childNames_iff.2 ⟨place, hplace, ?_⟩
  unfold exists? get? at hexists
  cases hother : d.locate (p.child name) with
  | error refusal => simp [hother] at hexists
  | ok other =>
    obtain rfl := hlocate hother
    cases hnode : d.node? (place ++ [name]) with
    | none => simp [hother, hnode] at hexists
    | some node => exact List.mem_map_of_mem (mem_nodes_of_node? hnode (by simp))

/-- A directory that is listed below a path after a write is listed before. -/
theorem mem_directoriesBelow_of_write (h : d.write r content = .ok d')
    (hq : q ∈ d'.directoriesBelow p) : q ∈ d.directoriesBelow p := by
  obtain ⟨place, hplace, hbelow⟩ := mem_directoriesBelow_iff.1 hq
  refine mem_directoriesBelow_iff.2 ⟨place, (locate_write_iff h).1 hplace, hbelow.imp_right ?_⟩
  rintro ⟨other, he, hrest⟩
  obtain ⟨target, -, -, -, rfl⟩ := write_eq_ok h
  exact ⟨other, (mem_setNode he).resolve_left fun hnew => Node.noConfusion (Prod.mk.inj hnew).2, hrest⟩

/-- A file that is there before a write and that a search finds afterwards is found before. -/
theorem HasFileNames.mem_search_of_write (hnames : d'.HasFileNames)
    (h : d.write r content = .ok d') {steps : List Step} (hq : q ∈ d'.search steps p)
    (hfile : d.isFile q = true) : q ∈ d.search steps p := by
  have hexists : ∀ {x}, d.isFile x = true ∨ d.isDirectory x = true → d.exists? x = true := by
    intro x hx
    unfold isFile isDirectory at hx
    unfold exists?
    cases hget : d.get? x <;> simp_all
  -- The last step leads to the file itself, and all others go through directories.
  have hpassable : ∀ {steps : List Step} {x : Path}, q ∈ d.search steps x →
      (if steps.isEmpty then d'.exists? x else d'.isDirectory x) = true →
        (if steps.isEmpty then d.exists? x else d.isDirectory x) = true ∧ d.exists? x = true := by
    intro steps x hfound hpass
    cases steps with
    | nil =>
      obtain rfl := List.mem_singleton.1 hfound
      simp [hexists (Or.inl hfile)]
    | cons step steps =>
      have hdirectory : d.isDirectory x = true := (isDirectory_write h).symm.trans hpass
      exact ⟨hdirectory, hexists (Or.inr hdirectory)⟩
  induction steps generalizing p with
  | nil => exact hq
  | cons step steps ih =>
    cases step with
    | here => exact hq
    | named name =>
      simp only [search, List.mem_ite_nil_right] at hq ⊢
      exact ⟨(hpassable (ih hq.2) hq.1).1, ih hq.2⟩
    | matching pattern =>
      simp only [search, List.mem_flatMap, List.mem_filter, Bool.and_eq_true] at hq ⊢
      obtain ⟨name, ⟨hname, hmatch, hpass⟩, hq⟩ := hq
      obtain ⟨hpassed, hthere⟩ := hpassable (ih hq) hpass
      exact ⟨name, ⟨hnames.mem_childNames_of_write h hname hthere, hmatch, hpassed⟩, ih hq⟩
    | anyDepth =>
      simp only [search, List.mem_eraseDups, List.mem_flatMap] at hq ⊢
      obtain ⟨directory, hdirectory, hq⟩ := hq
      exact ⟨directory, mem_directoriesBelow_of_write h hdirectory, ih hq⟩

/-- Of the files that are there before a write, a search finds no others afterwards. -/
theorem HasFileNames.mem_files_of_write (hnames : d'.HasFileNames)
    (h : d.write r content = .ok d') {directory pattern path : Text} {recursive : Bool}
    {paths paths' : List Text} (hfiles : d.files directory pattern recursive = .ok paths)
    (hfiles' : d'.files directory pattern recursive = .ok paths') (hpath : path ∈ paths')
    (hfile : d.isFile (.ofText path) = true) : path ∈ paths := by
  obtain ⟨steps, p, hsteps, hdirectory, hp, -, rfl⟩ := exists_of_mem_files hfiles' hpath
  have hreadable := hnames.isReadable_of_mem_search (isReadable_of_stepsOf hsteps)
    (Path.isReadable_ofText directory) hp
  rw [hreadable.ofText_text] at hfile
  obtain ⟨steps', hsteps', rfl⟩ := files_eq_ok_iff.1 hfiles
  obtain rfl := Except.ok.inj (hsteps.symm.trans hsteps')
  rw [if_pos ((isDirectory_write h).symm.trans hdirectory)]
  exact (List.mergeSort_perm _ _).mem_iff.2 (List.mem_map_of_mem (List.mem_filter.2
    ⟨hnames.mem_search_of_write h hp hfile, hfile⟩))

end Disk

end Phrasebook
