import Mathlib.Tactic.SplitIfs
import Phrasebook.Proofs.Disk.Replace
import Phrasebook.Proofs.Job.Course
import Phrasebook.Proofs.Path.Names
import Phrasebook.Workspace.Backup

/-!
# What jobs on files do to a file

A path keeps leading to its file, whatever jobs do. The content of the file changes only when a text
is written to a path that leads to the same place; backups never do, since their names end in their
own way.
-/

namespace Phrasebook

/-- Whether the system lets texts be written to a path. -/
def World.isWritable (w : World) (path : Text) : Bool :=
  !w.unwritable.any fun r => r.path = path ∨ r.path = (Path.ofText path).text

/-- A path leads to a place where a file with the given content stands. -/
def Disk.Holds (p : Path) (place : Location) (content : ByteArray) (d : Disk) : Prop :=
  d.locate p = .ok place ∧ d.node? place = some (.file content)

namespace Disk.Holds

variable {d d' : Disk} {p q : Path} {place target : Location} {content new : ByteArray}

/-- The content of the file is read. -/
theorem read (h : Holds q place content d) : d.read q = .ok content :=
  read_eq_ok_iff.2 ⟨place, h⟩

/-- What is read where the path leads is the content. -/
theorem read_of_locate (h : Holds q place content d) (hp : d.locate p = .ok place) :
    d.read p = .ok content :=
  read_eq_ok_iff.2 ⟨place, hp, h.2⟩

/-- A write at the same place sets the content. -/
theorem write_self (h : Holds q place content d) (hp : d.locate p = .ok place)
    (hwrite : d.write p new = .ok d') : Holds q place new d' := by
  obtain ⟨place', hplace, hne, -, rfl⟩ := write_eq_ok hwrite
  obtain rfl : place = place' := Except.ok.inj (hp.symm.trans hplace)
  exact ⟨locate_write hwrite h.1, by rw [node?_set hne, if_pos rfl]⟩

/-- A write at another place leaves the content. -/
theorem write_other (h : Holds q place content d) (hp : d.locate p = .ok target)
    (hne : place ≠ target) (hwrite : d.write p new = .ok d') : Holds q place content d' := by
  obtain ⟨target', htarget, hroot, -, rfl⟩ := write_eq_ok hwrite
  obtain rfl : target = target' := Except.ok.inj (hp.symm.trans htarget)
  exact ⟨locate_write hwrite h.1, by rw [node?_set hroot, if_neg hne, h.2]⟩

/-- A write sets the content where its path leads to the same place, and leaves it elsewhere. -/
theorem write (h : Holds q place content d) (hwrite : d.write p new = .ok d') :
    ∃ target, d'.locate p = .ok target ∧
      Holds q place (if target = place then new else content) d' := by
  obtain ⟨target, htarget, -⟩ := write_eq_ok hwrite
  refine ⟨target, locate_write hwrite htarget, ?_⟩
  split_ifs with hsame
  · subst hsame
    exact h.write_self htarget hwrite
  · exact h.write_other htarget (Ne.symm hsame) hwrite

/-- A write under another name leaves the content. -/
theorem write_name {name : Text} (h : Holds q place content d)
    (hlast : p.names.getLast? = some name) (hname : name ≠ ['.', '.'])
    (hne : place.getLast? ≠ some name) (hwrite : d.write p new = .ok d') :
    Holds q place content d' := by
  obtain ⟨target, htarget, -⟩ := write_eq_ok hwrite
  refine h.write_other htarget ?_ hwrite
  rintro rfl
  exact hne (getLast?_of_locate htarget hlast hname)

end Disk.Holds

namespace Files

open Job (Triple)

/-- A file without a mark at its start is read as a whole. -/
theorem dropMark_of_head? {t : Text} (h : t.head? ≠ some '\uFEFF') : dropMark t = t := by
  cases t with
  | nil => rfl
  | cons c t =>
    have hc : c ≠ '\uFEFF' := by
      rintro rfl
      exact h rfl
    simp [dropMark, hc]

/-- A path leads to a file with a text, without the mark at its start. -/
def HasText (d : Disk) (path t : Text) : Prop :=
  ∃ content t', d.read (.ofText path) = .ok content ∧ Text.decode content = .ok t' ∧
    t = dropMark t'

/-- A file has one text. -/
theorem HasText.unique {d : Disk} {path t t' : Text} (h : HasText d path t)
    (h' : HasText d path t') : t = t' := by
  obtain ⟨content, s, hread, hdecode, rfl⟩ := h
  obtain ⟨content', s', hread', hdecode', rfl⟩ := h'
  obtain rfl := Except.ok.inj (hread.symm.trans hread')
  rw [Except.ok.inj (hdecode.symm.trans hdecode')]

variable {P : Disk → Prop} {E : Disk → Prop}

/-- Whether a path leads to a file is seen on the disk. -/
theorem isFile_triple (path : Text) :
    Triple P (isFile path) (fun b d => P d ∧ d.isFile (.ofText path) = b) E := by
  refine Triple.bind Triple.get fun w => Triple.pure ?_
  rintro d ⟨hd, rfl⟩
  exact ⟨hd, rfl⟩

/-- Whether a path leads to a directory is seen on the disk. -/
theorem isDirectory_triple (path : Text) :
    Triple P (isDirectory path) (fun b d => P d ∧ d.isDirectory (.ofText path) = b) E := by
  refine Triple.bind Triple.get fun w => Triple.pure ?_
  rintro d ⟨hd, rfl⟩
  exact ⟨hd, rfl⟩

/-- A search does not change the disk. -/
theorem find_triple (directory pattern : Text) (recursive : Bool) (hE : ∀ d, P d → E d) :
    Triple P (find directory pattern recursive)
      (fun paths d => P d ∧ d.files directory pattern recursive = .ok paths) E := by
  refine Triple.bind Triple.get fun w => ?_
  cases hfiles : w.disk.files directory pattern recursive with
  | ok paths =>
    refine Triple.pure ?_
    rintro d ⟨hd, rfl⟩
    exact ⟨hd, hfiles⟩
  | error fault => exact Triple.throw fun d hd => hE d hd.1

/-- A path that has to lead to a directory does so when the job goes on. -/
theorem requireDirectory_triple (what directory : Text) (hE : ∀ d, P d → E d) :
    Triple P (requireDirectory what directory)
      (fun _ d => P d ∧ d.isDirectory (.ofText directory) = true) E := by
  refine Triple.bind (isDirectory_triple directory) fun b => ?_
  cases b with
  | true => exact Triple.pure fun d hd => hd
  | false => exact Triple.fail fun d hd => hE d hd.1

/-- A path that has to lead to a file does so when the job goes on. -/
theorem requireFile_triple (path : Text) (hE : ∀ d, P d → E d) :
    Triple P (requireFile path) (fun _ d => P d ∧ d.isFile (.ofText path) = true) E := by
  refine Triple.bind (isFile_triple path) fun b => ?_
  cases b with
  | true => exact Triple.pure fun d hd => hd
  | false => exact Triple.fail fun d hd => hE d hd.1

/-- Whether a path leads to a file is told without a change. -/
theorem outcome_isFile (path : Text) (w : World) :
    Job.outcome (isFile path) w = (.ok (w.disk.isFile (.ofText path)), w) := by
  rw [isFile, Job.outcome_bind, Job.outcome_get]
  rfl

/-- Whether a path leads to a directory is told without a change. -/
theorem outcome_isDirectory (path : Text) (w : World) :
    Job.outcome (isDirectory path) w = (.ok (w.disk.isDirectory (.ofText path)), w) := by
  rw [isDirectory, Job.outcome_bind, Job.outcome_get]
  rfl

/-- A file with a content that can be decoded is read. -/
theorem outcome_readText {path t : Text} {content : ByteArray} {w : World}
    (hread : w.disk.read (.ofText path) = .ok content) (hdecode : Text.decode content = .ok t) :
    Job.outcome (readText path) w = (.ok (dropMark t), w) := by
  rw [readText, Job.outcome_bind, Job.outcome_get]
  simp only [hread, hdecode, Job.outcome_pure]

/-- The system refuses no step of writing to a path that can be written. -/
theorem refusal?_eq_none_iff {w : World} {path : Text} :
    (∀ stage, refusal? w.unwritable path stage = none) ↔ w.isWritable path = true := by
  simp only [refusal?, Option.map_eq_none_iff, List.find?_eq_none, World.isWritable,
    Bool.not_eq_true', List.any_eq_false, decide_eq_true_eq, not_and]
  exact ⟨fun h r hr => h r.stage r hr rfl, fun h _ r hr _ => h r hr⟩

/-- A text is written where the disk can be written and the system lets it. -/
theorem outcome_writeText_of_writable {path content : Text} {d : Disk} {w : World}
    (hallowed : w.isWritable path = true)
    (hwrite : w.disk.write (.ofText path) (Text.encode content) = .ok d) :
    Job.outcome (writeText path content) w = (.ok ⟨⟩, w.withDisk d) := by
  rw [writeText, Job.outcome_bind, Job.outcome_get]
  simp only [Disk.replace_eq_ok hwrite (refusal?_eq_none_iff.2 hallowed)]
  rfl

/-- A text that is not written changes nothing: the temporary file is gone in any case. -/
theorem exists_outcome_writeText_eq_error {path content : Text} {w : World}
    (h : w.isWritable path = false ∨
      ∃ refusal, w.disk.write (.ofText path) (Text.encode content) = .error refusal) :
    ∃ fault, Job.outcome (writeText path content) w =
      (.error (.write (Path.ofText path).text fault), w) := by
  have hrefused : (∃ refusal, w.disk.write (.ofText path) (Text.encode content) = .error refusal) ∨
      ∃ stage, refusal? w.unwritable path stage ≠ none := by
    refine h.symm.imp_right fun hnot => ?_
    by_contra hnone
    push Not at hnone
    rw [refusal?_eq_none_iff.1 hnone] at hnot
    exact Bool.noConfusion hnot
  obtain ⟨fault, hreplace⟩ := Disk.exists_replace_eq_error hrefused
  refine ⟨fault, ?_⟩
  rw [writeText, Job.outcome_bind, Job.outcome_get]
  simp only [hreplace]
  rfl

/-- A text is written, or a fault leaves everything as it is. -/
theorem writeText_cases (path content : Text) (w : World) :
    (∃ fault, Job.outcome (writeText path content) w = (.error fault, w)) ∨
      ∃ d, w.isWritable path = true ∧
        w.disk.write (.ofText path) (Text.encode content) = .ok d ∧
        Job.outcome (writeText path content) w = (.ok ⟨⟩, w.withDisk d) := by
  cases hwrite : w.disk.write (.ofText path) (Text.encode content) with
  | error refusal =>
    obtain ⟨fault, h⟩ := exists_outcome_writeText_eq_error (.inr ⟨refusal, hwrite⟩)
    exact Or.inl ⟨_, h⟩
  | ok d =>
    cases hallowed : w.isWritable path with
    | false =>
      obtain ⟨fault, h⟩ := @exists_outcome_writeText_eq_error path content w (.inl hallowed)
      exact Or.inl ⟨_, h⟩
    | true => exact Or.inr ⟨d, rfl, rfl, outcome_writeText_of_writable hallowed hwrite⟩

/-- A text is written where the disk can be written. -/
theorem outcome_writeText {path content : Text} {d : Disk} {w : World}
    (hunwritable : w.unwritable = [])
    (hwrite : w.disk.write (.ofText path) (Text.encode content) = .ok d) :
    Job.outcome (writeText path content) w = (.ok ⟨⟩, { w with disk := d }) :=
  outcome_writeText_of_writable (by rw [World.isWritable, hunwritable]; rfl) hwrite

/-- The text of a file is the decoded content, without the mark at its start. -/
theorem readText_triple (path : Text) (hE : ∀ d, P d → E d) :
    Triple P (readText path) (fun t d => P d ∧ HasText d path t) E := by
  refine Triple.bind Triple.get fun w => ?_
  cases hread : w.disk.read (.ofText path) with
  | error refusal => exact Triple.throw fun d hd => hE d hd.1
  | ok content =>
    cases hdecode : Text.decode content with
    | error fault => simpa only [hdecode] using Triple.throw fun d hd => hE d hd.1
    | ok t =>
      simp only [hdecode]
      refine Triple.pure ?_
      rintro d ⟨hd, rfl⟩
      exact ⟨hd, content, t, hread, hdecode, rfl⟩

/-- The lines of a file are those of its text. -/
theorem readLines_triple (path : Text) (hE : ∀ d, P d → E d) :
    Triple P (readLines path)
      (fun lines d => P d ∧ ∃ t, HasText d path t ∧ lines = Text.lines t) E := by
  refine Triple.bind (readText_triple path hE) fun t => Triple.pure ?_
  rintro d ⟨hd, htext⟩
  exact ⟨hd, t, htext, rfl⟩

/-- A written text is the content of its file, and a text that cannot be written changes nothing. -/
theorem writeText_triple (path content : Text) (hE : ∀ d, P d → E d) :
    Triple P (writeText path content) (fun _ d' => ∃ d, P d ∧
      d.write (.ofText path) (Text.encode content) = .ok d') E := by
  intro w hw
  rcases writeText_cases path content w with ⟨fault, h⟩ | ⟨d, -, hwrite, h⟩
  · rw [h]
    exact hE _ hw
  · rw [h]
    exact ⟨w.disk, hw, hwrite⟩

end Files

namespace Backup

open Job (Triple)

variable {P : Disk → Prop} {E : Disk → Prop}

/-- The path of a backup ends with a name that has the ending of backups, whatever the time is. -/
theorem exists_getLast?_names_path (file time : Text) :
    ∃ start, (Path.ofText (path file time)).names.getLast? = some (start ++ ending) := by
  have htext : path file time = (file ++ '.' :: time) ++ ending := by
    simp [path]
  rw [htext]
  exact Path.getLast?_names_ofText_append _ (by decide) (by decide)

/-- A backup is written under a name with the ending of backups. -/
theorem write_triple (file content : Text)
    (hP : ∀ {d d' : Disk} {p : Path} {start : Text} {new : ByteArray}, P d →
      p.names.getLast? = some (start ++ ending) → d.write p new = .ok d' → P d')
    (hE : ∀ d, P d → E d) : Triple P (write file content) (fun _ => P) E := by
  refine Triple.bind Triple.time fun time => ?_
  refine Triple.bind (R := fun _ => P) ?_ fun _ => Triple.bind Triple.record fun _ =>
    Triple.pure fun _ h => h
  refine (Files.writeText_triple _ _ hE).weaken (fun _ h => h) ?_ fun _ h => h
  rintro _ d' ⟨d, hd, hwrite⟩
  obtain ⟨start, hlast⟩ := exists_getLast?_names_path file time
  exact hP hd hlast hwrite

/-- A file is backed up under a name with the ending of backups. -/
theorem create_triple (file : Text)
    (hP : ∀ {d d' : Disk} {p : Path} {start : Text} {new : ByteArray}, P d →
      p.names.getLast? = some (start ++ ending) → d.write p new = .ok d' → P d')
    (hE : ∀ d, P d → E d) : Triple P (create file) (fun _ => P) E :=
  Triple.bind (Files.requireFile_triple file hE).forget fun _ =>
    Triple.bind (Files.readText_triple file hE).forget fun _ => write_triple file _ hP hE

end Backup

end Phrasebook
