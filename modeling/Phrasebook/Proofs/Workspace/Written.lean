import Phrasebook.Proofs.Workspace.Listing
import Phrasebook.Proofs.Workspace.Save

/-!
# What has been written

A disk that texts have been written to, one after another, with backups in between. A path leads to
the same place as before. The file there has one of the texts that were written to this place, or
the content that it had when none was. The files that are found before are found afterwards, and
others only when they are new. The source files of a directory are the same when only files are
written that are there already.
-/

namespace Phrasebook

open Files (HasText)
open Job (Triple)
open Save (IsNoBackup)

/-- Texts have been written to the paths of a list, in order; backups may have been written
besides. -/
inductive Written (d : Disk) : List (Text × Text) → Disk → Prop where
  /-- Nothing has been written. -/
  | start : Written d [] d
  /-- A text has been written last. -/
  | text {texts : List (Text × Text)} {d₁ d₂ : Disk} {path content : Text}
      (h : Written d texts d₁) (hwrite : d₁.write (.ofText path) (Text.encode content) = .ok d₂) :
      Written d (texts ++ [(path, content)]) d₂
  /-- A backup has been written last. -/
  | backup {texts : List (Text × Text)} {d₁ d₂ : Disk} {file time content : Text}
      (h : Written d texts d₁)
      (hwrite : d₁.write (.ofText (Backup.path file time)) (Text.encode content) = .ok d₂) :
      Written d texts d₂

/-- The last name of a backup has the ending of backups. -/
theorem Backup.exists_isNamed (file time : Text) :
    ∃ start, Path.IsNamed (path file time) (start ++ ending) ∧
      Path.nameMatches sourcePattern (start ++ ending) = false := by
  obtain ⟨start, hlast⟩ := exists_getLast?_names_path file time
  obtain ⟨hne, hdot, hslash⟩ :=
    (Path.isReadable_ofText (path file time)).names _ (List.mem_of_getLast? hlast)
  refine ⟨start, ⟨hlast, hne, hdot, Path.append_ne (by decide) start, hslash⟩, ?_⟩
  by_contra hmatch
  obtain ⟨t, ht⟩ := Scanner.nameMatches_sourcePattern_iff.1 (by simpa using hmatch)
  exact Save.ne_backup t start ht.symm

/-- Paths that lead to one place end with one name. -/
theorem Path.IsNamed.eq_of_locate {d : Disk} {path path' name name' : Text} {place : Location}
    (h : IsNamed path name) (h' : IsNamed path' name')
    (hplace : d.locate (.ofText path) = .ok place)
    (hplace' : d.locate (.ofText path') = .ok place) : name = name' := by
  have hlast := Disk.getLast?_of_locate hplace h.1 h.2.2.2.1
  have hlast' := Disk.getLast?_of_locate hplace' h'.1 h'.2.2.2.1
  exact Option.some.inj (hlast.symm.trans hlast')

namespace Written

variable {d d' : Disk} {texts : List (Text × Text)} {q : Path} {place : Location}

/-- What is written later comes behind what was written before. -/
theorem trans {d₁ : Disk} {later : List (Text × Text)} (h : Written d texts d₁)
    (h' : Written d₁ later d') : Written d (texts ++ later) d' := by
  induction h' with
  | start => rwa [List.append_nil]
  | text _ hwrite ih => exact (List.append_assoc texts _ _) ▸ ih.text hwrite
  | backup _ hwrite ih => exact ih.backup hwrite

/-- A path whose name is that of no backup leads to a place that is not that of a backup. -/
theorem isNoBackup_of_locate {path name : Text} (hnamed : Path.IsNamed path name)
    (hname : ∀ start, name ≠ start ++ Backup.ending) (hplace : d.locate (.ofText path) = .ok place) :
    IsNoBackup place := by
  have hlast := Disk.getLast?_of_locate hplace hnamed.1 hnamed.2.2.2.1
  exact fun start hstart => hname start (Option.some.inj (hlast.symm.trans hstart))

/-- A file whose name is that of no backup stands at a place that is not that of a backup. -/
theorem exists_noBackup {path name : Text} (hnamed : Path.IsNamed path name)
    (hname : ∀ start, name ≠ start ++ Backup.ending) (hfile : d.isFile (.ofText path) = true) :
    ∃ place, d.locate (.ofText path) = .ok place ∧ IsNoBackup place := by
  obtain ⟨content, hread⟩ := Disk.isFile_iff.1 hfile
  obtain ⟨place, hplace, -⟩ := Disk.read_eq_ok_iff.1 hread
  exact ⟨place, hplace, isNoBackup_of_locate hnamed hname hplace⟩

/-- A path leads to the same place as before. -/
theorem locate_iff (h : Written d texts d') : d'.locate q = .ok place ↔ d.locate q = .ok place := by
  induction h with
  | start => rfl
  | text _ hwrite ih => exact (Disk.locate_write_iff hwrite).trans ih
  | backup _ hwrite ih => exact (Disk.locate_write_iff hwrite).trans ih

/-- A path leads to a directory when it did so before. -/
theorem isDirectory (h : Written d texts d') : d'.isDirectory q = d.isDirectory q := by
  induction h with
  | start => rfl
  | text _ hwrite ih => exact (Disk.isDirectory_write hwrite).trans ih
  | backup _ hwrite ih => exact (Disk.isDirectory_write hwrite).trans ih

/-- A path leads to a file when it did so before. -/
theorem isFile (h : Written d texts d') (hfile : d.isFile q = true) : d'.isFile q = true := by
  have hstep : ∀ {d₁ d₂ : Disk} {p : Path} {content : ByteArray}, d₁.write p content = .ok d₂ →
      d₁.isFile q = true → d₂.isFile q = true := by
    intro d₁ d₂ p content hwrite hfile
    obtain ⟨target, htarget, -⟩ := Disk.write_eq_ok hwrite
    rw [Disk.isFile_write hwrite htarget, hfile, ite_self]
  induction h with
  | start => exact hfile
  | text _ hwrite ih => exact hstep hwrite ih
  | backup _ hwrite ih => exact hstep hwrite ih

/-- What a search found before it finds again. -/
theorem exists_files (h : Written d texts d') {directory pattern : Text} {recursive : Bool}
    {paths : List Text} (hfiles : d.files directory pattern recursive = .ok paths) :
    ∃ paths', d'.files directory pattern recursive = .ok paths' ∧ paths ⊆ paths' := by
  have hstep : ∀ {d₁ d₂ : Disk} {p : Path} {content : ByteArray}, d₁.write p content = .ok d₂ →
      (∃ paths', d₁.files directory pattern recursive = .ok paths' ∧ paths ⊆ paths') →
        ∃ paths', d₂.files directory pattern recursive = .ok paths' ∧ paths ⊆ paths' := by
    rintro d₁ d₂ p content hwrite ⟨found, hfound, hsubset⟩
    obtain ⟨found', hfound', hmore⟩ := Disk.exists_files_write hwrite hfound
    exact ⟨found', hfound', fun path hpath => hmore (hsubset hpath)⟩
  induction h with
  | start => exact ⟨paths, hfiles, fun _ hpath => hpath⟩
  | text _ hwrite ih => exact hstep hwrite ih
  | backup _ hwrite ih => exact hstep hwrite ih

/-- A tree of text files stays one when only files with proper names are written. -/
theorem isTree (h : Written d texts d') (htree : d.IsTree)
    (hnames : ∀ w ∈ texts, ∃ name, Path.IsNamed w.1 name) : d'.IsTree := by
  induction h with
  | start => exact htree
  | text _ hwrite ih =>
    obtain ⟨name, hlast, hname⟩ := hnames _ (List.mem_concat_self)
    exact (ih fun w hw => hnames w (by simp [hw])).write hwrite hlast hname
  | backup _ hwrite ih =>
    obtain ⟨start, ⟨hlast, hname⟩, -⟩ := Backup.exists_isNamed _ _
    exact (ih hnames).write hwrite hlast hname

/-- Of the files that were there before, a search finds no others afterwards. -/
theorem mem_files (h : Written d texts d') (htree : d.IsTree)
    (hnames : ∀ w ∈ texts, ∃ name, Path.IsNamed w.1 name) {directory pattern path : Text}
    {recursive : Bool} {paths paths' : List Text}
    (hfiles : d.files directory pattern recursive = .ok paths)
    (hfiles' : d'.files directory pattern recursive = .ok paths') (hpath : path ∈ paths')
    (hfile : d.isFile (.ofText path) = true) : path ∈ paths := by
  induction h generalizing paths' with
  | start =>
    obtain rfl := Except.ok.inj (hfiles.symm.trans hfiles')
    exact hpath
  | text hbefore hwrite ih =>
    obtain ⟨found, hfound, -⟩ := hbefore.exists_files hfiles
    have htree' := (hbefore.text hwrite).isTree htree hnames
    exact ih (fun w hw => hnames w (by simp [hw])) hfound
      (htree'.hasFileNames.mem_files_of_write hwrite hfound hfiles' hpath (hbefore.isFile hfile))
  | backup hbefore hwrite ih =>
    obtain ⟨found, hfound, -⟩ := hbefore.exists_files hfiles
    have htree' := (hbefore.backup hwrite).isTree htree hnames
    exact ih hnames hfound
      (htree'.hasFileNames.mem_files_of_write hwrite hfound hfiles' hpath (hbefore.isFile hfile))

/-- The source files of a directory are the same when only files are written that are there
already. -/
theorem sourceFiles (h : Written d texts d')
    (hnames : ∀ w ∈ texts, ∃ name, Path.IsNamed w.1 name)
    (hfiles : ∀ w ∈ texts, d.isFile (.ofText w.1) = true) (directory : Text) :
    d'.sourceFiles directory = d.sourceFiles directory := by
  induction h with
  | start => rfl
  | text hbefore hwrite ih =>
    obtain ⟨name, hlast, hname⟩ := hnames _ (List.mem_concat_self)
    have hfile := hbefore.isFile (hfiles _ (List.mem_concat_self))
    rw [Disk.sourceFiles_write hwrite hlast hname.2.2.1 (Or.inl hfile)]
    exact ih (fun w hw => hnames w (by simp [hw])) fun w hw => hfiles w (by simp [hw])
  | backup hbefore hwrite ih =>
    obtain ⟨start, ⟨hlast, hname⟩, hmatch⟩ := Backup.exists_isNamed _ _
    rw [Disk.sourceFiles_write hwrite hlast hname.2.2.1 (Or.inr hmatch)]
    exact ih hnames hfiles

/-- The source files of a directory that are selected are the same when none of the written files is
selected. -/
theorem filter_sourceFiles (h : Written d texts d') {directory : Text} {keep : Text → Bool}
    (hnames : ∀ w ∈ texts, ∃ name, Path.IsNamed w.1 name ∧
      keep ((Path.ofText directory).child name).text = false) :
    (d'.sourceFiles directory).filter keep = (d.sourceFiles directory).filter keep := by
  induction h with
  | start => rfl
  | text hbefore hwrite ih =>
    obtain ⟨name, ⟨hlast, hname⟩, hkeep⟩ := hnames _ (List.mem_concat_self)
    rw [Disk.filter_sourceFiles_write hwrite hlast hname.2.2.1 hkeep]
    exact ih fun w hw => hnames w (by simp [hw])
  | backup hbefore hwrite ih =>
    obtain ⟨start, ⟨hlast, hname⟩, hmatch⟩ := Backup.exists_isNamed _ _
    rw [Disk.sourceFiles_write hwrite hlast hname.2.2.1 (Or.inr hmatch)]
    exact ih hnames

/-- A path that a text has been written to leads to a place. -/
theorem exists_locate_of_mem (h : Written d texts d') {w : Text × Text} (hw : w ∈ texts) :
    ∃ place, d.locate (.ofText w.1) = .ok place := by
  induction h with
  | start => simp at hw
  | text hbefore hwrite ih =>
    rcases List.mem_append.1 hw with hw | hw
    · exact ih hw
    · obtain rfl := List.mem_singleton.1 hw
      obtain ⟨target, htarget, -⟩ := Disk.write_eq_ok hwrite
      exact ⟨target, hbefore.locate_iff.1 htarget⟩
  | backup hbefore hwrite ih => exact ih hw

/-- What stands at a place that is not that of a backup: the last text that was written there, or
what stood there before. -/
theorem node? (h : Written d texts d') (hplace : IsNoBackup place) :
    (∃ w ∈ texts, d.locate (.ofText w.1) = .ok place ∧
        d'.node? place = some (.file (Text.encode w.2))) ∨
      (∀ w ∈ texts, d.locate (.ofText w.1) ≠ .ok place) ∧ d'.node? place = d.node? place := by
  induction h with
  | start => exact Or.inr ⟨by simp, rfl⟩
  | @text texts d₁ d₂ path content hbefore hwrite ih =>
    obtain ⟨target, htarget, hroot, -, rfl⟩ := Disk.write_eq_ok hwrite
    rw [hbefore.locate_iff] at htarget
    rw [Disk.node?_set hroot]
    by_cases hsame : place = target
    · rw [if_pos hsame]
      exact Or.inl ⟨(path, content), by simp, hsame ▸ htarget, rfl⟩
    · rw [if_neg hsame]
      have hother : d.locate (.ofText path) ≠ .ok place := fun hlocate =>
        hsame (Except.ok.inj (hlocate.symm.trans htarget))
      refine ih.imp (fun ⟨w, hw, hrest⟩ => ⟨w, by simp [hw], hrest⟩) fun ⟨hnone, hnode⟩ =>
        ⟨fun w hw => ?_, hnode⟩
      rcases List.mem_append.1 hw with hw | hw
      · exact hnone w hw
      · obtain rfl := List.mem_singleton.1 hw
        exact hother
  | backup hbefore hwrite ih =>
    obtain ⟨start, ⟨hlast, hname⟩, -⟩ := Backup.exists_isNamed _ _
    obtain ⟨target, htarget, hroot, -, rfl⟩ := Disk.write_eq_ok hwrite
    have hother : place ≠ target := by
      rintro rfl
      exact hplace start (Disk.getLast?_of_locate htarget hlast hname.2.2.1)
    rw [Disk.node?_set hroot, if_neg hother]
    exact ih

/-- What is read under a path that leads to no backup: the last text that was written to the same
place, or what was read there before. -/
theorem read (h : Written d texts d') (hplace : IsNoBackup place) (hq : d.locate q = .ok place) :
    (∃ w ∈ texts, d.locate (.ofText w.1) = .ok place ∧ d'.read q = .ok (Text.encode w.2)) ∨
      (∀ w ∈ texts, d.locate (.ofText w.1) ≠ .ok place) ∧ d'.read q = d.read q := by
  have hq' := h.locate_iff.2 hq
  refine (h.node? hplace).imp (fun ⟨w, hw, hlocate, hnode⟩ => ⟨w, hw, hlocate, ?_⟩)
    fun ⟨hnone, hnode⟩ => ⟨hnone, ?_⟩
  · exact Disk.read_eq_ok_iff.2 ⟨place, hq', hnode⟩
  · simp only [Disk.read, hq', hq, hnode]

/-- No file appears under a name that is not that of a backup, when only files are written that are
there already. -/
theorem isFile_iff (h : Written d texts d') {path name : Text} (hnamed : Path.IsNamed path name)
    (hname : ∀ start, name ≠ start ++ Backup.ending)
    (hfiles : ∀ w ∈ texts, d.isFile (.ofText w.1) = true) :
    d'.isFile (.ofText path) = true ↔ d.isFile (.ofText path) = true := by
  refine ⟨fun hfile => ?_, h.isFile⟩
  obtain ⟨place, hplace, hnone⟩ := exists_noBackup hnamed hname hfile
  rw [h.locate_iff] at hplace
  rcases h.read hnone hplace with ⟨w, hw, hlocate, -⟩ | ⟨-, hsame⟩
  · obtain ⟨content, hread⟩ := Disk.isFile_iff.1 (hfiles w hw)
    obtain ⟨target, htarget, hnode⟩ := Disk.read_eq_ok_iff.1 hread
    obtain rfl := Except.ok.inj (hlocate.symm.trans htarget)
    exact Disk.isFile_iff.2 ⟨content, Disk.read_eq_ok_iff.2 ⟨place, hplace, hnode⟩⟩
  · obtain ⟨content, hread⟩ := Disk.isFile_iff.1 hfile
    exact Disk.isFile_iff.2 ⟨content, hsame ▸ hread⟩

/-- What is read of a place is read as before when its name is that of no backup and of no written
file. -/
theorem read_eq_of_locate (h : Written d texts d') {path name : Text}
    (hnamed : Path.IsNamed path name) (hname : ∀ start, name ≠ start ++ Backup.ending)
    (hother : ∀ w ∈ texts, ∃ other, Path.IsNamed w.1 other ∧ other ≠ name)
    (hplace : d.locate (.ofText path) = .ok place) :
    d'.read (.ofText path) = d.read (.ofText path) := by
  rcases h.read (isNoBackup_of_locate hnamed hname hplace) hplace with
    ⟨w, hw, hlocate, -⟩ | ⟨-, hsame⟩
  · obtain ⟨other, hnamed', hne⟩ := hother w hw
    exact absurd (hnamed'.eq_of_locate hnamed hlocate hplace) hne
  · exact hsame

/-- What is read of a file whose name is that of no backup and of no written file is read as
before. -/
theorem read_eq (h : Written d texts d') {path name : Text} (hnamed : Path.IsNamed path name)
    (hname : ∀ start, name ≠ start ++ Backup.ending)
    (hother : ∀ w ∈ texts, ∃ other, Path.IsNamed w.1 other ∧ other ≠ name)
    (hfile : d.isFile (.ofText path) = true) :
    d'.read (.ofText path) = d.read (.ofText path) := by
  obtain ⟨place, hplace, -⟩ := exists_noBackup hnamed hname hfile
  exact h.read_eq_of_locate hnamed hname hother hplace

/-- A source file of a tree of text files is read as before when nothing is written to it. -/
theorem read_eq_of_mem_sourceFiles (h : Written d texts d') (htree : d.IsTree)
    {directory path : Text} (hpath : path ∈ d.sourceFiles directory)
    (hnames : ∀ w ∈ texts, ∃ name, w.1 = Files.inDirectory directory name ∧
      Path.IsNamed w.1 name)
    (hother : ∀ w ∈ texts, w.1 ≠ path) : d'.read (.ofText path) = d.read (.ofText path) := by
  have hfile := htree.hasFileNames.isFile_of_mem_files (d.files_sourcePattern directory) hpath
  obtain ⟨name, rfl, hname, hmatch⟩ := htree.exists_isFileName hpath
  obtain ⟨t, rfl⟩ := Scanner.nameMatches_sourcePattern_iff.1 hmatch
  refine h.read_eq (Path.isNamed_inDirectory directory hname) (Save.ne_backup t) (fun w hw => ?_)
    hfile
  obtain ⟨other, hwritten, hnamed⟩ := hnames w hw
  exact ⟨other, hnamed, fun hsame => hother w hw (hsame ▸ hwritten)⟩

/-- A file whose name is that of no backup and of no written file keeps its text. -/
theorem hasText (h : Written d texts d') {path name t : Text} (hnamed : Path.IsNamed path name)
    (hname : ∀ start, name ≠ start ++ Backup.ending)
    (hother : ∀ w ∈ texts, ∃ other, Path.IsNamed w.1 other ∧ other ≠ name)
    (htext : HasText d path t) : HasText d' path t := by
  obtain ⟨content, t', hread, hrest⟩ := htext
  exact ⟨content, t', (h.read_eq hnamed hname hother (Disk.isFile_iff.2 ⟨content, hread⟩)).trans
    hread, hrest⟩

/-- No file appears under a name that is not that of a backup and of no written file. -/
theorem isFile_iff_of_unwritten (h : Written d texts d') {path name : Text}
    (hnamed : Path.IsNamed path name) (hname : ∀ start, name ≠ start ++ Backup.ending)
    (hother : ∀ w ∈ texts, ∃ other, Path.IsNamed w.1 other ∧ other ≠ name) :
    d'.isFile (.ofText path) = true ↔ d.isFile (.ofText path) = true := by
  refine ⟨fun hfile => ?_, h.isFile⟩
  obtain ⟨place, hplace, -⟩ := exists_noBackup hnamed hname hfile
  have hsame := h.read_eq_of_locate hnamed hname hother (h.locate_iff.1 hplace)
  obtain ⟨content, hread⟩ := Disk.isFile_iff.1 hfile
  exact Disk.isFile_iff.2 ⟨content, hsame ▸ hread⟩

/-- A file that has been written has one of the texts that were written under its name. -/
theorem exists_hasText_of_mem (h : Written d texts d') {path name content : Text}
    (hnamed : Path.IsNamed path name) (hname : ∀ start, name ≠ start ++ Backup.ending)
    (hmem : (path, content) ∈ texts) (hnames : ∀ w ∈ texts, ∃ other, Path.IsNamed w.1 other) :
    ∃ w ∈ texts, Path.IsNamed w.1 name ∧ HasText d' path (Files.dropMark w.2) := by
  obtain ⟨place, hplace⟩ := h.exists_locate_of_mem hmem
  rcases h.read (isNoBackup_of_locate hnamed hname hplace) hplace with
    ⟨w, hw, hlocate, hread⟩ | ⟨hnot, -⟩
  · obtain ⟨other, hnamed'⟩ := hnames w hw
    obtain rfl := hnamed'.eq_of_locate hnamed hlocate hplace
    exact ⟨w, hw, hnamed', _, w.2, hread, Text.decode_encode w.2, rfl⟩
  · exact absurd hplace (hnot _ hmem)

/-- A file that has been written has the text that was written, when no other text was written
under its name. -/
theorem hasText_of_mem (h : Written d texts d') {path name content : Text}
    (hnamed : Path.IsNamed path name) (hname : ∀ start, name ≠ start ++ Backup.ending)
    (hmem : (path, content) ∈ texts)
    (hother : ∀ w ∈ texts, ∃ other, Path.IsNamed w.1 other ∧ (other = name → w.2 = content)) :
    HasText d' path (Files.dropMark content) := by
  obtain ⟨w, hw, hnamed', htext⟩ := h.exists_hasText_of_mem hnamed hname hmem fun w hw =>
    (hother w hw).imp fun _ hsame => hsame.1
  obtain ⟨other, hnamed'', hsame⟩ := hother w hw
  rwa [hsame (hnamed''.unique hnamed')] at htext

end Written

end Phrasebook
