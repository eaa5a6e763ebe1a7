import Phrasebook.Proofs.Disk.Frame
import Phrasebook.Proofs.Locale.Catalog
import Phrasebook.Proofs.Workspace.Saving

/-!
# The names of backups

A backup stands in the directory of its file. Its name goes on behind that of the file, so files of
different locales have backups with different names, and no save touches the files of another locale.
-/

namespace Phrasebook

namespace Path

/-- The name of a file goes on with any text without slashes. -/
theorem IsFileName.append {name t : Text} (h : IsFileName name) (ht : '/' ∉ t) :
    IsFileName (name ++ t) := by
  obtain ⟨hne, hdot, hdots, hslash⟩ := h
  refine ⟨by simp [hne], fun hsame => ?_, fun hsame => ?_, by simp [hslash, ht]⟩
  · obtain ⟨rfl, -⟩ | ⟨rfl, -⟩ := List.append_eq_singleton_iff.1 hsame
    · exact hne rfl
    · exact hdot rfl
  · obtain ⟨c, rest, rfl⟩ := List.exists_cons_of_ne_nil hne
    obtain ⟨rfl, hrest⟩ := List.cons.inj hsame
    obtain ⟨rfl, -⟩ | ⟨rfl, -⟩ := List.append_eq_singleton_iff.1 hrest
    · exact hdot rfl
    · exact hdots rfl

/-- What is written behind the path of a file in a directory belongs to its name. -/
theorem inDirectory_append (directory : Text) {name t : Text} (hname : IsFileName name)
    (ht : '/' ∉ t) :
    Files.inDirectory directory name ++ t = Files.inDirectory directory (name ++ t) := by
  rw [inDirectory_eq directory hname, inDirectory_eq directory (hname.append ht)]
  simp [child, text, join_concat]

end Path

namespace Backup

variable {directory name time : Text}

/-- The name of a backup is that of its file with the time and the ending of backups behind it. -/
theorem path_inDirectory (directory : Text) (hname : Path.IsFileName name) (htime : '/' ∉ time) :
    path (Files.inDirectory directory name) time =
      Files.inDirectory directory (path name time) := by
  have hending : '/' ∉ '.' :: time ++ ending := by
    simp [htime, show '/' ∉ ending by decide]
  have hpath : ∀ t, path t time = t ++ ('.' :: time ++ ending) := fun t => by
    simp [path]
  rw [hpath, hpath, Path.inDirectory_append directory hname hending]

/-- The name of a backup of a file is the name of a file. -/
theorem isFileName_path (hname : Path.IsFileName name) (htime : '/' ∉ time) :
    Path.IsFileName (path name time) := by
  have hending : '/' ∉ '.' :: time ++ ending := by
    simp [htime, show '/' ∉ ending by decide]
  have happend := hname.append hending
  rwa [← List.append_assoc] at happend

/-- The path of a backup ends with its name. -/
theorem isNamed_path (directory : Text) (hname : Path.IsFileName name) (htime : '/' ∉ time) :
    Path.IsNamed (path (Files.inDirectory directory name) time) (path name time) := by
  rw [path_inDirectory directory hname htime]
  exact Path.isNamed_inDirectory directory (isFileName_path hname htime)

end Backup

namespace Locale

variable {code other name time : Text}

/-- Whether a name is that of a file of a locale: of the locale file, or of a file whose name goes on
behind it, as that of a backup does. -/
def Owns (code name : Text) : Prop :=
  ∃ rest, name = file code ++ rest ∧ (rest = [] ∨ rest.head? = some '.')

/-- A locale file is a file of its locale. -/
theorem owns_file (code : Text) : Owns code (file code) :=
  ⟨[], (List.append_nil _).symm, Or.inl rfl⟩

/-- The backups of a locale file are files of its locale. -/
theorem owns_backup (code time : Text) : Owns code (Backup.path (file code) time) :=
  ⟨'.' :: time ++ Backup.ending, by simp [Backup.path], Or.inr rfl⟩

/-- The codes of the catalog are of one length. -/
theorem length_of_canonical? (h : canonical? code = some code) : code.length = 4 := by
  have hall : ∀ code ∈ codes, code.length = 4 := by decide
  exact hall code (mem_codes_of_canonical? h)

/-- No file is one of two locales. -/
theorem Owns.unique (hcode : canonical? code = some code) (hother : canonical? other = some other)
    (h : Owns code name) (h' : Owns other name) : code = other := by
  obtain ⟨rest, rfl, -⟩ := h
  obtain ⟨rest', hsame, -⟩ := h'
  rw [file, file, List.append_assoc, List.append_assoc] at hsame
  exact (List.append_inj hsame
    ((length_of_canonical? hcode).trans (length_of_canonical? hother).symm)).1

end Locale

namespace Save

variable {style : Locale.Style} {directory code path : Text} {texts : Dictionary Text}
  {backup : Bool} {w w' : World} {t : Option Text} {result : Except Fault Text}

/-- The times that the clock will show are among those that it showed before. -/
theorem Secured.clock_suffix (h : Secured path backup w t w') : w'.clock <:+ w.clock := by
  cases h with
  | absent => exact List.suffix_rfl
  | unbacked => exact List.suffix_rfl
  | backed => exact w.clock_tick_suffix

/-- The times that the clock will show after a save are among those that it showed before. -/
theorem Saving.clock_suffix (h : Saving style path code texts backup w result w') :
    w'.clock <:+ w.clock := by
  cases h with
  | unsecured hsame =>
    rcases hsame with rfl | rfl
    · exact List.suffix_rfl
    · exact w.clock_tick_suffix
  | refused hsecured => exact hsecured.clock_suffix
  | saved hsecured => exact hsecured.clock_suffix

/-- Securing a file shows no report. -/
theorem Secured.reports_eq (h : Secured path backup w t w') :
    w'.trace.filterMap Event.saveProgress? = w.trace.filterMap Event.saveProgress? := by
  cases h with
  | absent => rfl
  | unbacked => rfl
  | backed => simp

/-- A save shows no report. -/
theorem Saving.reports_eq (h : Saving style path code texts backup w result w') :
    w'.trace.filterMap Event.saveProgress? = w.trace.filterMap Event.saveProgress? := by
  cases h with
  | unsecured hsame => rcases hsame with rfl | rfl <;> rfl
  | refused hsecured => rw [World.reports_noted, hsecured.reports_eq]
  | saved hsecured =>
    rw [World.reports_noted, World.trace_withDisk, hsecured.reports_eq]

section Locale

variable (hcode : Locale.canonical? code = some code) (hnow : '/' ∉ w.now)

include hcode hnow

/-- Securing the file of a locale writes its backup at most. -/
theorem Secured.changesOnly (h : Secured (localePath directory code) backup w t w') :
    Disk.ChangesOnly (· = Backup.path (Locale.file code) w.now) w.disk w'.disk := by
  cases h with
  | absent => exact .refl _
  | unbacked => exact .refl _
  | backed htext hbackup hwrite =>
    obtain ⟨hlast, hname⟩ := Backup.isNamed_path directory (Locale.isFileName_file hcode) hnow
    exact .of_write hwrite hlast hname.2.2.1 rfl

/-- A save writes the file of its locale and the backup of the file at most. -/
theorem Saving.changesOnly
    (h : Saving style (localePath directory code) code texts backup w result w') :
    Disk.ChangesOnly
      (fun name => name = Locale.file code ∨ name = Backup.path (Locale.file code) w.now)
      w.disk w'.disk := by
  cases h with
  | unsecured hsame => rcases hsame with rfl | rfl <;> exact .refl _
  | refused hsecured =>
    rw [World.disk_noted]
    exact (hsecured.changesOnly hcode hnow).mono fun name => Or.inr
  | saved hsecured hallowed hwrite =>
    have hname := Locale.isFileName_file hcode
    exact ((hsecured.changesOnly hcode hnow).mono fun name => Or.inr).trans (.of_write hwrite
      (Path.getLast?_names_inDirectory directory hname) hname.2.2.1 (Or.inl rfl))

/-- A save changes files of its locale at most, whatever becomes of it. -/
theorem Saving.changesOnly_owns
    (h : Saving style (localePath directory code) code texts backup w result w') :
    Disk.ChangesOnly (Locale.Owns code) w.disk w'.disk := by
  refine (h.changesOnly hcode hnow).mono fun name hname => ?_
  rcases hname with rfl | rfl
  · exact Locale.owns_file code
  · exact Locale.owns_backup code w.now

end Locale

end Save

end Phrasebook
