import Phrasebook.Proofs.Path.Names

/-!
# Reading back a path

The text of a path is read as that path again when its names have no slashes and are neither empty
nor a single dot. Every path that a text writes is of this kind, and stays so with further names.
-/

namespace Phrasebook.Path

/-- Whether a name is kept when a path is read. -/
def IsReadableName (name : Text) : Prop :=
  name ≠ [] ∧ name ≠ ['.'] ∧ '/' ∉ name

/-- A path that is read back from its text. -/
structure IsReadable (p : Path) : Prop where
  /-- The root is made of at most two slashes. -/
  root : p.root = [] ∨ p.root = ['/'] ∨ p.root = ['/', '/']
  /-- The names are kept when the path is read. -/
  names : ∀ name ∈ p.names, IsReadableName name

/-- The name of a file is kept. -/
theorem IsFileName.isReadableName {name : Text} (h : IsFileName name) : IsReadableName name :=
  ⟨h.1, h.2.1, h.2.2.2⟩

/-- The pieces of a text do not contain the separator. -/
theorem not_mem_of_mem_pieces {c : Char} {t piece : Text} (h : piece ∈ Text.pieces c t) :
    c ∉ piece := by
  induction t generalizing piece with
  | nil => simp_all [Text.pieces]
  | cons d t ih =>
    rw [Text.pieces] at h
    split at h
    · rcases List.mem_cons.1 h with rfl | h
      · simp
      · exact ih h
    · rename_i hd
      split at h
      · obtain rfl := List.mem_singleton.1 h
        simpa using Ne.symm hd
      · rename_i first rest hpieces
        rcases List.mem_cons.1 h with rfl | h
        · have hfirst : c ∉ first := ih (by simp [hpieces])
          simp [hfirst, Ne.symm hd]
        · exact ih (by simp [hpieces, h])

/-- The path that a text writes is read back. -/
theorem isReadable_ofText (t : Text) : (ofText t).IsReadable := by
  refine ⟨rootOf_eq t, fun name hname => ?_⟩
  obtain ⟨hpiece, hkept⟩ := List.mem_filter.1 hname
  simp only [Bool.and_eq_true, Bool.not_eq_true', List.isEmpty_eq_false_iff, bne_iff_ne,
    ne_eq] at hkept
  exact ⟨hkept.1, hkept.2, not_mem_of_mem_pieces hpiece⟩

/-- A path with further names is read back. -/
theorem IsReadable.append_names {p : Path} (h : p.IsReadable) {names : List Text}
    (hnames : ∀ name ∈ names, IsReadableName name) :
    (Path.mk p.root (p.names ++ names)).IsReadable := by
  refine ⟨h.root, fun name hname => ?_⟩
  exact (List.mem_append.1 hname).elim (h.names name) (hnames name)

/-- Joined names are cut into the names again. -/
theorem filter_pieces_join {names : List Text} (hnames : ∀ name ∈ names, IsReadableName name) :
    (Text.pieces '/' (Text.join ['/'] names)).filter (fun name => !name.isEmpty && name != ['.']) =
      names := by
  induction names with
  | nil => rfl
  | cons name names ih =>
    obtain ⟨hne, hdot, hslash⟩ := hnames name (by simp)
    have hkept : (!name.isEmpty && name != ['.']) = true := by
      simp [hne, hdot]
    have hrest := ih fun n hn => hnames n (by simp [hn])
    cases names with
    | nil => simp [Text.join, Text.pieces_of_not_mem hslash, hkept]
    | cons other names =>
      have hjoin : Text.join ['/'] (name :: other :: names) =
          name ++ '/' :: Text.join ['/'] (other :: names) := by
        simp [Text.join, List.intercalate_cons_cons]
      rw [hjoin, pieces_append_cons, Text.pieces_of_not_mem hslash, List.filter_append, hrest]
      simp [hkept]

/-- Joined names start with no slash. -/
theorem head?_join {names : List Text} (hnames : ∀ name ∈ names, IsReadableName name) :
    (Text.join ['/'] names).head? ≠ some '/' := by
  cases names with
  | nil => simp [Text.join]
  | cons name names =>
    obtain ⟨hne, -, hslash⟩ := hnames name (by simp)
    obtain ⟨c, rest, rfl⟩ := List.exists_cons_of_ne_nil hne
    have hhead : (Text.join ['/'] ((c :: rest) :: names)).head? = some c := by
      cases names <;> simp [Text.join, List.intercalate_cons_cons]
    rw [hhead]
    intro hc
    obtain rfl := Option.some.inj hc
    simp at hslash

/-- The slashes at the front of a text are its root. -/
theorem rootOf_append {root t : Text} (hroot : root = [] ∨ root = ['/'] ∨ root = ['/', '/'])
    (hhead : t.head? ≠ some '/') : rootOf (root ++ t) = root := by
  cases t with
  | nil => rcases hroot with rfl | rfl | rfl <;> rfl
  | cons c t =>
    have hc : c ≠ '/' := by simpa using hhead
    rcases hroot with rfl | rfl | rfl <;> simp [rootOf, hc]

/-- The slashes at the front of a text are no names. -/
theorem filter_pieces_append {root : Text} (t : Text)
    (hroot : root = [] ∨ root = ['/'] ∨ root = ['/', '/']) :
    (Text.pieces '/' (root ++ t)).filter (fun name => !name.isEmpty && name != ['.']) =
      (Text.pieces '/' t).filter fun name => !name.isEmpty && name != ['.'] := by
  rcases hroot with rfl | rfl | rfl <;> simp [Text.pieces]

/-- A readable path is read back from its text. -/
theorem IsReadable.ofText_text {p : Path} (h : p.IsReadable) : ofText p.text = p := by
  have hread : ofText (p.root ++ Text.join ['/'] p.names) = p := by
    rw [ofText, rootOf_append h.root (head?_join h.names), filter_pieces_append _ h.root,
      filter_pieces_join h.names]
  unfold text
  split
  · rename_i hempty
    obtain ⟨hroot, hnames⟩ := Bool.and_eq_true_iff.1 hempty
    obtain ⟨root, names⟩ := p
    obtain rfl : root = [] := List.isEmpty_iff.1 hroot
    obtain rfl : names = [] := List.isEmpty_iff.1 hnames
    rfl
  · exact hread

/-- A path ends with the name of a file. -/
def IsNamed (path name : Text) : Prop :=
  (ofText path).names.getLast? = some name ∧ IsFileName name

/-- A path ends with one name. -/
theorem IsNamed.unique {path name other : Text} (h : IsNamed path name) (h' : IsNamed path other) :
    name = other :=
  Option.some.inj (h.1.symm.trans h'.1)

/-- The path of a file in a directory ends with the name of the file. -/
theorem isNamed_inDirectory (directory : Text) {name : Text} (h : IsFileName name) :
    IsNamed (Files.inDirectory directory name) name :=
  ⟨getLast?_names_inDirectory directory h, h⟩

/-- What is written behind a text belongs to the last name of its path below a directory. -/
theorem exists_isNamed_inDirectory (directory t : Text) {ending : Text} (hlong : 2 < ending.length)
    (hslash : '/' ∉ ending) : ∃ start, IsNamed (Files.inDirectory directory (t ++ ending))
      (start ++ ending) := by
  obtain ⟨start, hlast⟩ := getLast?_names_ofText_append t hlong hslash
  have hreadable := isReadable_ofText (t ++ ending)
  have happend : ((ofText directory).append (ofText (t ++ ending))).IsReadable := by
    unfold append
    split
    · exact hreadable
    · exact (isReadable_ofText directory).append_names hreadable.names
  have hname := hreadable.names _ (List.mem_of_getLast? hlast)
  refine ⟨start, ?_, hname.1, hname.2.1, append_ne (t := ['.', '.']) hlong start, hname.2.2⟩
  rw [Files.inDirectory, happend.ofText_text]
  unfold append
  split
  · exact hlast
  · rw [List.getLast?_append, hlast, Option.some_or]

end Phrasebook.Path
