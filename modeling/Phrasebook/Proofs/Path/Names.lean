import Mathlib.Data.List.Induction
import Phrasebook.Path.Basic
import Phrasebook.Proofs.Text.Lines
import Phrasebook.Workspace.Files

/-!
# The last name of a path

Reading a text as a path cuts it at its slashes, so what stands behind the last slash is the last
name. The path of a file in a directory ends with the name of the file, and what is written behind
the text of a path belongs to its last name.
-/

namespace Phrasebook.Path

/-- A text and what stands behind a separator are cut independently. -/
theorem pieces_append_cons (c : Char) (s t : Text) :
    Text.pieces c (s ++ c :: t) = Text.pieces c s ++ Text.pieces c t := by
  induction s with
  | nil => simp [Text.pieces]
  | cons d s ih =>
    by_cases hd : d = c
    · simp [Text.pieces, hd, ih]
    · have hne := Text.pieces_ne_nil c s
      cases hs : Text.pieces c s with
      | nil => exact absurd hs hne
      | cons piece rest =>
        rw [hs] at ih
        simp [Text.pieces, hd, ih, hs]

/-- Whether a text can be a name of a path. -/
def IsFileName (name : Text) : Prop :=
  name ≠ [] ∧ name ≠ ['.'] ∧ name ≠ ['.', '.'] ∧ '/' ∉ name

instance : DecidablePred IsFileName :=
  fun name => inferInstanceAs (Decidable (name ≠ [] ∧ name ≠ ['.'] ∧ name ≠ ['.', '.'] ∧ _))

/-- What stands behind the last slash of a text is the last name of its path. -/
theorem getLast?_names_ofText {front name : Text}
    (hfront : front = [] ∨ front.getLast? = some '/') (hname : IsFileName name) :
    (ofText (front ++ name)).names.getLast? = some name := by
  obtain ⟨hne, hdot, -, hslash⟩ := hname
  have hkept : (!name.isEmpty && name != ['.']) = true := by
    simp [hne, hdot]
  rcases hfront with rfl | hlast
  · simp [ofText, Text.pieces_of_not_mem hslash, hkept]
  · obtain ⟨t, rfl⟩ := List.getLast?_eq_some_iff.1 hlast
    rw [ofText, List.append_assoc, List.singleton_append, pieces_append_cons,
      Text.pieces_of_not_mem hslash, List.filter_append]
    simp [hkept]

/-- Every text is what stands up to its last slash, and the rest. -/
theorem exists_front (t : Text) :
    ∃ front rest, t = front ++ rest ∧ (front = [] ∨ front.getLast? = some '/') ∧ '/' ∉ rest := by
  by_cases h : '/' ∈ t.reverse
  · obtain ⟨rest, front, hsplit, hrest⟩ := List.eq_append_cons_of_mem h
    have ht : t = (front.reverse ++ ['/']) ++ rest.reverse := by
      simpa using congrArg List.reverse hsplit
    exact ⟨front.reverse ++ ['/'], rest.reverse, ht, Or.inr (by simp), by simpa using hrest⟩
  · exact ⟨[], t, rfl, Or.inl rfl, by simpa using h⟩

/-- A text with an ending is no text that is shorter than the ending. -/
theorem append_ne {t ending : Text} (h : t.length < ending.length) (start : Text) :
    start ++ ending ≠ t := by
  rintro rfl
  rw [List.length_append] at h
  omega

/-- What is written behind a text belongs to the last name of its path. -/
theorem getLast?_names_ofText_append (t : Text) {ending : Text} (hlong : 2 < ending.length)
    (hslash : '/' ∉ ending) :
    ∃ start, (ofText (t ++ ending)).names.getLast? = some (start ++ ending) := by
  obtain ⟨front, rest, rfl, hfront, hrest⟩ := exists_front t
  have hname : IsFileName (rest ++ ending) := by
    refine ⟨append_ne ?_ rest, append_ne ?_ rest, append_ne ?_ rest, by simp [hrest, hslash]⟩
    · exact Nat.zero_lt_of_lt hlong
    · exact Nat.lt_of_succ_lt hlong
    · exact hlong
  exact ⟨rest, by rw [List.append_assoc, getLast?_names_ofText hfront hname]⟩

/-- Joined texts end with the last one, behind a separator when there are others. -/
theorem join_concat (separator : Text) (parts : List Text) (last : Text) :
    Text.join separator (parts ++ [last]) = parts.flatMap (· ++ separator) ++ last := by
  induction parts with
  | nil => simp [Text.join]
  | cons part parts ih =>
    cases parts with
    | nil => simp [Text.join]
    | cons other parts =>
      simp only [Text.join] at ih ⊢
      rw [List.cons_append, List.cons_append, List.intercalate_cons_cons, ← List.cons_append, ih]
      simp

/-- The root that a text starts with is made of slashes. -/
theorem rootOf_eq (t : Text) : rootOf t = [] ∨ rootOf t = ['/'] ∨ rootOf t = ['/', '/'] := by
  unfold rootOf
  split <;> simp

/-- The name of a file is a path of its own. -/
theorem ofText_of_isFileName {name : Text} (hname : IsFileName name) :
    ofText name = ⟨[], [name]⟩ := by
  obtain ⟨hne, hdot, -, hslash⟩ := hname
  have hroot : rootOf name = [] := by
    cases name with
    | nil => exact absurd rfl hne
    | cons c t =>
      have hc : c ≠ '/' := by
        rintro rfl
        simp at hslash
      unfold rootOf
      split <;> simp_all
  simp [ofText, hroot, Text.pieces_of_not_mem hslash, hne, hdot]

/-- The path of a file in a directory has one more name. -/
theorem inDirectory_eq (directory : Text) {name : Text} (hname : IsFileName name) :
    Files.inDirectory directory name = ((ofText directory).child name).text := by
  rw [Files.inDirectory, ofText_of_isFileName hname, append, if_neg (by simp [isAbsolute]), child]

/-- The path of a file in a directory ends with the name of the file. -/
theorem getLast?_names_inDirectory (directory : Text) {name : Text} (hname : IsFileName name) :
    (ofText (Files.inDirectory directory name)).names.getLast? = some name := by
  have htext : Files.inDirectory directory name = ((ofText directory).root ++
      (ofText directory).names.flatMap (· ++ ['/'])) ++ name := by
    simp [inDirectory_eq directory hname, child, text, join_concat]
  rw [htext]
  refine getLast?_names_ofText ?_ hname
  cases hnames : (ofText directory).names using List.reverseRecOn with
  | nil =>
    rw [List.flatMap_nil, List.append_nil]
    rcases rootOf_eq directory with h | h | h <;> simp [ofText, h]
  | append_singleton names last => exact Or.inr (by simp)

end Phrasebook.Path
