import Mathlib.Tactic.SplitIfs
import Phrasebook.Path.Pattern

/-!
# What name patterns stand for

A pattern can be cut in front of a part without closing brackets, since no class reaches into such a
part; a name of the pattern can be cut there as well. A part without stars, question marks and
opening brackets stands for itself.
-/

namespace Phrasebook.Path

variable {s t tail inside rest name : Text} {gs hs : List Glob} {skip : Nat}

/-- What is left of a text behind one of its places is its end. -/
theorem mem_suffixes_iff : s ∈ Text.suffixes t ↔ s <:+ t := by
  induction t with
  | nil => simp [Text.suffixes]
  | cons c t ih => rw [Text.suffixes, List.mem_cons, ih, List.suffix_cons_iff]

/-- A text is what comes first, when it is a certain character, and the rest. -/
theorem eq_mark_append (c : Char) (t : Text) :
    t = (if t.head? = some c then [c] else []) ++
      t.drop (if t.head? = some c then [c] else []).length := by
  split_ifs with hc
  · cases t with
    | nil => simp at hc
    | cons d t =>
      obtain rfl : d = c := Option.some.inj hc
      rfl
  · rfl

/-- What comes behind the characters in front of a closing bracket starts with the bracket. -/
theorem eq_of_drop_takeWhile {c : Char} (h : t.drop (t.takeWhile (· ≠ ']')).length = c :: rest) :
    c = ']' := by
  induction t with
  | nil => simp at h
  | cons d t ih =>
    by_cases hd : d = ']'
    · rw [List.takeWhile_cons_of_neg (by simp [hd])] at h
      exact (List.cons.inj h).1.symm.trans hd
    · rw [List.takeWhile_cons_of_pos (by simp [hd])] at h
      exact ih h

/-- The text of a class, its closing bracket and what follows it are the whole text. -/
theorem eq_of_takeClass_eq_some (h : takeClass t = some (inside, rest)) :
    t = inside ++ ']' :: rest := by
  unfold takeClass at h
  dsimp only at h
  have hmark := eq_mark_append '!' t
  generalize (if t.head? = some '!' then ['!'] else []) = mark at h hmark
  generalize t.drop mark.length = t₁ at h hmark
  have hfirst := eq_mark_append ']' t₁
  generalize (if t₁.head? = some ']' then [']'] else []) = first at h hfirst
  generalize t₁.drop first.length = t₂ at h hfirst
  have hinside : t₂ = t₂.takeWhile (· ≠ ']') ++ t₂.drop (t₂.takeWhile (· ≠ ']')).length :=
    (List.prefix_iff_eq_append.1 (List.takeWhile_prefix _)).symm
  split at h
  · simp at h
  · rename_i c behind hdrop
    obtain ⟨rfl, rfl⟩ := Prod.mk.inj (Option.some.inj h)
    rw [hdrop, eq_of_drop_takeWhile hdrop] at hinside
    calc t = mark ++ (first ++ t₂) := by rw [← hfirst, ← hmark]
      _ = mark ++ (first ++ (t₂.takeWhile (· ≠ ']') ++ ']' :: behind)) := by rw [← hinside]
      _ = _ := by simp only [List.append_assoc]

/-- The elements of a pattern that goes on with a part without closing brackets go on with those of
the part. -/
theorem exists_globFrom_append (htail : ']' ∉ tail) (hskip : skip ≤ t.length) :
    ∃ gs, globFrom skip (t ++ tail) = gs ++ globFrom 0 tail := by
  induction t generalizing skip with
  | nil =>
    obtain rfl : skip = 0 := Nat.le_zero.1 hskip
    exact ⟨[], rfl⟩
  | cons c t ih =>
    cases skip with
    | succ skip => exact ih (Nat.le_of_succ_le_succ hskip)
    | zero =>
      have hcons : ∀ (g : Glob) (skip : Nat), skip ≤ t.length →
          ∃ gs, g :: globFrom skip (t ++ tail) = gs ++ globFrom 0 tail := by
        intro g skip hle
        obtain ⟨gs, hgs⟩ := ih hle
        exact ⟨g :: gs, by rw [hgs, List.cons_append]⟩
      rw [List.cons_append, globFrom]
      split_ifs
      · exact hcons _ 0 (Nat.zero_le _)
      · exact hcons _ 0 (Nat.zero_le _)
      · cases hclass : takeClass (t ++ tail) with
        | none => exact hcons _ 0 (Nat.zero_le _)
        | some found =>
          obtain ⟨inside, rest⟩ := found
          refine hcons _ _ ?_
          -- The closing bracket of the class stands in front of the part without brackets.
          have hsuffix : ']' :: rest <:+ t ++ tail :=
            ⟨inside, (eq_of_takeClass_eq_some hclass).symm⟩
          have hlong : tail.length ≤ rest.length := by
            refine Nat.le_of_not_lt fun hshort => htail ?_
            have hbehind := List.suffix_of_suffix_length_le hsuffix (List.suffix_append t tail)
              hshort
            exact hbehind.subset List.mem_cons_self
          rw [List.length_append]
          omega
      · exact hcons _ 0 (Nat.zero_le _)

/-- A star stands for any text. -/
theorem globMatches_anyText :
    globMatches (.anyText :: gs) t = true ↔ ∃ s r, t = s ++ r ∧ globMatches gs r = true := by
  rw [globMatches, List.any_eq_true]
  constructor
  · rintro ⟨r, hr, hmatch⟩
    obtain ⟨s, rfl⟩ := mem_suffixes_iff.1 hr
    exact ⟨s, r, rfl, hmatch⟩
  · rintro ⟨s, r, rfl, hmatch⟩
    exact ⟨r, mem_suffixes_iff.2 (List.suffix_append s r), hmatch⟩

/-- A name of a pattern ends with a name of each part that the pattern ends with. -/
theorem exists_of_globMatches_append (h : globMatches (gs ++ hs) t = true) :
    ∃ s r, t = s ++ r ∧ globMatches hs r = true := by
  induction gs generalizing t with
  | nil => exact ⟨[], t, rfl, h⟩
  | cons g gs ih =>
    have hcons : ∀ c t, globMatches (gs ++ hs) t = true →
        ∃ s r, c :: t = s ++ r ∧ globMatches hs r = true := by
      intro c t hrest
      obtain ⟨s, r, rfl, hr⟩ := ih hrest
      exact ⟨c :: s, r, rfl, hr⟩
    cases g with
    | anyText =>
      obtain ⟨front, behind, rfl, hmatch⟩ := globMatches_anyText.1 h
      obtain ⟨s, r, rfl, hr⟩ := ih hmatch
      exact ⟨front ++ s, r, (List.append_assoc _ _ _).symm, hr⟩
    | anyChar =>
      cases t with
      | nil => simp [globMatches] at h
      | cons c t => exact hcons c t h
    | char d =>
      cases t with
      | nil => simp [globMatches] at h
      | cons c t => exact hcons c t (Bool.and_eq_true_iff.1 h).2
    | oneOf cls =>
      cases t with
      | nil => simp [globMatches] at h
      | cons c t => exact hcons c t (Bool.and_eq_true_iff.1 h).2

/-- A part of a pattern without placeholders stands for its characters. -/
theorem globFrom_append_of_plain (h : isPattern t = false) :
    globFrom 0 (t ++ tail) = t.map .char ++ globFrom 0 tail := by
  induction t with
  | nil => rfl
  | cons c t ih =>
    rw [isPattern, List.any_cons, Bool.or_eq_false_iff] at h
    obtain ⟨hc, ht⟩ := h
    simp only [Bool.or_eq_false_iff, beq_eq_false_iff_ne] at hc
    rw [List.cons_append, globFrom, if_neg hc.1.1, if_neg hc.1.2, if_neg hc.2, ih ht]
    rfl

/-- Only the text itself is a name of its characters. -/
theorem globMatches_map_char_append :
    globMatches (s.map .char ++ hs) t = true ↔ ∃ r, t = s ++ r ∧ globMatches hs r = true := by
  induction s generalizing t with
  | nil => simp
  | cons c s ih =>
    cases t with
    | nil => simp [globMatches]
    | cons d t => simp [globMatches, ih, and_assoc]

/-- Characters stand for the text that they make up. -/
theorem globMatches_map_char : globMatches (s.map .char) t = true ↔ t = s := by
  have happend : globMatches (s.map .char ++ []) t = true ↔
      ∃ r, t = s ++ r ∧ globMatches [] r = true := globMatches_map_char_append
  simpa [globMatches] using happend

end Phrasebook.Path
