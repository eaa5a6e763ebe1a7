import Mathlib.Algebra.Group.Nat.Defs
import Mathlib.Tactic.SplitIfs
import Phrasebook.Data.Date
import Phrasebook.Proofs.Key.Order

/-!
# Time stamps

A stamp shows the date and the time of day to the second, in digits of fixed widths. A moment that is
not after another one has a stamp that does not come after that of the other one.
-/

namespace Phrasebook

namespace Text

variable {s t : Text} {m n width : Nat}

/-- The last decimal digits of a number, as many as the width says. -/
def digits : Nat → Nat → Text
  | 0, _ => []
  | width + 1, n => digits width (n / 10) ++ [Nat.digitChar (n % 10)]

/-- There are as many digits as the width says. -/
theorem length_digits (width n : Nat) : (digits width n).length = width := by
  induction width generalizing n with
  | zero => rfl
  | succ width ih => simp [digits, ih]

/-- Digits are no slashes. -/
theorem slash_not_mem_digits (width n : Nat) : '/' ∉ digits width n := by
  have hdigit : ∀ d < 10, '/' ≠ Nat.digitChar d := by decide
  induction width generalizing n with
  | zero => simp [digits]
  | succ width ih => simp [digits, ih, hdigit _ (Nat.mod_lt n (by decide))]

/-- Of two numbers within the width, the smaller one has the digits that come first. -/
theorem le_digits (hm : m < 10 ^ width) (hn : n < 10 ^ width) (h : m < n) :
    digits width m ≠ digits width n ∧ le (digits width m) (digits width n) = true := by
  have hdigit : ∀ a < 10, ∀ b < 10, a < b →
      Nat.digitChar a ≠ Nat.digitChar b ∧ (Nat.digitChar a).toNat ≤ (Nat.digitChar b).toNat := by
    decide
  induction width generalizing m n with
  | zero => omega
  | succ width ih =>
    rw [Nat.pow_succ] at hm hn
    have hlength : (digits width (m / 10)).length = (digits width (n / 10)).length := by
      rw [length_digits, length_digits]
    rw [digits, digits, le_append hlength]
    by_cases hfront : m / 10 = n / 10
    · obtain ⟨hne, hle⟩ := hdigit (m % 10) (Nat.mod_lt m (by decide)) (n % 10)
        (Nat.mod_lt n (by decide)) (by omega)
      simp [hfront, le, firstDifferenceLe, hne, hle]
    · obtain ⟨hne, hle⟩ := ih (m := m / 10) (n := n / 10) (by omega) (by omega) (by omega)
      rw [if_neg hne]
      exact ⟨fun hsame => hne (List.append_inj hsame hlength).1, hle⟩

/-- Texts that start with numbers of one width are compared by these numbers, and by the rest when the
numbers are the same. -/
theorem le_digits_append (hm : m < 10 ^ width) (hn : n < 10 ^ width)
    (h : m < n ∨ m = n ∧ le s t = true) :
    le (digits width m ++ s) (digits width n ++ t) = true := by
  rw [le_append (by rw [length_digits, length_digits])]
  rcases h with hlt | ⟨rfl, hrest⟩
  · obtain ⟨hne, hle⟩ := le_digits hm hn hlt
    rwa [if_neg hne]
  · rwa [if_pos rfl]

end Text

namespace Moment

variable {m n : Moment}

/-- The numbers of a moment, the ones that count most first. -/
def numbers (m : Moment) : List Nat :=
  m.date.numbers ++ [m.hour, m.minute, m.second, m.micros]

/-- Whether a moment is shown as one that is not after another one. -/
def isNotAfter (m n : Moment) : Bool :=
  Text.firstDifferenceLe (fun a b => a ≤ b) m.numbers n.numbers

/-- The date and the time of day to the second. -/
def stamp (m : Moment) : Text :=
  Text.digits 4 m.date.year ++ (Text.digits 2 m.date.month ++ (Text.digits 2 m.date.day ++
    '_' :: (Text.digits 2 m.hour ++ (Text.digits 2 m.minute ++ Text.digits 2 m.second))))

example : stamp ⟨⟨2024, 1, 2⟩, 3, 4, 5, 678, none⟩ = "20240102_030405".toList := by decide

/-- The year of a moment has four digits, and its other numbers have two digits at most. -/
structure IsStamped (m : Moment) : Prop where
  year : 1000 ≤ m.date.year ∧ m.date.year < 10 ^ 4
  month : m.date.month < 10 ^ 2
  day : m.date.day < 10 ^ 2
  hour : m.hour < 10 ^ 2
  minute : m.minute < 10 ^ 2
  second : m.second < 10 ^ 2

instance (m : Moment) : Decidable m.IsStamped :=
  decidable_of_iff ((1000 ≤ m.date.year ∧ m.date.year < 10 ^ 4) ∧ m.date.month < 10 ^ 2 ∧
      m.date.day < 10 ^ 2 ∧ m.hour < 10 ^ 2 ∧ m.minute < 10 ^ 2 ∧ m.second < 10 ^ 2)
    ⟨fun ⟨year, month, day, hour, minute, second⟩ => ⟨year, month, day, hour, minute, second⟩,
      fun h => ⟨h.year, h.month, h.day, h.hour, h.minute, h.second⟩⟩

/-- All stamps are of one length. -/
theorem length_stamp (m : Moment) : m.stamp.length = 15 := by
  simp [stamp, Text.length_digits]

/-- Stamps have no slashes. -/
theorem slash_not_mem_stamp (m : Moment) : '/' ∉ m.stamp := by
  simp [stamp, Text.slash_not_mem_digits]

/-- Stamps are in the order of the moments. -/
theorem le_stamp (hm : m.IsStamped) (hn : n.IsStamped) (h : m.isNotAfter n = true) :
    Text.le m.stamp n.stamp = true := by
  have hcons : ∀ {a b : Nat} {s t : List Nat},
      Text.firstDifferenceLe (fun a b => decide (a ≤ b)) (a :: s) (b :: t) = true →
        a < b ∨ a = b ∧ Text.firstDifferenceLe (fun a b => decide (a ≤ b)) s t = true := by
    intro a b s t hle
    rw [Text.firstDifferenceLe] at hle
    split_ifs at hle with hsame
    · exact Or.inr ⟨hsame, hle⟩
    · exact Or.inl (by simp only [decide_eq_true_eq] at hle; omega)
  -- Each number decides, or it is the same and the next one does.
  refine Text.le_digits_append hm.year.2 hn.year.2 ((hcons h).imp_right (.imp_right fun h => ?_))
  refine Text.le_digits_append hm.month hn.month ((hcons h).imp_right (.imp_right fun h => ?_))
  refine Text.le_digits_append hm.day hn.day ((hcons h).imp_right (.imp_right fun h => ?_))
  rw [Text.le, Text.firstDifferenceLe, if_pos rfl]
  refine Text.le_digits_append hm.hour hn.hour ((hcons h).imp_right (.imp_right fun h => ?_))
  refine Text.le_digits_append hm.minute hn.minute ((hcons h).imp_right (.imp_right fun h => ?_))
  have hseconds := Text.le_digits_append (s := []) (t := []) hm.second hn.second
    ((hcons h).imp_right (.imp_right fun _ => rfl))
  rwa [List.append_nil, List.append_nil] at hseconds

end Moment

end Phrasebook
