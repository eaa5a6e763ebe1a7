import Phrasebook.Proofs.Source.Literal
import Phrasebook.Source.Bracket

/-!
# Brackets around literals

What a scanner does not look at within literals has no effect there: it stands behind a closed
literal as it stood in front of it. So the bracket behind a single literal closes the one before it,
and no strings are joined between them, whatever the literal holds.
-/

namespace Phrasebook.Source

variable {s t : Text}

/-- A scanner that only follows its position outside code goes through a closed literal. -/
theorem scan_literal {α : Type} (scan : Position → Nat → Text → α)
    (hscan : ∀ p index c t, p ≠ .code → scan p index (c :: t) = scan (p.step c) (index + 1) t)
    {quote : Char} (hquote : isQuote quote = true) {raw : Text} (hraw : isRaw quote raw = true)
    (index : Nat) (t : Text) :
    scan (.quoted quote) index (raw ++ quote :: t) = scan .code (index + raw.length + 1) t := by
  have hne : quote ≠ '\\' := ne_backslash_of_isQuote hquote
  fun_induction isRaw quote raw generalizing index with
  | case1 => simp [hscan, Position.step, hne]
  | case2 => simp at hraw
  | case3 d u ih =>
    have hrest := ih hraw (index + 1 + 1)
    simp only [List.cons_append, List.length_cons]
    rw [hscan _ _ _ _ (by simp), hscan _ _ _ _ (by simp [Position.step])]
    simp only [Position.step, if_true]
    rw [hrest]
    congr 1
    omega
  | case4 c u hc ih =>
    simp only [Bool.and_eq_true, decide_eq_true_eq] at hraw
    have hrest := ih hraw.2 (index + 1)
    simp only [List.cons_append, List.length_cons]
    rw [hscan _ _ _ _ (by simp)]
    simp only [Position.step, if_neg hc, if_neg hraw.1]
    rw [hrest]
    congr 1
    omega

/-- A quote starts a literal: the search for the closing bracket goes on inside. -/
theorem closingFrom_quote {quote : Char} (hquote : isQuote quote = true) (depth : Int)
    (index : Nat) (t : Text) : closingFrom .code depth index (quote :: t) =
      closingFrom (.quoted quote) depth (index + 1) t := by
  have hopen : quote ≠ '[' := by
    rintro rfl
    simp [isQuote] at hquote
  have hclose : quote ≠ ']' := by
    rintro rfl
    simp [isQuote] at hquote
  simp [closingFrom, hopen, hclose, Position.step, hquote]

/-- A quote starts a literal: the search for two dots goes on inside. -/
theorem hasDotsFrom_quote {quote : Char} (hquote : isQuote quote = true) (t : Text) :
    hasDotsFrom .code (quote :: t) = hasDotsFrom (.quoted quote) t := by
  have hdot : quote ≠ '.' := by
    rintro rfl
    simp [isQuote] at hquote
  simp [hasDotsFrom, hdot, Position.step, hquote]

/-- A text that opens and closes no bracket and joins no strings: the searches for the closing
bracket and for two dots go on behind it as they came to it. -/
structure IsOperand (s : Text) : Prop where
  /-- The brackets that are open in front of the text are open behind it. -/
  closed : ∀ depth index t, closingFrom .code depth index (s ++ t) =
    closingFrom .code depth (index + s.length) t
  /-- No two dots stand in the text. -/
  whole : ∀ t, hasDotsFrom .code (s ++ t) = hasDotsFrom .code t

/-- Operands in a row, without an operator between them. -/
theorem IsOperand.append (hs : IsOperand s) (ht : IsOperand t) : IsOperand (s ++ t) where
  closed depth index u := by
    rw [List.append_assoc, hs.closed, ht.closed, List.length_append, Nat.add_assoc]
  whole u := by rw [List.append_assoc, hs.whole, ht.whole]

/-- Characters other than brackets, dots and quotes. -/
theorem isOperand_of_forall (h : ∀ c ∈ s, isQuote c = false ∧ c ≠ '[' ∧ c ≠ ']' ∧ c ≠ '.') :
    IsOperand s := by
  induction s with
  | nil => exact ⟨fun _ _ _ => rfl, fun _ => rfl⟩
  | cons c s ih =>
    obtain ⟨⟨hquote, hopen, hclose, hdot⟩, hs⟩ := List.forall_mem_cons.1 h
    constructor
    · intro depth index t
      have hstep : closingFrom .code depth index (c :: (s ++ t)) =
          closingFrom .code depth (index + 1) (s ++ t) := by
        simp [closingFrom, hopen, hclose, Position.step, hquote]
      rw [List.cons_append, hstep, (ih hs).closed, List.length_cons, Nat.add_assoc,
        Nat.add_comm 1]
    · intro t
      have hstep : hasDotsFrom .code (c :: (s ++ t)) = hasDotsFrom .code (s ++ t) := by
        simp [hasDotsFrom, hdot, Position.step, hquote]
      rw [List.cons_append, hstep, (ih hs).whole]

/-- A closed literal, whatever it holds. -/
theorem isOperand_literal {quote : Char} (hquote : isQuote quote = true) {raw : Text}
    (hraw : isRaw quote raw = true) : IsOperand (quote :: raw ++ [quote]) := by
  constructor
  · intro depth index t
    have hscan := scan_literal (fun p index t => closingFrom p depth index t)
      (fun p index c t hp => by simp [closingFrom, hp]) hquote hraw (index + 1) t
    simp only [List.cons_append, List.append_assoc, List.nil_append, List.length_cons,
      List.length_append, List.length_nil]
    rw [closingFrom_quote hquote]
    refine hscan.trans ?_
    congr 1
    omega
  · intro t
    have hscan := scan_literal (fun p _ t => hasDotsFrom p t)
      (fun p _ c t hp => by simp [hasDotsFrom, hp]) hquote hraw 0 t
    simp only [List.cons_append, List.append_assoc, List.nil_append]
    rw [hasDotsFrom_quote hquote]
    exact hscan

/-- No strings are joined in brackets around operands in a row. -/
theorem joinsInBrackets_of_isOperand (hs : IsOperand s) (before t : Text) :
    joinsInBrackets (before ++ '[' :: (s ++ ']' :: t)) before.length = false := by
  have hclosing : closingBracket (before ++ '[' :: (s ++ ']' :: t)) before.length =
      some (before.length + 1 + s.length) := by
    rw [closingBracket, List.drop_left' rfl]
    have hopen : closingFrom .code 0 before.length ('[' :: (s ++ ']' :: t)) =
        closingFrom .code 1 (before.length + 1) (s ++ ']' :: t) := by
      simp [closingFrom]
    rw [hopen, hs.closed]
    simp [closingFrom]
  have hinside : ((before ++ '[' :: (s ++ ']' :: t)).take (before.length + 1 + s.length)).drop
      (before.length + 1) = s := by
    have hsplit : before ++ '[' :: (s ++ ']' :: t) = (before ++ ['[']) ++ (s ++ ']' :: t) := by
      simp
    have hlength : before.length + 1 = (before ++ ['[']).length := by simp
    rw [hsplit, hlength, ← List.length_append, ← List.append_assoc, List.take_left' rfl,
      List.drop_left' rfl]
  have hdots := hs.whole []
  rw [List.append_nil] at hdots
  simp only [joinsInBrackets, hclosing, hinside, hdots, hasDotsFrom]

end Phrasebook.Source
