import Phrasebook.Proofs.Source.Bracket

/-!
# Spans of brackets

A bracket and the one that closes it enclose a span of the line. Both are found among the characters
outside literals: the closing one is the first where as many brackets have closed as opened, and the
span joins strings when two of those characters in a row between them are dots. No literal that opens
in the span goes on behind it, so only the span decides.
-/

namespace Phrasebook.Source

/-! ### Characters outside literals -/

/-- The characters of a text that stand outside literals, each with its position; the text starts at
`index`. A literal is passed over, and one that does not close takes the rest of the text. -/
def bareFrom (index : Nat) : Text → List (Nat × Char)
  | [] => []
  | c :: t =>
    if isQuote c then
      match _hclose : closeLiteral c t with
      | none => []
      | some (raw, rest) => bareFrom (index + raw.length + 2) rest
    else (index, c) :: bareFrom (index + 1) t
termination_by t => t.length
decreasing_by
  · obtain ⟨-, rfl⟩ := closeLiteral_eq_some _hclose
    simp only [List.length_cons, List.length_append]
    omega
  · simp

/-- The characters of a line outside literals, when the literals are read from a position on. -/
def bareOf (text : Text) (start : Nat) : List (Nat × Char) :=
  bareFrom start (text.drop start)

@[simp] theorem bareFrom_nil (index : Nat) : bareFrom index [] = [] := by
  rw [bareFrom]

/-- A character that opens no literal stands outside them. -/
theorem bareFrom_cons {c : Char} (hc : isQuote c = false) (index : Nat) (t : Text) :
    bareFrom index (c :: t) = (index, c) :: bareFrom (index + 1) t := by
  rw [bareFrom, if_neg (by simp [hc])]

/-- A literal is passed over. -/
theorem bareFrom_literal {quote : Char} (hquote : isQuote quote = true) {raw : Text}
    (hraw : isRaw quote raw = true) (index : Nat) (rest : Text) :
    bareFrom index (quote :: (raw ++ quote :: rest)) = bareFrom (index + raw.length + 2) rest := by
  have hclose := closeLiteral_append (ne_backslash_of_isQuote hquote) hraw rest
  rw [bareFrom, if_pos hquote]
  split
  · rename_i hnone
    rw [hclose] at hnone
    exact absurd hnone (by simp)
  · rename_i raw' rest' hsome
    rw [hclose] at hsome
    obtain ⟨rfl, rfl⟩ := Prod.mk.inj (Option.some.inj hsome)
    rfl

/-- A literal that does not close takes the rest. -/
theorem bareFrom_unclosed {quote : Char} (hquote : isQuote quote = true) {t : Text}
    (hnone : closeLiteral quote t = none) (index : Nat) : bareFrom index (quote :: t) = [] := by
  rw [bareFrom, if_pos hquote]
  split
  · rfl
  · rename_i raw rest hsome
    rw [hnone] at hsome
    exact absurd hsome (by simp)

/-- A text is read from the left: it is empty, or a character that opens no literal comes first, or a
literal, or one that does not close. -/
@[elab_as_elim]
theorem bare_induction {motive : Nat → Text → Prop} (nil : ∀ index, motive index [])
    (bare : ∀ index c t, isQuote c = false → motive (index + 1) t → motive index (c :: t))
    (literal : ∀ index quote raw rest, isQuote quote = true → isRaw quote raw = true →
      motive (index + raw.length + 2) rest → motive index (quote :: (raw ++ quote :: rest)))
    (unclosed : ∀ index quote t, isQuote quote = true → closeLiteral quote t = none →
      motive index (quote :: t))
    (index : Nat) (t : Text) : motive index t := by
  fun_induction bareFrom index t with
  | case1 index => exact nil index
  | case2 index c t hc hnone => exact unclosed index c t hc hnone
  | case3 index c t hc raw rest hsome ih =>
    obtain ⟨hraw, rfl⟩ := closeLiteral_eq_some hsome
    exact literal index c raw rest hc hraw ih
  | case4 index c t hc ih => exact bare index c t (by simpa using hc) ih

/-- The characters are counted from the first position on. -/
theorem le_of_mem_bareFrom {index : Nat} {t : Text} {e : Nat × Char} (he : e ∈ bareFrom index t) :
    index ≤ e.1 := by
  induction index, t using bare_induction with
  | nil index => simp at he
  | bare index c t hc ih =>
    rw [bareFrom_cons hc, List.mem_cons] at he
    rcases he with rfl | he
    · exact Nat.le_refl _
    · exact Nat.le_of_succ_le (ih he)
  | literal index quote raw rest hquote hraw ih =>
    rw [bareFrom_literal hquote hraw] at he
    have hle := ih he
    omega
  | unclosed index quote t hquote hnone =>
    rw [bareFrom_unclosed hquote hnone] at he
    exact absurd he List.not_mem_nil

/-- The first position has a character outside literals when the text starts with it. -/
theorem mem_bareFrom_first_iff {c : Char} (hc : isQuote c = false) {index : Nat} {t : Text} :
    (index, c) ∈ bareFrom index t ↔ t.head? = some c := by
  have hlater : ∀ {t : Text} {first n : Nat}, first < n → (first, c) ∉ bareFrom n t :=
    fun hlt hmem => absurd hlt (Nat.not_lt.2 (le_of_mem_bareFrom hmem))
  have hquoted : ∀ {quote : Char}, isQuote quote = true → quote ≠ c := by
    rintro quote hquote rfl
    simp [hquote] at hc
  induction index, t using bare_induction with
  | nil index => simp
  | bare index d t hd ih => simp [bareFrom_cons hd, hlater (Nat.lt_succ_self index), eq_comm]
  | literal index quote raw rest hquote hraw ih =>
    rw [bareFrom_literal hquote hraw]
    simp [hlater (show index < index + raw.length + 2 by omega), hquoted hquote]
  | unclosed index quote t hquote hnone =>
    simp [bareFrom_unclosed hquote hnone, hquoted hquote]

/-- A literal that closes in the front part of a text closes in the text. -/
theorem closeLiteral_extend {quote : Char} (hquote : isQuote quote = true) {t raw rest : Text}
    (h : closeLiteral quote t = some (raw, rest)) (more : Text) :
    closeLiteral quote (t ++ more) = some (raw, rest ++ more) := by
  obtain ⟨hraw, rfl⟩ := closeLiteral_eq_some h
  have hclose := closeLiteral_append (ne_backslash_of_isQuote hquote) hraw (rest ++ more)
  rwa [List.append_assoc, List.cons_append]

/-- A literal that is cut does not close: the one that opens a text does not close in front of a
position unless it does so in the text. -/
theorem closeLiteral_take_eq_none {quote : Char} (hquote : isQuote quote = true) {t : Text} {n : Nat}
    (h : ∀ raw rest, closeLiteral quote t = some (raw, rest) → n ≤ raw.length) :
    closeLiteral quote (t.take n) = none := by
  cases hcut : closeLiteral quote (t.take n) with
  | none => rfl
  | some found =>
    obtain ⟨raw, rest⟩ := found
    have hwhole := closeLiteral_extend hquote hcut (t.drop n)
    rw [List.take_append_drop] at hwhole
    have hle := h _ _ hwhole
    have hlength := congrArg List.length (closeLiteral_eq_some hcut).2
    simp only [List.length_take, List.length_append, List.length_cons] at hlength
    omega

/-- In front of a position stand the characters that the text has up to there, wherever the text is
cut. -/
theorem bareFrom_take (index n : Nat) (t : Text) :
    bareFrom index (t.take n) = (bareFrom index t).filter fun e => e.1 < index + n := by
  have hnone : ∀ {index stop : Nat} {t : Text}, stop ≤ index →
      (bareFrom index t).filter (fun e => e.1 < stop) = [] := by
    intro index stop t hle
    refine List.filter_eq_nil_iff.2 fun e he => ?_
    have hfirst := le_of_mem_bareFrom he
    simpa using Nat.le_trans hle hfirst
  induction index, t using bare_induction generalizing n with
  | nil index => simp
  | bare index c t hc ih =>
    cases n with
    | zero =>
      rw [List.take_zero, bareFrom_nil]
      exact (hnone (Nat.le_refl index)).symm
    | succ n =>
      rw [List.take_succ_cons, bareFrom_cons hc, bareFrom_cons hc, ih,
        List.filter_cons_of_pos (by simp), show index + 1 + n = index + (n + 1) by omega]
  | literal index quote raw rest hquote hraw ih =>
    have hclose := closeLiteral_append (ne_backslash_of_isQuote hquote) hraw rest
    rw [bareFrom_literal hquote hraw]
    rcases Nat.lt_or_ge (raw.length + 1) n with hlt | hge
    · -- the literal stands in front of the position as a whole
      obtain ⟨m, rfl⟩ := Nat.exists_eq_add_of_lt hlt
      have hfront : (quote :: (raw ++ quote :: rest)).take (raw.length + 1 + m + 1) =
          quote :: (raw ++ quote :: rest.take m) := by
        rw [List.take_succ_cons, show raw.length + 1 + m = raw.length + (m + 1) by omega,
          List.take_length_add_append, List.take_succ_cons]
      rw [hfront, bareFrom_literal hquote hraw, ih]
      congr 1
      funext e
      congr 2
      omega
    · rw [hnone (by omega)]
      cases n with
      | zero => rw [List.take_zero, bareFrom_nil]
      | succ n =>
        rw [List.take_succ_cons, bareFrom_unclosed hquote]
        refine closeLiteral_take_eq_none hquote fun raw' rest' h => ?_
        obtain ⟨rfl, rfl⟩ := Prod.mk.inj (Option.some.inj (hclose.symm.trans h))
        omega
  | unclosed index quote t hquote hunclosed =>
    rw [bareFrom_unclosed hquote hunclosed, List.filter_nil]
    cases n with
    | zero => rw [List.take_zero, bareFrom_nil]
    | succ n =>
      rw [List.take_succ_cons, bareFrom_unclosed hquote]
      exact closeLiteral_take_eq_none hquote fun raw rest h => by simp [hunclosed] at h

/-! ### The two scanners -/

/-- A scanner that only follows its position outside code has nothing more to say once a literal does
not close. -/
theorem scan_unclosed {α : Type} (scan : Position → Nat → Text → α) {last : α}
    (hscan : ∀ p index c t, p ≠ .code → scan p index (c :: t) = scan (p.step c) (index + 1) t)
    (hend : ∀ p index, scan p index [] = last) {quote : Char} {t : Text}
    (hnone : closeLiteral quote t = none) (index : Nat) : scan (.quoted quote) index t = last := by
  fun_induction closeLiteral quote t generalizing index with
  | case1 => exact hend _ _
  | case2 => rw [hscan _ _ _ _ (by simp), hend]
  | case3 d t ih =>
    rw [hscan _ _ _ _ (by simp), hscan _ _ _ _ (by simp [Position.step])]
    simpa [Position.step] using ih (by simpa using hnone) (index + 1 + 1)
  | case4 => simp at hnone
  | case5 c t hc hq ih =>
    rw [hscan _ _ _ _ (by simp)]
    simpa [Position.step, hc, hq] using ih (by simpa using hnone) (index + 1)

/-- Two dots in a row stand outside literals exactly when the search finds them. -/
theorem hasDotsFrom_iff (index : Nat) (t : Text) : hasDotsFrom .code t = true ↔
    ∃ i, (i, '.') ∈ bareFrom index t ∧ (i + 1, '.') ∈ bareFrom index t := by
  induction index, t using bare_induction with
  | nil index => simp [hasDotsFrom]
  | bare index c t hc ih =>
    have hnext := @mem_bareFrom_first_iff '.' rfl (index + 1) t
    have hstep : hasDotsFrom .code (c :: t) =
        (decide (c = '.') && decide (t.head? = some '.') || hasDotsFrom .code t) := by
      simp [hasDotsFrom, Position.step, hc]
    have hbefore : ∀ {i x}, index = i + 1 → (i, x) ∉ bareFrom (index + 1) t := by
      intro i x hi hmem
      have hle := le_of_mem_bareFrom hmem
      dsimp only at hle
      omega
    rw [hstep, Bool.or_eq_true, Bool.and_eq_true, decide_eq_true_eq, decide_eq_true_eq, ← hnext,
      bareFrom_cons hc]
    constructor
    · rintro (⟨rfl, hdot⟩ | hdots)
      · exact ⟨index, List.mem_cons_self, List.mem_cons_of_mem _ hdot⟩
      · obtain ⟨i, hi, hi'⟩ := ih.1 hdots
        exact ⟨i, List.mem_cons_of_mem _ hi, List.mem_cons_of_mem _ hi'⟩
    · rintro ⟨i, hi, hnext⟩
      rcases List.mem_cons.1 hnext with hfirst | hi'
      · obtain ⟨rfl, -⟩ := Prod.mk.inj hfirst
        exact absurd hi (by simp [hbefore])
      rcases List.mem_cons.1 hi with hfirst | hi
      · obtain ⟨rfl, rfl⟩ := Prod.mk.inj hfirst
        exact Or.inl ⟨rfl, hi'⟩
      · exact Or.inr (ih.2 ⟨i, hi, hi'⟩)
  | literal index quote raw rest hquote hraw ih =>
    have hpassed := (isOperand_literal hquote hraw).whole rest
    simp only [List.cons_append, List.append_assoc, List.nil_append] at hpassed
    rw [hpassed, bareFrom_literal hquote hraw]
    exact ih
  | unclosed index quote t hquote hunclosed =>
    have hlost := scan_unclosed (fun p _ t => hasDotsFrom p t)
      (fun p _ c t hp => by simp [hasDotsFrom, hp]) (fun _ _ => rfl) hunclosed 0
    rw [hasDotsFrom_quote hquote, hlost, bareFrom_unclosed hquote hunclosed]
    simp

/-! ### The closing bracket -/

/-- How often a character stands among those up to a position. -/
def countUpTo (bare : List (Nat × Char)) (c : Char) (stop : Nat) : Nat :=
  bare.countP fun e => e.1 ≤ stop && e.2 = c

/-- The first of the positions where as many brackets have closed as opened, when `depth` brackets
are open in front of them. -/
structure IsClosing (depth : Nat) (bare : List (Nat × Char)) (closing : Nat) : Prop where
  /-- It is one of the positions. -/
  mem : closing ∈ bare.map (·.1)
  /-- As many brackets have closed there as opened. -/
  balanced : depth + countUpTo bare '[' closing = countUpTo bare ']' closing
  /-- At the positions in front of it they have not. -/
  first : ∀ i ∈ bare.map (·.1), i < closing →
    depth + countUpTo bare '[' i ≠ countUpTo bare ']' i

variable {index closing depth : Nat} {c : Char} {bare : List (Nat × Char)}

/-- The character at the first position counts from there on. -/
theorem countUpTo_cons {stop : Nat} (h : index ≤ stop) (c x : Char) :
    countUpTo ((index, c) :: bare) x stop = countUpTo bare x stop + if c = x then 1 else 0 := by
  simp [countUpTo, List.countP_cons, h]

/-- In front of the first position nothing is counted. -/
theorem countUpTo_eq_zero {stop : Nat} (h : ∀ i ∈ bare.map (·.1), stop < i) (x : Char) :
    countUpTo bare x stop = 0 := by
  rw [countUpTo, List.countP_eq_zero]
  intro e he
  have hlt := h e.1 (List.mem_map_of_mem he)
  simp [Nat.not_le.2 hlt]

/-- A character that leaves some bracket open is passed by. -/
theorem isClosing_cons {depth' : Nat} (hlater : ∀ i ∈ bare.map (·.1), index < i)
    (hdepth : depth + (if c = '[' then 1 else 0) = depth' + if c = ']' then 1 else 0)
    (hopen : 0 < depth') :
    IsClosing depth ((index, c) :: bare) closing ↔ IsClosing depth' bare closing := by
  have hbalanced : ∀ {stop}, index ≤ stop →
      (depth + countUpTo ((index, c) :: bare) '[' stop = countUpTo ((index, c) :: bare) ']' stop ↔
        depth' + countUpTo bare '[' stop = countUpTo bare ']' stop) := by
    intro stop hstop
    rw [countUpTo_cons hstop, countUpTo_cons hstop]
    omega
  have hfirst : ¬ depth' + countUpTo bare '[' index = countUpTo bare ']' index := by
    rw [countUpTo_eq_zero hlater, countUpTo_eq_zero hlater]
    omega
  constructor
  · rintro ⟨hmem, hclosed, hopened⟩
    rcases List.mem_cons.1 hmem with rfl | hmem
    · exact absurd ((hbalanced (Nat.le_refl _)).1 hclosed) hfirst
    · have hle := Nat.le_of_lt (hlater closing hmem)
      exact ⟨hmem, (hbalanced hle).1 hclosed, fun i hi hlt hzero =>
        hopened i (List.mem_cons_of_mem _ hi) hlt
          ((hbalanced (Nat.le_of_lt (hlater i hi))).2 hzero)⟩
  · rintro ⟨hmem, hclosed, hopened⟩
    have hle := Nat.le_of_lt (hlater closing hmem)
    refine ⟨List.mem_cons_of_mem _ hmem, (hbalanced hle).2 hclosed, fun i hi hlt hzero => ?_⟩
    rcases List.mem_cons.1 hi with rfl | hi
    · exact hfirst ((hbalanced (Nat.le_refl _)).1 hzero)
    · exact hopened i hi hlt ((hbalanced (Nat.le_of_lt (hlater i hi))).1 hzero)

/-- A bracket that closes the last open one is found. -/
theorem isClosing_one (hlater : ∀ i ∈ bare.map (·.1), index < i) :
    IsClosing 1 ((index, ']') :: bare) closing ↔ index = closing := by
  have hclosed : 1 + countUpTo ((index, ']') :: bare) '[' index =
      countUpTo ((index, ']') :: bare) ']' index := by
    rw [countUpTo_cons (Nat.le_refl _), countUpTo_cons (Nat.le_refl _), countUpTo_eq_zero hlater,
      countUpTo_eq_zero hlater]
    rfl
  constructor
  · rintro ⟨hmem, -, hopened⟩
    rcases List.mem_cons.1 hmem with rfl | hmem
    · rfl
    · exact absurd hclosed (hopened index List.mem_cons_self (hlater closing hmem))
  · rintro rfl
    refine ⟨List.mem_cons_self, hclosed, fun i hi hlt => ?_⟩
    rcases List.mem_cons.1 hi with rfl | hi
    · exact absurd hlt (Nat.lt_irrefl _)
    · exact absurd hlt (Nat.not_lt.2 (Nat.le_of_lt (hlater i hi)))

/-- The search finds the first position where as many brackets have closed as opened. -/
theorem closingFrom_eq_some_iff (hopen : 0 < depth) (index : Nat) (t : Text) :
    closingFrom .code depth index t = some closing ↔
      IsClosing depth (bareFrom index t) closing := by
  have hnever : ∀ {depth}, ¬ IsClosing depth [] closing := fun h => by simpa using h.mem
  induction index, t using bare_induction generalizing depth with
  | nil index => simp [closingFrom, hnever]
  | bare index c t hc ih =>
    have hlater : ∀ i ∈ (bareFrom (index + 1) t).map (·.1), index < i := by
      intro i hi
      obtain ⟨e, he, rfl⟩ := List.mem_map.1 hi
      exact le_of_mem_bareFrom he
    rw [bareFrom_cons hc]
    generalize bareFrom (index + 1) t = bare at ih hlater
    by_cases hleft : c = '['
    · subst hleft
      have hpassed : IsClosing depth ((index, '[') :: bare) closing ↔
          IsClosing (depth + 1) bare closing :=
        isClosing_cons hlater (by simp) (Nat.succ_pos depth)
      have hrest := (ih (Nat.succ_pos depth)).trans hpassed.symm
      simpa [closingFrom] using hrest
    by_cases hright : c = ']'
    · subst hright
      by_cases hlast : depth = 1
      · subst hlast
        rw [isClosing_one hlater]
        simp [closingFrom]
      · obtain ⟨deep, rfl⟩ := Nat.exists_eq_add_of_le' hopen
        have hdeep : 0 < deep := by omega
        have hpassed : IsClosing (deep + 1) ((index, ']') :: bare) closing ↔
            IsClosing deep bare closing := isClosing_cons hlater (by simp) hdeep
        have hrest := (ih hdeep).trans hpassed.symm
        have hne : deep ≠ 0 := by omega
        simpa [closingFrom, hne] using hrest
    · have hpassed : IsClosing depth ((index, c) :: bare) closing ↔ IsClosing depth bare closing :=
        isClosing_cons hlater (by simp [hleft, hright]) hopen
      have hrest := (ih hopen).trans hpassed.symm
      simpa [closingFrom, hleft, hright, Position.step, hc] using hrest
  | literal index quote raw rest hquote hraw ih =>
    have hpassed := (isOperand_literal hquote hraw).closed depth index rest
    simp only [List.cons_append, List.append_assoc, List.nil_append, List.length_cons,
      List.length_append, List.length_nil] at hpassed
    rw [hpassed, bareFrom_literal hquote hraw]
    exact ih hopen
  | unclosed index quote t hquote hunclosed =>
    have hlost := scan_unclosed (fun p index t => closingFrom p depth index t)
      (fun p index c t hp => by simp [closingFrom, hp]) (fun _ _ => rfl) hunclosed (index + 1)
    rw [closingFrom_quote hquote, hlost, bareFrom_unclosed hquote hunclosed]
    simp [hnever]

/-! ### Locality -/

/-- The search stops at the closing bracket: the text up to there decides. -/
theorem closingFrom_span {position : Position} {level : Int} {t : Text}
    (h : closingFrom position level index t = some closing) :
    ∃ span rest, t = span ++ rest ∧ closing + 1 = index + span.length ∧
      ∀ after, closingFrom position level index (span ++ after) = some closing := by
  fun_induction closingFrom position level index t with
  | case1 => simp at h
  | case2 position level index c t hleft ih =>
    obtain ⟨span, rest, rfl, hlength, hall⟩ := ih h
    refine ⟨c :: span, rest, rfl, by rw [List.length_cons]; omega, fun after => ?_⟩
    rw [List.cons_append, closingFrom, if_pos hleft, hall]
  | case3 position level index c t hleft hright hlast =>
    obtain rfl := Option.some.inj h
    refine ⟨[c], t, rfl, rfl, fun after => ?_⟩
    rw [List.singleton_append, closingFrom, if_neg hleft, if_pos hright, if_pos hlast]
  | case4 position level index c t hleft hright hlast ih =>
    obtain ⟨span, rest, rfl, hlength, hall⟩ := ih h
    refine ⟨c :: span, rest, rfl, by rw [List.length_cons]; omega, fun after => ?_⟩
    rw [List.cons_append, closingFrom, if_neg hleft, if_pos hright, if_neg hlast, hall]
  | case5 position level index c t hleft hright ih =>
    obtain ⟨span, rest, rfl, hlength, hall⟩ := ih h
    refine ⟨c :: span, rest, rfl, by rw [List.length_cons]; omega, fun after => ?_⟩
    rw [List.cons_append, closingFrom, if_neg hleft, if_neg hright, hall]

/-- The position of the closing bracket moves with the text. -/
theorem closingFrom_add (position : Position) (level : Int) (index : Nat) (t : Text)
    (shift : Nat) :
    closingFrom position level (shift + index) t =
      (closingFrom position level index t).map (shift + ·) := by
  fun_induction closingFrom position level index t with
  | case1 => rfl
  | case2 position level index c t hleft ih => rw [closingFrom, if_pos hleft, ← ih, Nat.add_assoc]
  | case3 position level index c t hleft hright hlast =>
    rw [closingFrom, if_neg hleft, if_pos hright, if_pos hlast, Option.map_some]
  | case4 position level index c t hleft hright hlast ih =>
    rw [closingFrom, if_neg hleft, if_pos hright, if_neg hlast, ← ih, Nat.add_assoc]
  | case5 position level index c t hleft hright ih =>
    rw [closingFrom, if_neg hleft, if_neg hright, ← ih, Nat.add_assoc]

/-- The closing bracket is found in the rest of the line, whatever stands before it. -/
theorem closingBracket_append (before t : Text) :
    closingBracket (before ++ t) before.length = (closingBracket t 0).map (before.length + ·) := by
  rw [closingBracket, List.drop_left' rfl, closingBracket, List.drop_zero]
  exact closingFrom_add .code 0 0 t before.length

/-- Whether strings are joined is seen from the rest of the line, whatever stands before it. -/
theorem joinsInBrackets_append (before t : Text) :
    joinsInBrackets (before ++ t) before.length = joinsInBrackets t 0 := by
  rw [joinsInBrackets, closingBracket_append, joinsInBrackets]
  cases closingBracket t 0 with
  | none => rfl
  | some closing =>
    rw [Option.map_some]
    dsimp only
    rw [List.take_length_add_append, ← List.drop_drop, List.drop_left' rfl]

/-- The span of a bracket at the front of a text has the answers of the text, whatever follows. -/
theorem exists_span {t : Text} {closing : Nat} (h : closingBracket t 0 = some closing) :
    ∃ span rest, t = span ++ rest ∧ span.length = closing + 1 ∧
      ∀ after, closingBracket (span ++ after) 0 = some closing ∧
        joinsInBrackets (span ++ after) 0 = joinsInBrackets t 0 := by
  have hfound : closingFrom .code 0 0 t = some closing := h
  obtain ⟨span, rest, rfl, hlength, hall⟩ := closingFrom_span hfound
  have hinside : ∀ after, joinsInBrackets (span ++ after) 0 =
      hasDotsFrom .code ((span.take closing).drop 1) := by
    intro after
    have hclosing : closingBracket (span ++ after) 0 = some closing := hall after
    rw [joinsInBrackets, hclosing]
    dsimp only
    rw [List.take_append_of_le_length (by omega)]
  exact ⟨span, rest, rfl, by omega, fun after => ⟨hall after, by rw [hinside, hinside]⟩⟩

/-! ### Both answers -/

variable {text : Text} {start : Nat}

/-- The text from a bracket up to the one that closes it. -/
def spanOf (text : Text) (start closing : Nat) : Text :=
  (text.drop start).take (closing + 1 - start)

/-- Of the characters outside literals, the bracket comes first. -/
theorem bareOf_bracket (hstart : text[start]? = some '[') :
    text.drop start = '[' :: text.drop (start + 1) ∧
      bareOf text start = (start, '[') :: bareFrom (start + 1) (text.drop (start + 1)) := by
  obtain ⟨hlt, hchar⟩ := List.getElem?_eq_some_iff.1 hstart
  have hrest : text.drop start = '[' :: text.drop (start + 1) := by
    rw [List.drop_eq_getElem_cons hlt, hchar]
  exact ⟨hrest, by rw [bareOf, hrest, bareFrom_cons rfl]⟩

/-- A bracket closes at the first position where as many brackets have closed as opened. -/
theorem closingBracket_eq_some_iff (hstart : text[start]? = some '[') :
    closingBracket text start = some closing ↔ IsClosing 0 (bareOf text start) closing := by
  obtain ⟨hrest, hbare⟩ := bareOf_bracket hstart
  have hlater : ∀ i ∈ (bareFrom (start + 1) (text.drop (start + 1))).map (·.1), start < i := by
    intro i hi
    obtain ⟨e, he, rfl⟩ := List.mem_map.1 hi
    exact le_of_mem_bareFrom he
  have hopened : closingBracket text start =
      closingFrom .code (1 : Nat) (start + 1) (text.drop (start + 1)) := by
    rw [closingBracket, hrest]
    rfl
  rw [hopened, closingFrom_eq_some_iff Nat.one_pos, hbare]
  exact (isClosing_cons hlater rfl Nat.one_pos).symm

/-- Two dots in a row stand between a bracket and a later position exactly when the search between
them finds some: a literal that is cut there has none outside. -/
theorem hasDotsFrom_between_iff (hstart : text[start]? = some '[') (stop : Nat) :
    hasDotsFrom .code ((text.take stop).drop (start + 1)) = true ↔
      ∃ i, start < i ∧ i + 1 < stop ∧
        (i, '.') ∈ bareOf text start ∧ (i + 1, '.') ∈ bareOf text start := by
  have hmem : ∀ i, (i, '.') ∈ bareOf text start ↔
      (i, '.') ∈ bareFrom (start + 1) (text.drop (start + 1)) := by
    intro i
    rw [(bareOf_bracket hstart).2, List.mem_cons]
    exact or_iff_right (by simp)
  rw [List.drop_take, hasDotsFrom_iff (start + 1), bareFrom_take]
  simp only [List.mem_filter, decide_eq_true_eq, hmem]
  constructor
  · rintro ⟨i, ⟨hi, -⟩, hnext, hlt⟩
    have hle := le_of_mem_bareFrom hi
    dsimp only at hle
    exact ⟨i, by omega, by omega, hi, hnext⟩
  · rintro ⟨i, hle, hlt, hi, hnext⟩
    exact ⟨i, ⟨hi, by omega⟩, hnext, by omega⟩

/-- A bracket joins strings when it closes and two dots in a row stand between. -/
theorem joinsInBrackets_iff (hstart : text[start]? = some '[') :
    joinsInBrackets text start = true ↔
      ∃ closing, IsClosing 0 (bareOf text start) closing ∧ ∃ i, start < i ∧ i + 1 < closing ∧
        (i, '.') ∈ bareOf text start ∧ (i + 1, '.') ∈ bareOf text start := by
  simp only [← closingBracket_eq_some_iff hstart, ← hasDotsFrom_between_iff hstart]
  rw [joinsInBrackets]
  cases closingBracket text start with
  | none => simp
  | some closing => simp

/-- The rest of the line from the bracket on answers by itself. -/
theorem answers_drop (hstart : text[start]? = some '[') :
    closingBracket text start = (closingBracket (text.drop start) 0).map (start + ·) ∧
      joinsInBrackets text start = joinsInBrackets (text.drop start) 0 := by
  have hlength : (text.take start).length = start := by
    obtain ⟨hlt, -⟩ := List.getElem?_eq_some_iff.1 hstart
    exact List.length_take_of_le (Nat.le_of_lt hlt)
  have hclosing := closingBracket_append (text.take start) (text.drop start)
  have hjoins := joinsInBrackets_append (text.take start) (text.drop start)
  rw [List.take_append_drop, hlength] at hclosing hjoins
  exact ⟨hclosing, hjoins⟩

/-- The closing bracket and the joining of strings are seen from the characters outside literals, from
the bracket on, where a literal that does not close takes the rest of the line. A bracket closes at the
first of them where as many brackets have closed as opened, and it joins strings exactly when it closes
and two dots in a row stand between. Both answers move along when the text before the bracket is
replaced, and when the text behind the closing one is replaced with it. -/
theorem bracket_span_decides (hstart : text[start]? = some '[') :
    (∀ closing, closingBracket text start = some closing ↔
      IsClosing 0 (bareOf text start) closing) ∧
    (joinsInBrackets text start = true ↔
      ∃ closing, IsClosing 0 (bareOf text start) closing ∧ ∃ i, start < i ∧ i + 1 < closing ∧
        (i, '.') ∈ bareOf text start ∧ (i + 1, '.') ∈ bareOf text start) ∧
    (∀ before, closingBracket (before ++ text.drop start) before.length =
        (closingBracket text start).map (fun closing => before.length + (closing - start)) ∧
      joinsInBrackets (before ++ text.drop start) before.length = joinsInBrackets text start) ∧
    ∀ closing, closingBracket text start = some closing → ∀ before after,
      closingBracket (before ++ spanOf text start closing ++ after) before.length =
          some (before.length + (closing - start)) ∧
        joinsInBrackets (before ++ spanOf text start closing ++ after) before.length =
          joinsInBrackets text start := by
  obtain ⟨hclosing, hjoins⟩ := answers_drop hstart
  refine ⟨fun closing => closingBracket_eq_some_iff hstart, joinsInBrackets_iff hstart,
    fun before => ?_, fun closing hfound before after => ?_⟩
  · rw [closingBracket_append, joinsInBrackets_append, hclosing, hjoins, Option.map_map]
    refine ⟨congrArg (Option.map · _) (funext fun near => ?_), rfl⟩
    exact congrArg (before.length + ·) (Nat.add_sub_cancel_left start near).symm
  · obtain ⟨near, hnear, rfl⟩ := Option.map_eq_some_iff.1 (hclosing.symm.trans hfound)
    obtain ⟨span, rest, hsplit, hlength, hall⟩ := exists_span hnear
    have hspan : spanOf text start (start + near) = span := by
      rw [spanOf, hsplit, show start + near + 1 - start = span.length by omega,
        List.take_left' rfl]
    obtain ⟨hsame, hjoined⟩ := hall after
    rw [hspan, List.append_assoc, closingBracket_append, joinsInBrackets_append, hsame, hjoined,
      hjoins, Nat.add_sub_cancel_left]
    exact ⟨rfl, rfl⟩

/-- Brackets and dots in literals of both kinds do not count. Behind another text, which opens a
literal, and in front of one that has more dots and brackets, the span has the same answers. -/
theorem bracket_span_decides_of_literals :
    let text := "f(L[\"a[\" .. t['].']] .. x)".toList
    let other := "it's L".toList ++ spanOf text 3 19 ++ " .. \"]".toList
    text[3]? = some '[' ∧ IsClosing 0 (bareOf text 3) 19 ∧
      closingBracket other 6 = some 22 ∧ joinsInBrackets other 6 = true := by
  intro text other
  have hstart : text[3]? = some '[' := by decide
  have hfound : closingBracket text 3 = some 19 := by decide +kernel
  have hjoins : joinsInBrackets text 3 = true := by decide +kernel
  obtain ⟨hclosing, -, -, hlocal⟩ := bracket_span_decides hstart
  obtain ⟨hother, hsame⟩ := hlocal 19 hfound "it's L".toList " .. \"]".toList
  exact ⟨hstart, (hclosing 19).1 hfound, hother, hsame.trans hjoins⟩

end Phrasebook.Source
