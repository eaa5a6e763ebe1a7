import Mathlib.Data.List.DropRight
import Phrasebook.Proofs.Number.Value
import Phrasebook.Settings.Read

/-!
# What the readers of settings accept

A reader takes values of several kinds, but what it makes of them is of one kind and in range. Most
readers take what they have made and make the same of it again. The reader of addresses does not
always: it looks at the start of an address before it takes the slashes at the end away, so when
nothing but slashes follows the scheme, what is left is no address.
-/

namespace Phrasebook

/-- A text is a name when it consists of letters, digits and low lines and starts with no digit. -/
def IsName (t : Text) : Prop :=
  (∃ c rest, t = c :: rest ∧ c.isDigit = false) ∧ ∀ c ∈ t, c.isAlphanum = true ∨ c = '_'

/-- A scheme of addresses of the web, without the slashes that belong behind it. -/
def IsBareScheme (t : Text) : Prop :=
  t = "http:".toList ∨ t = "https:".toList

instance (t : Text) : Decidable (IsBareScheme t) :=
  inferInstanceAs (Decidable (_ ∨ _))

/-- A text is an address of the web when it starts with a scheme and two slashes. -/
def IsAddress (t : Text) : Prop :=
  ∃ scheme rest, IsBareScheme scheme ∧ t = scheme ++ "//".toList ++ rest

namespace Readers

/-- Reading gives what satisfies a condition, and what satisfies the condition is read back from the
value that it is written as. -/
structure Restores {α : Type} (read : Value → Checked α) (write : α → Value) (P : α → Prop) :
    Prop where
  /-- What is read satisfies the condition. -/
  sound : ∀ {v a}, read v = .valid a → P a
  /-- What satisfies the condition is read back. -/
  back : ∀ {a}, P a → read (write a) = .valid a

/-- The reader of a single value, with its problem. -/
def only {α : Type} (read : Value → Except ProblemKind α) (v : Value) : Checked α :=
  .ofExcept (read v)

theorem only_eq_valid_iff {α : Type} {read : Value → Except ProblemKind α} {v : Value} {a : α} :
    only read v = .valid a ↔ read v = .ok a := by
  unfold only
  cases read v <;> simp [Checked.ofExcept]

/-- A reader that looks for a kind of value and keeps what satisfies a condition restores that. -/
theorem restores_of_iff {α : Type} {read kind : Value → Except ProblemKind α} {write : α → Value}
    {P : α → Prop} (hread : ∀ v a, read v = .ok a ↔ kind v = .ok a ∧ P a)
    (hkind : ∀ a, kind (write a) = .ok a) : Restores (only read) write P where
  sound h := ((hread _ _).1 (only_eq_valid_iff.1 h)).2
  back {a} ha := only_eq_valid_iff.2 ((hread _ _).2 ⟨hkind a, ha⟩)

section Except

variable {α β : Type} {x : Except ProblemKind α} {a a' : α} {kind : ProblemKind}

/-- A step is taken after another one has given a value. -/
theorem bind_eq_ok_iff {f : α → Except ProblemKind β} {b : β} :
    (x >>= f) = .ok b ↔ ∃ a, x = .ok a ∧ f a = .ok b := by
  cases x <;> simp [bind, Except.bind]

theorem return_eq_ok_iff : (return a : Except ProblemKind α) = .ok a' ↔ a = a' := by
  simp [pure, Except.pure]

/-- A guard lets pass what is no problem. -/
theorem guard_eq_ok_iff {c : Prop} [Decidable c] :
    (if c then .error kind else x) = .ok a ↔ ¬ c ∧ x = .ok a := by
  split_ifs with h <;> simp [h]

/-- A guard lets pass what is as it should be. -/
theorem require_eq_ok_iff {c : Prop} [Decidable c] :
    (if c then x else .error kind) = .ok a ↔ c ∧ x = .ok a := by
  split_ifs with h <;> simp [h]

/-- A step that lets pass what satisfies a condition keeps what came before it. -/
theorem keep_eq_ok_iff {f : α → Except ProblemKind α} {P : α → Prop}
    (hf : ∀ a, f a = .ok a' ↔ P a ∧ a = a') : (x >>= f) = .ok a' ↔ x = .ok a' ∧ P a' := by
  rw [bind_eq_ok_iff]
  constructor
  · rintro ⟨a, ha, hfa⟩
    obtain ⟨hP, rfl⟩ := (hf a).1 hfa
    exact ⟨ha, hP⟩
  · rintro ⟨ha, hP⟩
    exact ⟨a', ha, (hf a').2 ⟨hP, rfl⟩⟩

end Except

/-! ### Texts -/

theorem text_eq_ok_iff {v : Value} {t : Text} : text v = .ok t ↔ v = .text t := by
  cases v <;> simp [text]

theorem restores_text : Restores (only text) .text fun _ => True where
  sound _ := trivial
  back _ := rfl

theorem restores_text? : Restores (only text?) Value.ofText? fun _ => True where
  sound _ := trivial
  back {t} _ := by cases t <;> rfl

theorem filledText_eq_ok_iff (v : Value) (t : Text) :
    filledText v = .ok t ↔ text v = .ok t ∧ t ≠ [] := by
  unfold filledText
  apply keep_eq_ok_iff
  intro u
  rw [guard_eq_ok_iff, return_eq_ok_iff, List.isEmpty_iff]

theorem restores_filledText : Restores (only filledText) .text fun t => t ≠ [] :=
  restores_of_iff filledText_eq_ok_iff fun _ => rfl

/-- A list of texts is read back, whatever the number of its first item. -/
theorem textsFrom_map_text (i : Nat) (ts : List Text) :
    textsFrom i (ts.map .text) = .valid ts := by
  induction ts generalizing i with
  | nil => rfl
  | cons t ts ih => rw [List.map_cons, textsFrom, ih]; rfl

theorem restores_texts : Restores texts .texts fun _ => True where
  sound _ := trivial
  back {ts} _ := textsFrom_map_text 0 ts

/-! ### Names -/

/-- A letter is no digit. -/
theorem isDigit_eq_false_of_isAlpha {c : Char} (h : c.isAlpha = true) : c.isDigit = false := by
  have hdef : c.isAlpha = (decide (c.val ≥ 'A'.val ∧ c.val ≤ 'Z'.val) ||
      (decide (c.val ≥ 'a'.val) && decide (c.val ≤ 'z'.val))) := rfl
  simp only [hdef, Bool.or_eq_true, Bool.and_eq_true, decide_eq_true_eq, ge_iff_le,
    UInt32.le_iff_toNat_le] at h
  have hletter : (65 ≤ c.toNat ∧ c.toNat ≤ 90) ∨ (97 ≤ c.toNat ∧ c.toNat ≤ 122) := h
  have hends : '0'.toNat = 48 ∧ '9'.toNat = 57 := by decide
  rw [← Bool.not_eq_true, Char.isDigit_iff_toNat]
  omega

/-- What may stand in a name starts one when it is no digit. -/
theorem startsName_iff {c : Char} (h : c.isAlphanum = true ∨ c = '_') :
    (c.isAlpha || c == '_') = true ↔ c.isDigit = false := by
  rw [Char.isAlphanum, Bool.or_eq_true] at h
  rw [Bool.or_eq_true, beq_iff_eq]
  constructor
  · rintro (halpha | rfl)
    · exact isDigit_eq_false_of_isAlpha halpha
    · rfl
  · intro hdigit
    obtain (halpha | hdigit') | hline := h
    · exact Or.inl halpha
    · rw [hdigit] at hdigit'
      cases hdigit'
    · exact Or.inr hline

theorem isName_iff {t : Text} : isName t = true ↔ IsName t := by
  cases t with
  | nil => simp [isName, IsName]
  | cons c t =>
    simp only [isName, IsName, List.head?_cons, Option.any_some, Bool.and_eq_true,
      List.all_eq_true, isNameChar, Bool.or_eq_true, beq_iff_eq]
    constructor
    · rintro ⟨hstart, hall⟩
      refine ⟨⟨c, t, rfl, (startsName_iff (hall c List.mem_cons_self)).1 ?_⟩, hall⟩
      simpa using hstart
    · rintro ⟨⟨d, u, heq, hdigit⟩, hall⟩
      obtain ⟨rfl, rfl⟩ := List.cons.inj heq
      refine ⟨?_, hall⟩
      simpa using (startsName_iff (hall c List.mem_cons_self)).2 hdigit

/-- A name ends in no line feed. -/
theorem getLast?_ne_of_isName {t : Text} (h : IsName t) : t.getLast? ≠ some '\n' := fun hlast => by
  simpa using h.2 '\n' (List.mem_of_getLast? hlast)

/-- What the reader of names keeps: a name, or a name with a line feed behind it. -/
def IsNameLine (t : Text) : Prop :=
  ∃ n, IsName n ∧ (t = n ∨ t = n ++ ['\n'])

/-- The reader looks for a name in front of a line feed at the end. -/
theorem isName_ite_iff {t : Text} :
    isName (if t.getLast? = some '\n' then t.dropLast else t) = true ↔ IsNameLine t := by
  rw [isName_iff]
  constructor
  · intro h
    split_ifs at h with hlast
    · exact ⟨t.dropLast, h, Or.inr (List.dropLast_append_getLast? '\n' hlast).symm⟩
    · exact ⟨t, h, Or.inl rfl⟩
  · rintro ⟨n, hn, rfl | rfl⟩
    · rwa [if_neg (getLast?_ne_of_isName hn)]
    · rwa [if_pos List.getLast?_concat, List.dropLast_concat]

/-- A name is kept without a line feed behind it exactly when it does not end in one. -/
theorem isName_iff_isNameLine {t : Text} : IsName t ↔ IsNameLine t ∧ t.getLast? ≠ some '\n' := by
  constructor
  · exact fun h => ⟨⟨t, h, Or.inl rfl⟩, getLast?_ne_of_isName h⟩
  · rintro ⟨⟨n, hn, rfl | rfl⟩, hlast⟩
    · exact hn
    · exact absurd List.getLast?_concat hlast

/-- A name with a line feed behind it is not empty. -/
theorem ne_nil_of_isNameLine {t : Text} (h : IsNameLine t) : t ≠ [] := by
  obtain ⟨n, ⟨⟨c, rest, rfl, -⟩, -⟩, rfl | rfl⟩ := h <;> simp

theorem name_eq_ok_iff (v : Value) (t : Text) : name v = .ok t ↔ text v = .ok t ∧ IsNameLine t := by
  have hkeep : name v = .ok t ↔ filledText v = .ok t ∧ IsNameLine t := by
    unfold name
    apply keep_eq_ok_iff
    intro u
    rw [require_eq_ok_iff, return_eq_ok_iff, isName_ite_iff]
  rw [hkeep, filledText_eq_ok_iff, and_assoc, and_iff_right_of_imp ne_nil_of_isNameLine]

theorem restores_name : Restores (only name) .text IsNameLine :=
  restores_of_iff name_eq_ok_iff fun _ => rfl

/-! ### Numbers, truth values and levels -/

theorem restores_truth : Restores (only truth) .bool fun _ => True where
  sound _ := trivial
  back _ := rfl

theorem restores_level : Restores (only level) (fun l => .text l.name) fun _ => True where
  sound _ := trivial
  back {l} _ := by cases l <;> rfl

theorem intBetween_eq_ok_iff (least most : Nat) (v : Value) (i : Int) :
    intBetween least most v = .ok i ↔ int v = .ok i ∧ least ≤ i ∧ i ≤ most := by
  unfold intBetween
  apply keep_eq_ok_iff
  intro j
  rw [guard_eq_ok_iff, guard_eq_ok_iff, return_eq_ok_iff]
  omega

theorem restores_intBetween (least most : Nat) :
    Restores (only (intBetween least most)) .int fun i => least ≤ i ∧ i ≤ most :=
  restores_of_iff (intBetween_eq_ok_iff least most) fun _ => rfl

/-- A double that is no number, or whose value satisfies a condition. -/
def IsNanOr (P : ℚ → Prop) (d : Double) : Prop :=
  d = .nan ∨ ∃ q, d.value? = some q ∧ P q

/-- A double has a value that satisfies a condition when it is a number and no other one. -/
theorem exists_value?_iff {P : ℚ → Prop} {d : Double} :
    (∃ q, d.value? = some q ∧ P q) ↔ IsNanOr P d ∧ d ≠ .nan := by
  constructor
  · rintro ⟨q, hq, hP⟩
    refine ⟨Or.inr ⟨q, hq, hP⟩, ?_⟩
    rintro rfl
    cases hq
  · exact fun ⟨hor, hnan⟩ => hor.resolve_left hnan

/-- What is neither greater than a bound nor too low is no number or has its value in range. What is
infinite is one or the other. -/
theorem isNanOr_iff (low : Double → Bool) {L : ℚ → Prop}
    (hlow : ∀ {d q}, Double.value? d = some q → (low d = true ↔ ¬ L q))
    (hinfinite : low (.infinite true) = true) (hnan : low .nan = false) (most : Nat) (d : Double) :
    IsNanOr (fun q => L q ∧ q ≤ most) d ↔ ¬ d.gtNat most = true ∧ ¬ low d = true := by
  cases d with
  | finite negative mantissa exponent =>
    obtain ⟨q, hq⟩ : ∃ q, (Double.finite negative mantissa exponent).value? = some q := ⟨_, rfl⟩
    rw [hlow hq, Double.gtNat_iff hq, not_lt, not_not, and_comm]
    simp [IsNanOr, hq]
  | infinite negative => cases negative <;> simp [IsNanOr, Double.value?, Double.gtNat, hinfinite]
  | nan => simp [IsNanOr, Double.gtNat, hnan]

theorem doubleUpTo_eq_ok_iff (most : Nat) (v : Value) (d : Double) :
    doubleUpTo most v = .ok d ↔ double v = .ok d ∧ IsNanOr (fun q => 0 ≤ q ∧ q ≤ most) d := by
  rw [isNanOr_iff (·.ltNat 0) (fun h => by rw [Double.ltNat_zero_iff h, not_le]) rfl rfl,
    doubleUpTo]
  apply keep_eq_ok_iff
  intro x
  rw [guard_eq_ok_iff, guard_eq_ok_iff, return_eq_ok_iff, and_assoc]

theorem restores_doubleUpTo (most : Nat) :
    Restores (only (doubleUpTo most)) .double (IsNanOr fun q => 0 ≤ q ∧ q ≤ most) :=
  restores_of_iff (doubleUpTo_eq_ok_iff most) fun _ => rfl

/-- A double is at most zero exactly when its value is. -/
theorem isAtMostZero_iff {d : Double} {q : ℚ} (h : d.value? = some q) :
    isAtMostZero d = true ↔ q ≤ 0 := by
  cases d with
  | finite negative mantissa exponent =>
    obtain rfl := Option.some.inj h
    have hpower : (0 : ℚ) < 2 ^ exponent := by positivity
    cases negative with
    | false => simp [isAtMostZero, mul_nonpos_iff, hpower.not_ge, hpower.le]
    | true =>
      have hmagnitude : (0 : ℚ) ≤ mantissa * 2 ^ exponent := by positivity
      simpa [isAtMostZero] using hmagnitude
  | infinite negative => simp [Double.value?] at h
  | nan => simp [Double.value?] at h

theorem positiveUpTo_eq_ok_iff (most : Nat) (v : Value) (d : Double) :
    positiveUpTo most v = .ok d ↔ double v = .ok d ∧ IsNanOr (fun q => 0 < q ∧ q ≤ most) d := by
  rw [isNanOr_iff isAtMostZero (fun h => by rw [isAtMostZero_iff h, not_lt]) rfl rfl,
    positiveUpTo]
  apply keep_eq_ok_iff
  intro x
  rw [guard_eq_ok_iff, guard_eq_ok_iff, return_eq_ok_iff, and_assoc]

theorem restores_positiveUpTo (most : Nat) :
    Restores (only (positiveUpTo most)) .double (IsNanOr fun q => 0 < q ∧ q ≤ most) :=
  restores_of_iff (positiveUpTo_eq_ok_iff most) fun _ => rfl

/-! ### Addresses -/

theorem isAddress_iff {t : Text} : isAddress t = true ↔ IsAddress t := by
  simp only [isAddress, IsAddress, IsBareScheme, Text.startsWith, Bool.or_eq_true,
    Option.isSome_iff_exists, Text.after?_eq_some_iff]
  constructor
  · rintro (⟨rest, rfl⟩ | ⟨rest, rfl⟩)
    · exact ⟨_, rest, Or.inl rfl, rfl⟩
    · exact ⟨_, rest, Or.inr rfl, rfl⟩
  · rintro ⟨_, rest, rfl | rfl, rfl⟩
    · exact Or.inl ⟨rest, rfl⟩
    · exact Or.inr ⟨rest, rfl⟩

/-- An address is kept without the slashes at its end. -/
theorem address_eq_ok_iff {v : Value} {e : Text} :
    address v = .ok e ↔ ∃ t, v = .text t ∧ IsAddress t ∧ t.rdropWhile (· == '/') = e := by
  simp only [address, bind_eq_ok_iff, text_eq_ok_iff, require_eq_ok_iff, return_eq_ok_iff,
    isAddress_iff]
  rfl

/-- Nothing is taken from a text exactly when it does not end with a slash. -/
theorem rdropWhile_slash_eq_self_iff {t : Text} :
    t.rdropWhile (· == '/') = t ↔ t.getLast? ≠ some '/' := by
  rw [List.rdropWhile_eq_self_iff]
  cases t using List.reverseRecOn with
  | nil => simp
  | append_singleton t c => simp

/-- When a text has been freed of the slashes at its end, there are none. -/
theorem getLast?_rdropWhile_slash (t : Text) : (t.rdropWhile (· == '/')).getLast? ≠ some '/' :=
  rdropWhile_slash_eq_self_iff.1 (List.rdropWhile_idempotent _ _)

/-- What is taken from the end of a text is taken from its last part first. -/
theorem rdropWhile_append (p : Char → Bool) (s t : Text) :
    (s ++ t).rdropWhile p =
      if t.rdropWhile p = [] then s.rdropWhile p else s ++ t.rdropWhile p := by
  unfold List.rdropWhile
  simp only [List.reverse_append, List.dropWhile_append, List.reverse_eq_nil_iff,
    List.isEmpty_iff]
  split_ifs
  · rfl
  · rw [List.reverse_append, List.reverse_reverse]

/-- What is kept of an address or a bare scheme: one or the other, without a slash at its end. -/
def IsEndpoint (t : Text) : Prop :=
  (IsAddress t ∨ IsBareScheme t) ∧ t.getLast? ≠ some '/'

/-- An address without the slashes at its end is an address still, or a bare scheme. -/
theorem isEndpoint_rdropWhile {t : Text} (h : IsAddress t) :
    IsEndpoint (t.rdropWhile (· == '/')) := by
  refine ⟨?_, getLast?_rdropWhile_slash t⟩
  obtain ⟨scheme, rest, hscheme, rfl⟩ := h
  rw [rdropWhile_append]
  split_ifs
  · right
    obtain rfl | rfl := hscheme
    · exact Or.inl rfl
    · exact Or.inr rfl
  · exact Or.inl ⟨scheme, _, hscheme, rfl⟩

/-- What is kept of an address is read back from itself with two slashes behind it. -/
theorem restores_address :
    Restores (only address) (fun e => .text (e ++ "//".toList)) IsEndpoint where
  sound h := by
    obtain ⟨t, -, haddress, rfl⟩ := address_eq_ok_iff.1 (only_eq_valid_iff.1 h)
    exact isEndpoint_rdropWhile haddress
  back {e} he := by
    rw [only_eq_valid_iff, address_eq_ok_iff]
    refine ⟨_, rfl, ?_, ?_⟩
    · obtain ⟨scheme, rest, hscheme, rfl⟩ | hscheme := he.1
      · exact ⟨scheme, rest ++ "//".toList, hscheme, List.append_assoc ..⟩
      · exact ⟨e, [], hscheme, (List.append_nil _).symm⟩
    · rw [rdropWhile_append, if_pos (by decide), rdropWhile_slash_eq_self_iff]
      exact he.2

/-- A bare scheme is no address. -/
theorem not_isAddress_of_isBareScheme {t : Text} (h : IsBareScheme t) : ¬ IsAddress t := by
  rw [← isAddress_iff]
  obtain rfl | rfl := h <;> decide

/-- What is kept of an address is read back from itself exactly when it is no bare scheme. -/
theorem address_self_iff {e : Text} (he : IsEndpoint e) :
    address (.text e) = .ok e ↔ ¬ IsBareScheme e := by
  rw [address_eq_ok_iff]
  constructor
  · rintro ⟨t, heq, haddress, -⟩ hbare
    obtain rfl := Value.text.inj heq
    exact not_isAddress_of_isBareScheme hbare haddress
  · intro hbare
    exact ⟨e, rfl, he.1.resolve_right hbare, rdropWhile_slash_eq_self_iff.2 he.2⟩

end Readers

end Phrasebook
