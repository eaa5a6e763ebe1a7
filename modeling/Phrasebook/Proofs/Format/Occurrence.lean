import Mathlib.Data.List.Forall2
import Phrasebook.Proofs.Format.Grammar

/-!
# Where specifiers stand

The specifiers of a text are the words of the grammar that a scan from left to right comes upon. A scan is
told by what it finds: words that stand apart from each other, such that no other word starts outside of
them. From every place on there is one scan, and the specifiers that are reported are what it finds. Those
that take the next argument are numbered one after another, whatever stands in between.
-/

namespace Phrasebook.Format

/-! ### Scans -/

/-- Whether a specifier starts at a place of a text. -/
def StartsAt (t : Text) (start : Nat) (raw : Text) : Prop :=
  IsSpecifier raw ∧ raw <+: t.drop start

/-- A place of a text together with what stands there. -/
structure Occurrence where
  /-- The number of characters in front of the occurrence. -/
  start : Nat
  /-- The text of the occurrence. -/
  text : Text

/-- The place behind an occurrence. -/
def Occurrence.stop (o : Occurrence) : Nat :=
  o.start + o.text.length

/-- What a scan of a text from left to right finds from a place on. -/
structure IsScan (t : Text) (place : Nat) (found : List Occurrence) : Prop where
  /-- The scan does not look back. -/
  ahead : ∀ o ∈ found, place ≤ o.start
  /-- What is found are specifiers that start where they are found. -/
  starts : ∀ o ∈ found, StartsAt t o.start o.text
  /-- One stands behind the other. -/
  apart : found.Pairwise fun o o' => o.stop ≤ o'.start
  /-- No specifier starts outside of those that are found. -/
  complete : ∀ start, place ≤ start → (∀ o ∈ found, start < o.start ∨ o.stop ≤ start) →
    ∀ raw, ¬StartsAt t start raw

variable {t : Text} {place start : Nat} {raw raw' : Text} {found found' : List Occurrence}

/-- A specifier that starts at a place is the one that is read behind the percent sign there. -/
theorem StartsAt.exists_word? (h : StartsAt t start raw) :
    ∃ rest w, t.drop start = '%' :: rest ∧ word? rest = some w ∧ w.text = raw := by
  obtain ⟨hraw, hfront⟩ := h
  obtain ⟨w, -, hw⟩ := id hraw
  obtain ⟨rest, hrest⟩ := id hfront
  have hsign : t.drop start = '%' :: (w.body ++ rest) := by
    rw [← hrest, ← hw, Word.text, List.cons_append]
  rw [hsign] at hfront
  obtain ⟨w', hw', htext⟩ := hraw.exists_word? hfront
  exact ⟨_, w', hsign, hw', htext⟩

/-- At most one specifier starts at each place. -/
theorem StartsAt.unique (h : StartsAt t start raw) (h' : StartsAt t start raw') : raw = raw' := by
  obtain ⟨rest, w, hdrop, hw, rfl⟩ := h.exists_word?
  obtain ⟨rest', w', hdrop', hw', rfl⟩ := h'.exists_word?
  rw [hdrop] at hdrop'
  obtain rfl := (List.cons.inj hdrop').2
  rw [hw] at hw'
  rw [Option.some.inj hw']

/-- A word that is read behind a percent sign starts there. -/
theorem startsAt_of_word? {rest : Text} {w : Word} (hdrop : t.drop place = '%' :: rest)
    (hw : word? rest = some w) : StartsAt t place w.text := by
  obtain ⟨hreads, hfront⟩ := reads_of_word? hw
  refine ⟨⟨w, hreads.grammatical, rfl⟩, ?_⟩
  rw [hdrop]
  exact (List.prefix_cons_inj '%').2 hfront

namespace IsScan

/-- Behind the end of a text there is nothing to find. -/
theorem nil (h : t.drop place = []) : IsScan t place [] where
  ahead := nofun
  starts := nofun
  apart := List.Pairwise.nil
  complete := by
    intro start hstart _ raw hraw
    obtain ⟨rest, w, hdrop, -, -⟩ := hraw.exists_word?
    rw [List.drop_eq_nil_iff] at h
    rw [List.drop_of_length_le (h.trans hstart)] at hdrop
    exact nomatch hdrop

/-- A place where no specifier starts is left behind. -/
theorem skip (h : ∀ raw, ¬StartsAt t place raw) (hscan : IsScan t (place + 1) found) :
    IsScan t place found where
  ahead o ho := (Nat.le_succ place).trans (hscan.ahead o ho)
  starts := hscan.starts
  apart := hscan.apart
  complete := by
    intro start hstart houtside
    rcases hstart.eq_or_lt with rfl | hlater
    · exact h
    · exact hscan.complete start hlater houtside

/-- A specifier is found where it starts, and the scan goes on behind it. -/
theorem cons (h : StartsAt t place raw) (hscan : IsScan t (place + raw.length) found) :
    IsScan t place (⟨place, raw⟩ :: found) where
  ahead := by
    rintro o (_ | ⟨_, ho⟩)
    · exact le_rfl
    · exact (Nat.le_add_right _ _).trans (hscan.ahead o ho)
  starts := by
    rintro o (_ | ⟨_, ho⟩)
    · exact h
    · exact hscan.starts o ho
  apart := List.pairwise_cons.2 ⟨hscan.ahead, hscan.apart⟩
  complete := by
    intro start hstart houtside
    have hbehind : place + raw.length ≤ start :=
      (houtside _ List.mem_cons_self).resolve_left hstart.not_gt
    exact hscan.complete start hbehind fun o ho => houtside o (List.mem_cons_of_mem _ ho)

/-- The rest of a scan is the scan behind what was found first. -/
theorem tail {o : Occurrence} (h : IsScan t place (o :: found)) : IsScan t o.stop found where
  ahead := (List.pairwise_cons.1 h.apart).1
  starts o' ho' := h.starts o' (List.mem_cons_of_mem _ ho')
  apart := (List.pairwise_cons.1 h.apart).2
  complete := by
    intro start hstart houtside
    have hplace : place ≤ start :=
      (h.ahead o List.mem_cons_self).trans ((Nat.le_add_right _ _).trans hstart)
    exact h.complete start hplace (List.forall_mem_cons.2 ⟨Or.inr hstart, houtside⟩)

/-- What one scan finds first, another one does not come upon any later. -/
theorem start_le {o o' : Occurrence} (h : IsScan t place (o :: found))
    (h' : IsScan t place (o' :: found')) : o'.start ≤ o.start := by
  by_contra hearlier
  rw [not_le] at hearlier
  refine h'.complete o.start (h.ahead o List.mem_cons_self) ?_ _ (h.starts o List.mem_cons_self)
  rintro p (_ | ⟨_, hp⟩)
  · exact Or.inl hearlier
  · have hstop := (List.pairwise_cons.1 h'.apart).1 p hp
    exact Or.inl (hearlier.trans_le ((Nat.le_add_right _ _).trans hstop))

/-- From each place on there is one scan at most. -/
theorem unique (h : IsScan t place found) (h' : IsScan t place found') : found = found' := by
  induction found generalizing place found' with
  | nil =>
    cases found' with
    | nil => rfl
    | cons o' found' =>
      exact absurd (h'.starts o' List.mem_cons_self)
        (h.complete _ (h'.ahead o' List.mem_cons_self) nofun _)
  | cons o found ih =>
    cases found' with
    | nil =>
      exact absurd (h.starts o List.mem_cons_self)
        (h'.complete _ (h.ahead o List.mem_cons_self) nofun _)
    | cons o' found' =>
      -- neither scan comes upon its first specifier later than the other one
      have hstart : o.start = o'.start := le_antisymm (h'.start_le h) (h.start_le h')
      have htext : o.text = o'.text :=
        (h.starts o List.mem_cons_self).unique (hstart ▸ h'.starts o' List.mem_cons_self)
      obtain rfl : o = o' := by
        cases o
        cases o'
        simp_all
      rw [ih h.tail h'.tail]

end IsScan

/-- From each place on there is a scan, and the words are what it finds. -/
theorem exists_isScan {suffix : Text} (skip : Nat) (h : t.drop place = suffix) :
    ∃ found, IsScan t (place + skip) found ∧
      (wordsFrom skip suffix).map Word.text = found.map (·.text) := by
  have hnext : ∀ {place : Nat} {c : Char} {suffix : Text}, t.drop place = c :: suffix →
      t.drop (place + 1) = suffix := by
    intro place c suffix hdrop
    rw [← List.drop_drop, hdrop]
    rfl
  -- the places that are skipped belong to the word before, so the scan starts behind them
  fun_induction wordsFrom skip suffix generalizing place with
  | case1 skip =>
    refine ⟨[], IsScan.nil ?_, rfl⟩
    rw [← List.drop_drop, h, List.drop_nil]
  | case2 skip c suffix ih =>
    have hplace : place + skip.succ = place + 1 + skip := by omega
    rw [hplace]
    exact ih (hnext h)
  | case3 suffix w hw ih =>
    obtain ⟨found, hscan, htexts⟩ := ih (hnext h)
    have hlength : place + 1 + w.body.length = place + w.text.length := by
      rw [Word.text, List.length_cons]
      omega
    rw [hlength] at hscan
    exact ⟨⟨place, w.text⟩ :: found, hscan.cons (startsAt_of_word? h hw), by simp [htexts]⟩
  | case4 suffix hw ih =>
    obtain ⟨found, hscan, htexts⟩ := ih (hnext h)
    refine ⟨found, hscan.skip fun raw hraw => ?_, htexts⟩
    obtain ⟨rest, w, hdrop, hread, -⟩ := hraw.exists_word?
    obtain rfl := (List.cons.inj (h.symm.trans hdrop)).2
    cases hw.symm.trans hread
  | case5 c suffix hc ih =>
    obtain ⟨found, hscan, htexts⟩ := ih (hnext h)
    refine ⟨found, hscan.skip fun raw hraw => ?_, htexts⟩
    obtain ⟨rest, w, hdrop, -, -⟩ := hraw.exists_word?
    exact hc (List.cons.inj (h.symm.trans hdrop)).1

/-- Every word of a text is read behind some percent sign. -/
theorem exists_word?_of_mem_wordsFrom {skip : Nat} {w : Word} (h : w ∈ wordsFrom skip t) :
    ∃ rest, word? rest = some w := by
  fun_induction wordsFrom skip t with
  | case1 => exact absurd h List.not_mem_nil
  | case2 skip c t ih => exact ih h
  | case3 t w' hw ih =>
    rcases List.mem_cons.1 h with rfl | h
    · exact ⟨t, hw⟩
    · exact ih h
  | case4 t hw ih => exact ih h
  | case5 c t hc ih => exact ih h

/-! ### Numbers -/

/-- The runs of digits of a word that are read as numbers, in order. The index of a doubled percent
sign is not read. -/
def Word.numerals (w : Word) : List Text :=
  (if w.kind = .percent then [] else w.index.toList) ++
    ((if w.width.isEmpty then [] else [w.width]) ++ w.precision.toList)

/-- A word as a specifier, with numbers of any length. -/
def Word.numbered (w : Word) (next : Nat) : Specifier where
  position := if w.kind = .percent then 0 else (w.index.map Text.digitsValue).getD next
  kind := w.kind
  raw := w.text
  width := if w.width.isEmpty then none else some (Text.digitsValue w.width)
  precision := w.precision.map Text.digitsValue
  indexed := w.index.isSome

/-- Words as specifiers, numbered from `next` on. -/
def numbered : Nat → List Word → List Specifier
  | _, [] => []
  | next, w :: ws => w.numbered next :: numbered (if w.isSequential then next + 1 else next) ws

/-- What is read from runs of digits: the first one that is too long is told. -/
def readOr {α : Type} (numerals : List Text) (a : α) : Except Text.DigitFault α :=
  match numerals.find? Text.isOverlong with
  | some digits => .error ⟨digits.length⟩
  | none => .ok a

@[simp] theorem readOr_nil {α : Type} (a : α) : readOr [] a = .ok a := rfl

/-- One run of digits is read. -/
theorem number_eq_readOr (digits : Text) :
    Text.number digits = readOr [digits] (Text.digitsValue digits) := by
  cases h : Text.isOverlong digits <;> simp [Text.number, readOr, List.find?, h]

/-- A result of reading may be changed. -/
theorem map_readOr {α β : Type} (f : α → β) (numerals : List Text) (a : α) :
    f <$> readOr numerals a = readOr numerals (f a) := by
  unfold readOr
  cases numerals.find? Text.isOverlong <;> rfl

/-- What is read first is told first. -/
theorem readOr_bind {α β : Type} (first second : List Text) (a : α) (f : α → β)
    {rest : α → Except Text.DigitFault β} (hrest : rest a = readOr second (f a)) :
    readOr first a >>= rest = readOr (first ++ second) (f a) := by
  unfold readOr at hrest ⊢
  rw [List.find?_append]
  cases first.find? Text.isOverlong with
  | some digits => rfl
  | none => exact hrest

/-- A word is read as a specifier unless one of its numbers is too long. -/
theorem Word.specifier_eq (w : Word) (next : Nat) :
    w.specifier next = readOr w.numerals (w.numbered next) := by
  have hposition : w.position next = readOr (if w.kind = .percent then [] else w.index.toList)
      (w.numbered next).position := by
    cases hindex : w.index <;> by_cases hkind : w.kind = .percent <;>
      simp [Word.position, Word.numbered, hindex, hkind, number_eq_readOr]
  have hwidth : w.leastWidth =
      readOr (if w.width.isEmpty then [] else [w.width]) (w.numbered next).width := by
    unfold Word.leastWidth Word.numbered
    split
    · rfl
    · rw [number_eq_readOr, map_readOr]
  have hprecision : w.precision.mapM Text.number =
      readOr w.precision.toList (w.numbered next).precision := by
    cases hdigits : w.precision with
    | none =>
      rw [Word.numbered, hdigits]
      rfl
    | some digits => simp [Word.numbered, hdigits, number_eq_readOr, map_readOr]
  rw [Word.specifier, hposition]
  refine readOr_bind _ _ _ (fun _ => w.numbered next) ?_
  rw [hwidth]
  refine readOr_bind _ _ _ (fun _ => w.numbered next) ?_
  rw [hprecision, bind_pure_comp]
  exact map_readOr _ _ _

/-- Words are read as specifiers unless one of their numbers is too long. -/
theorem number_eq (next : Nat) (ws : List Word) :
    number next ws = readOr (ws.flatMap Word.numerals) (numbered next ws) := by
  induction ws generalizing next with
  | nil => rfl
  | cons w ws ih =>
    rw [number, w.specifier_eq]
    refine readOr_bind _ _ _ (fun s => s :: numbered (if w.isSequential then next + 1 else next) ws) ?_
    rw [ih, bind_pure_comp]
    exact map_readOr _ _ _

/-- Whether a specifier takes the next argument in order of appearance. -/
def Specifier.isSequential (s : Specifier) : Bool :=
  s.takesArgument && !s.indexed

/-- A specifier that is reported as it is read. -/
structure Specifier.Shows (s : Specifier) (w : Word) : Prop where
  /-- The specifier is reported as it is written. -/
  raw : s.raw = w.text
  /-- The kind is the one that the conversion asks for. -/
  kind : kindOf? w.conversion = some s.kind
  /-- The specifier has an index when one is written. -/
  indexed : s.indexed = w.index.isSome
  /-- A doubled percent sign has no argument. -/
  percent : w.conversion = '%' → s.position = 0
  /-- The position is the index, if there is one. -/
  position : w.conversion ≠ '%' → ∀ digits ∈ w.index, s.position = Text.digitsValue digits
  /-- The width is the number that is written, if there is one. -/
  width : s.width = if w.width = [] then none else some (Text.digitsValue w.width)
  /-- The precision is the number that is written, if there is one. -/
  precision : s.precision = w.precision.map Text.digitsValue

/-- A word is reported as it is read. -/
theorem Word.Reads.shows {w : Word} (h : w.Reads raw) (next : Nat) : (w.numbered next).Shows w where
  raw := rfl
  kind := h.grammatical.kind
  indexed := rfl
  percent := by
    intro hc
    have hkind := h.grammatical.kind
    rw [kindOf?_eq_percent_iff.2 hc] at hkind
    exact if_pos (Option.some.inj hkind).symm
  position := by
    intro hc digits hdigits
    have hkind : w.kind ≠ .percent := fun heq =>
      hc (kindOf?_eq_percent_iff.1 (h.grammatical.kind.trans (congrArg some heq)))
    rw [Option.mem_def] at hdigits
    simp [Word.numbered, hkind, hdigits]
  width := by simp [Word.numbered, List.isEmpty_iff]
  precision := rfl

/-- Words that are read are reported one by one. -/
theorem forall₂_numbered (next : Nat) {ws : List Word} (h : ∀ w ∈ ws, w.Reads w.text) :
    List.Forall₂ Specifier.Shows (numbered next ws) ws := by
  induction ws generalizing next with
  | nil => exact .nil
  | cons w ws ih =>
    exact .cons ((h w List.mem_cons_self).shows next) (ih _ fun w' hw' => h w' (.tail w hw'))

/-- The words that take the next argument are numbered one after another. -/
theorem positions_numbered (next : Nat) (ws : List Word) :
    ((numbered next ws).filter Specifier.isSequential).map (·.position) =
      List.range' next ((numbered next ws).countP Specifier.isSequential) := by
  induction ws generalizing next with
  | nil => rfl
  | cons w ws ih =>
    have hsame : (w.numbered next).isSequential = w.isSequential := by
      cases hindex : w.index <;>
        simp [Specifier.isSequential, Specifier.takesArgument, Word.isSequential, Word.numbered, hindex]
    rw [numbered]
    by_cases hw : w.isSequential = true
    · have hparts : w.kind ≠ .percent ∧ w.index = none := by
        simpa [Word.isSequential] using hw
      have hposition : (w.numbered next).position = next := by
        simp [Word.numbered, hparts.1, hparts.2]
      rw [List.filter_cons_of_pos (hsame.trans hw), List.countP_cons_of_pos (hsame.trans hw),
        List.map_cons, hposition, if_pos hw, ih, List.range'_succ]
    · rw [List.filter_cons_of_neg (hsame ▸ hw), List.countP_cons_of_neg (hsame ▸ hw), if_neg hw, ih]

/-- There are as many arguments as specifiers that do not end with a percent sign. -/
theorem argumentCount_eq {ss : List Specifier} {ws : List Word} (h : List.Forall₂ Specifier.Shows ss ws)
    (hreads : ∀ w ∈ ws, w.Reads w.text) :
    argumentCount ss = ss.countP fun s => s.raw.getLast? ≠ some '%' := by
  induction h with
  | nil => rfl
  | @cons s w ss ws hshows _ ih =>
    have hpercent : s.kind = .percent ↔ w.conversion = '%' := by
      rw [← kindOf?_eq_percent_iff, hshows.kind, Option.some.injEq]
    have hlast := (hreads w List.mem_cons_self).getLast?
    have hsame : s.takesArgument = decide (s.raw.getLast? ≠ some '%') := by
      rw [hshows.raw, hlast, Bool.eq_iff_iff]
      simp [Specifier.takesArgument, hpercent]
    have hrest := ih fun w' hw' => hreads w' (.tail w hw')
    rw [argumentCount] at hrest ⊢
    rw [List.countP_cons, List.countP_cons, hrest, hsame]

/-- The specifiers of a text are found and numbered exactly. At most one of them starts at each place.
One scan from left to right comes upon them, each with one reading in which zeros in front of the width
are flags. If a number of theirs has more than 4300 digits, the first such number is refused. Otherwise
what is reported are the words that are found: doubled percent signs have position 0, and indices are
positions; what takes the next argument is numbered from 1 on. There are as many arguments as specifiers
that do not end with a percent sign. -/
theorem specifiers_exact (t : Text) :
    (∀ start raw raw', StartsAt t start raw → StartsAt t start raw' → raw = raw') ∧
    ∃ (found : List Occurrence) (ws : List Word), IsScan t 0 found ∧
      (∀ found', IsScan t 0 found' → found' = found) ∧
      ws.map Word.text = found.map (·.text) ∧
      (∀ w ∈ ws, w.Reads w.text ∧ ∀ w' : Word, w'.Reads w.text → w' = w) ∧
      match (ws.flatMap Word.numerals).find? fun digits => 4300 < digits.length with
      | some digits => specifiers t = .error ⟨digits.length⟩
      | none => ∃ ss, specifiers t = .ok ss ∧ List.Forall₂ Specifier.Shows ss ws ∧
          (ss.filter Specifier.isSequential).map (·.position) =
            List.range' 1 (ss.countP Specifier.isSequential) ∧
          argumentCount ss = ss.countP fun s => s.raw.getLast? ≠ some '%' := by
  refine ⟨fun _ _ _ h h' => h.unique h', ?_⟩
  obtain ⟨found, hscan, htexts⟩ := exists_isScan 0 (rfl : t.drop 0 = t)
  have hreads : ∀ w ∈ words t, w.Reads w.text := by
    intro w hw
    obtain ⟨rest, hread⟩ := exists_word?_of_mem_wordsFrom hw
    exact (reads_of_word? hread).1
  refine ⟨found, words t, hscan, fun _ h => h.unique hscan, htexts, fun w hw =>
    ⟨hreads w hw, fun _ h => h.unique (hreads w hw)⟩, ?_⟩
  have hshows := forall₂_numbered 1 hreads
  have hresult : specifiers t = readOr _ _ := number_eq 1 (words t)
  rw [readOr] at hresult
  change match ((words t).flatMap Word.numerals).find? Text.isOverlong with
    | some _ => _
    | none => _
  cases hlong : ((words t).flatMap Word.numerals).find? Text.isOverlong with
  | some digits => rw [hresult, hlong]
  | none =>
    rw [hlong] at hresult
    exact ⟨_, hresult, hshows, positions_numbered 1 (words t), argumentCount_eq hshows hreads⟩

/-- The percent sign that ends the first specifier starts no other one, and numbers go on behind an index. -/
example : (specifiers "%5%d %2$s %-05.1f %%d %d 5%".toList).map (·.map (·.position)) =
    .ok [0, 2, 1, 0, 2] := by
  decide

end Phrasebook.Format
