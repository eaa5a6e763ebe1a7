import Phrasebook.Proofs.Glue.Bench

/-!
# What the lines of a file say

The scan of a file goes through its references once and changes one record with each. What comes out
can be read off the lines: which references a key has, which of them is the first, and on which lines
they stand. A reference changes the record of its own key only, so each record is made by the
references of its key, one after another.
-/

namespace Phrasebook

namespace Glue

/-! ### Places by line -/

/-- A line of a file as a place; line 0 is the file as a whole. -/
def placeAt (path : Text) (line : Nat) : Place :=
  ⟨path, line⟩

/-- Lines of one file are the same place when they have the same number. -/
theorem placeAt_injective (path : Text) : Function.Injective (placeAt path) := by
  intro m n h
  exact Int.ofNat_inj.1 (congrArg Place.line h)

/-- A capped list keeps the first of the different lines that are added to it. -/
theorem foldl_addPlace_placeAt (path : Text) (cap : Nat) (numbers : List Nat) :
    (numbers.map (placeAt path)).foldl (addPlace cap) [] =
      (numbers.eraseDups.take cap).map (placeAt path) := by
  induction numbers using List.reverseRecOn with
  | nil => simp
  | append_singleton numbers n ih =>
    rw [List.map_append, List.foldl_append, ih, List.map_singleton, List.foldl_cons,
      List.foldl_nil, List.eraseDups_append]
    by_cases hknown : n ∈ numbers
    · have hnone : [n].removeAll numbers = [] := by simp [List.removeAll, hknown]
      rw [hnone, List.eraseDups_nil, List.append_nil]
      by_cases hkept : placeAt path n ∈ (numbers.eraseDups.take cap).map (placeAt path)
      · exact addPlace_of_known hkept
      · refine addPlace_of_full ?_
        by_contra hroom
        have hall : numbers.eraseDups.take cap = numbers.eraseDups := by
          refine List.take_of_length_le ?_
          simp only [List.length_map, List.length_take] at hroom
          omega
        rw [hall] at hkept
        exact hkept (List.mem_map_of_mem (List.mem_eraseDups.2 hknown))
    · have hnew : [n].removeAll numbers = [n] := by simp [List.removeAll, hknown]
      have hother : placeAt path n ∉ (numbers.eraseDups.take cap).map (placeAt path) := by
        intro hmem
        obtain ⟨m, hm, hsame⟩ := List.mem_map.1 hmem
        obtain rfl := placeAt_injective path hsame
        exact hknown (List.mem_eraseDups.1 (List.mem_of_mem_take hm))
      have hsingle : [n].eraseDups = [n] := rfl
      rw [hnew, hsingle]
      by_cases hroom : numbers.eraseDups.length < cap
      · have hlonger : (numbers.eraseDups ++ [n]).length ≤ cap := by
          rw [List.length_append, List.length_singleton]
          omega
        rw [List.take_of_length_le (by omega), List.take_of_length_le hlonger]
        rw [List.take_of_length_le (by omega)] at hother
        rw [addPlace_of_new (by simpa using hroom) hother, List.map_append, List.map_singleton]
      · rw [List.take_append_of_le_length (by omega)]
        refine addPlace_of_full ?_
        simp only [List.length_map, List.length_take]
        omega

/-- Of a number that comes several times in front of others, one is kept. -/
theorem eraseDups_append_of_const {numbers rest : List Nat} {n : Nat}
    (hsame : ∀ m ∈ numbers, m = n) (hrest : n ∉ rest) :
    (numbers ++ rest).eraseDups = (if numbers = [] then [] else [n]) ++ rest.eraseDups := by
  cases numbers with
  | nil => simp
  | cons m numbers =>
    obtain ⟨rfl, htail⟩ := List.forall_mem_cons.1 hsame
    rw [List.cons_append, List.eraseDups_cons, List.filter_append]
    have hnone : numbers.filter (fun b => !b == m) = [] := by
      refine List.filter_eq_nil_iff.2 fun k hk => ?_
      simp [htail k hk]
    have hall : rest.filter (fun b => !b == m) = rest := by
      refine List.filter_eq_self.2 fun k hk => ?_
      have hne : k ≠ m := fun h => hrest (h ▸ hk)
      simpa using hne
    rw [hnone, hall]
    rfl

namespace Summary

/-- The numbers of the lines, counted from 1, with a reference that meets a condition. -/
def linesWith (patterns : Patterns) (lines : List Text) (meets : Reference → Bool) : List Nat :=
  lines.findIdxs (fun line => (references patterns line).any meets) 1

/-- The line of each reference that meets a condition. -/
def numbersOf (meets : Reference → Bool) (found : List (Nat × Reference)) : List Nat :=
  (found.filter fun f => meets f.2).map (·.1)

/-- The references of lines that are counted from a number. -/
def findFrom (patterns : Patterns) : Nat → List Text → List (Nat × Reference)
  | _, [] => []
  | number, line :: lines =>
    (references patterns line).map (number, ·) ++ findFrom patterns (number + 1) lines

/-- The lines of a file are counted from 1. -/
theorem findAll_eq (patterns : Patterns) (lines : List Text) :
    findAll patterns lines = findFrom patterns 1 lines := by
  unfold findAll
  generalize 1 = number
  induction lines generalizing number with
  | nil => rfl
  | cons line lines ih =>
    rw [List.zipIdx_cons, List.flatMap_cons, ih]
    rfl

/-- No reference stands on a line before the one that is counted from. -/
theorem le_of_mem_findFrom {patterns : Patterns} {number : Nat} {lines : List Text}
    {f : Nat × Reference} (h : f ∈ findFrom patterns number lines) : number ≤ f.1 := by
  induction lines generalizing number with
  | nil => exact absurd h List.not_mem_nil
  | cons line lines ih =>
    rcases List.mem_append.1 h with hfirst | hlater
    · obtain ⟨r, -, rfl⟩ := List.mem_map.1 hfirst
      exact Nat.le_refl number
    · exact Nat.le_of_succ_le (ih hlater)

/-- The lines of the references that meet a condition, each of them once. -/
theorem eraseDups_numbersOf (patterns : Patterns) (lines : List Text) (meets : Reference → Bool) :
    (numbersOf meets (findAll patterns lines)).eraseDups = linesWith patterns lines meets := by
  rw [findAll_eq]
  suffices ∀ n, (numbersOf meets (findFrom patterns n lines)).eraseDups =
      lines.findIdxs (fun line => (references patterns line).any meets) n from this 1
  induction lines with
  | nil => exact fun n => rfl
  | cons line lines ih =>
    intro n
    have hfirst : ∀ m ∈ numbersOf meets ((references patterns line).map (n, ·)), m = n := by
      intro m hm
      obtain ⟨f, hf, rfl⟩ := List.mem_map.1 hm
      obtain ⟨r, -, rfl⟩ := List.mem_map.1 (List.mem_filter.1 hf).1
      rfl
    have hlater : n ∉ numbersOf meets (findFrom patterns (n + 1) lines) := by
      intro hn
      obtain ⟨f, hf, rfl⟩ := List.mem_map.1 hn
      exact absurd (le_of_mem_findFrom (List.mem_filter.1 hf).1) (Nat.not_succ_le_self _)
    have hnone : numbersOf meets ((references patterns line).map (n, ·)) = [] ↔
        (references patterns line).any meets = false := by
      simp [numbersOf]
    have hsplit : numbersOf meets (findFrom patterns n (line :: lines)) =
        numbersOf meets ((references patterns line).map (n, ·)) ++
          numbersOf meets (findFrom patterns (n + 1) lines) := by
      rw [findFrom, numbersOf, List.filter_append, List.map_append]
      rfl
    rw [hsplit, eraseDups_append_of_const hfirst hlater, ih, List.findIdxs_cons,
      if_congr hnone rfl rfl]
    cases (references patterns line).any meets <;> rfl

/-! ### References in order -/

/-- Whether a reference looks up a key, in whatever case. -/
def looksUp (key : Text) (r : Reference) : Bool :=
  Text.fold r.key = Text.fold key

/-- References look up keys up to case. -/
theorem looksUp_congr {key key' : Text} (h : Text.fold key = Text.fold key') :
    looksUp key = looksUp key' := by
  funext r
  rw [looksUp, looksUp, h]

/-- The references whose key no reference in front of them looks up. -/
def firsts : List Reference → List Reference
  | [] => []
  | first :: rest => first :: (firsts rest).filter fun r => !looksUp first.key r

/-- A first reference is the one that is found for its key. -/
theorem find?_of_mem_firsts {found : List Reference} {first : Reference}
    (h : first ∈ firsts found) : found.find? (looksUp first.key) = some first := by
  induction found with
  | nil => exact absurd h List.not_mem_nil
  | cons r rest ih =>
    rcases List.mem_cons.1 h with rfl | hlater
    · rw [List.find?_cons_of_pos (by simp [looksUp])]
    · obtain ⟨hfirst, hother⟩ := List.mem_filter.1 hlater
      have hne : Text.fold first.key ≠ Text.fold r.key := by simpa [looksUp] using hother
      rw [List.find?_cons_of_neg (by simpa [looksUp] using Ne.symm hne), ih hfirst]

/-- What the lines of a file say of a key whose first reference is given. Its places are the file as a
whole, unless that reference joins strings or is a template argument, followed by the lines with a
reference that joins strings. Lines with a template argument have a list of their own, and both lists
end at the cap. -/
def digest (patterns : Patterns) (cap : Nat) (path : Text) (lines : List Text)
    (first : Reference) : Info :=
  let found := lines.flatMap (references patterns)
  let linesOf (meets : Reference → Bool) : List Nat :=
    linesWith patterns lines fun r => looksUp first.key r && meets r
  let whole := if first.isJoined || first.isTemplate then [] else [0]
  { key := first.key
    isJoined := found.any fun r => looksUp first.key r && r.isJoined
    isTemplate := found.any fun r => looksUp first.key r && r.isTemplate
    count := found.countP (looksUp first.key)
    places := ((whole ++ linesOf (·.isJoined)).take cap).map (placeAt path)
    templatePlaces := ((linesOf (·.isTemplate)).take cap).map (placeAt path)
    specifiers := []
    cap := cap }

/-! ### One record -/

/-- References that come later add to the flags, the count and the places of a record. -/
theorem foldl_addReference (path : Text) (info : Info) (later : List (Nat × Reference)) :
    later.foldl (fun info f => addReference path f.1 false f.2 info) info =
      { info with
        isJoined := info.isJoined || later.any (·.2.isJoined)
        isTemplate := info.isTemplate || later.any (·.2.isTemplate)
        count := info.count + later.length
        places := ((numbersOf (·.isJoined) later).map (placeAt path)).foldl
          (Glue.addPlace info.cap) info.places
        templatePlaces := ((numbersOf (·.isTemplate) later).map (placeAt path)).foldl
          (Glue.addPlace info.cap) info.templatePlaces } := by
  induction later generalizing info with
  | nil => simp [numbersOf]
  | cons f later ih =>
    rw [List.foldl_cons, ih]
    cases hjoined : f.2.isJoined <;> cases htemplate : f.2.isTemplate <;>
      simp [addReference, numbersOf, hjoined, htemplate, Info.addPlace, Info.addTemplatePlace,
        placeAt, Nat.add_assoc, Nat.add_comm 1]

/-- The record that the references of a key make, the first one and those that come later. -/
theorem foldl_addReference_new (path : Text) (cap : Int) (f : Nat × Reference)
    (later : List (Nat × Reference)) :
    later.foldl (fun info f => addReference path f.1 false f.2 info)
        (addReference path f.1 true f.2 (.new f.2.key cap)) =
      { key := f.2.key
        isJoined := (f :: later).any (·.2.isJoined)
        isTemplate := (f :: later).any (·.2.isTemplate)
        count := (f :: later).length
        places := (((if f.2.isJoined || f.2.isTemplate then [] else [0]) ++
          numbersOf (·.isJoined) (f :: later)).map (placeAt path)).foldl (Glue.addPlace cap) []
        templatePlaces :=
          ((numbersOf (·.isTemplate) (f :: later)).map (placeAt path)).foldl (Glue.addPlace cap) []
        specifiers := []
        cap := cap } := by
  rw [foldl_addReference]
  cases hjoined : f.2.isJoined <;> cases htemplate : f.2.isTemplate <;>
    simp [addReference, numbersOf, hjoined, htemplate, Info.new, Info.addPlace,
      Info.addTemplatePlace, placeAt, Nat.add_comm 1, Function.comp_def]

/-- The record of a key after a reference: it takes part in the one of its own key only. -/
theorem get?_addFound (path : Text) (s : Summary) (f : Nat × Reference) (key : Text) :
    (s.addFound path f).get? key =
      if looksUp key f.2 then
        some (addReference path f.1 (s.get? key).isNone f.2 ((s.get? key).getD (.new f.2.key s.cap)))
      else s.get? key := by
  have hinsert := Lexicon.get?_insert s.infos f.2.key key
    (addReference path f.1 (!s.contains f.2.key) f.2 (s.getOrNew f.2.key))
  refine hinsert.trans ?_
  by_cases hkey : Text.fold f.2.key = Text.fold key
  · have hsame : s.get? f.2.key = s.get? key := Lexicon.get?_congr s.infos hkey
    have hcontains : s.contains f.2.key = (s.get? key).isSome :=
      (Lexicon.contains_eq_isSome _ _).trans (congrArg Option.isSome hsame)
    simp [looksUp, hkey, getOrNew, hsame, hcontains]
  · simp [looksUp, hkey, get?]

/-- The record of a key after references is made by those that look it up. -/
theorem get?_foldl_addFound (path : Text) (s : Summary) (found : List (Nat × Reference))
    (key : Text) :
    (found.foldl (addFound path) s).get? key =
      (found.filter fun f => looksUp key f.2).foldl (fun known f =>
        some (addReference path f.1 known.isNone f.2 (known.getD (.new f.2.key s.cap))))
        (s.get? key) := by
  induction found generalizing s with
  | nil => rfl
  | cons f found ih =>
    have hcap : (s.addFound path f).cap = s.cap := rfl
    rw [List.foldl_cons, ih, get?_addFound, hcap, List.filter_cons]
    split <;> rfl

/-- A record that is there is changed by each reference. -/
theorem foldl_some (path : Text) (cap : Int) (info : Info) (later : List (Nat × Reference)) :
    later.foldl (fun known f =>
        some (addReference path f.1 known.isNone f.2 (known.getD (.new f.2.key cap))))
        (some info) =
      some (later.foldl (fun info f => addReference path f.1 false f.2 info) info) := by
  induction later generalizing info with
  | nil => rfl
  | cons f later ih => exact ih _

/-! ### The whole file -/

variable {patterns : Patterns} {lines : List Text}

/-- The references of a file, without the numbers of their lines. -/
theorem map_snd_findAll (patterns : Patterns) (lines : List Text) :
    (findAll patterns lines).map (·.2) = lines.flatMap (references patterns) := by
  rw [findAll_eq]
  suffices ∀ n, (findFrom patterns n lines).map (·.2) = lines.flatMap (references patterns) from
    this 1
  induction lines with
  | nil => exact fun n => rfl
  | cons line lines ih =>
    intro n
    rw [findFrom, List.map_append, ih, List.map_map, List.flatMap_cons]
    exact congrArg (· ++ _) (List.map_id _)

/-- Lines are counted from 1. -/
theorem pos_of_mem_findAll {f : Nat × Reference} (h : f ∈ findAll patterns lines) : 0 < f.1 := by
  rw [findAll_eq] at h
  exact le_of_mem_findFrom h

/-- The numbered references of a key. -/
def ownReferences (patterns : Patterns) (lines : List Text) (key : Text) : List (Nat × Reference) :=
  (findAll patterns lines).filter fun f => looksUp key f.2

/-- The references of a key that meet a condition are references of the file that do. -/
theorem any_ownReferences (patterns : Patterns) (lines : List Text) (key : Text)
    (meets : Reference → Bool) :
    (ownReferences patterns lines key).any (fun f => meets f.2) =
      (lines.flatMap (references patterns)).any fun r => looksUp key r && meets r := by
  rw [ownReferences, List.any_filter, ← map_snd_findAll, List.any_map]
  rfl

/-- The references of a key are those of the file that look it up. -/
theorem length_ownReferences (patterns : Patterns) (lines : List Text) (key : Text) :
    (ownReferences patterns lines key).length =
      (lines.flatMap (references patterns)).countP (looksUp key) := by
  rw [ownReferences, ← List.countP_eq_length_filter, ← map_snd_findAll, List.countP_map]
  rfl

/-- The first reference of a key is the one that is found for it. -/
theorem head?_ownReferences (patterns : Patterns) (lines : List Text) (key : Text) :
    (ownReferences patterns lines key).head?.map (·.2) =
      (lines.flatMap (references patterns)).find? (looksUp key) := by
  rw [ownReferences, ← map_snd_findAll, List.find?_map, List.head?_filter]
  rfl

/-- The lines of the references of a key that meet a condition, each of them once. -/
theorem eraseDups_numbersOf_ownReferences (patterns : Patterns) (lines : List Text) (key : Text)
    (meets : Reference → Bool) :
    (numbersOf meets (ownReferences patterns lines key)).eraseDups =
      linesWith patterns lines fun r => looksUp key r && meets r := by
  rw [← eraseDups_numbersOf, ownReferences, numbersOf, numbersOf, List.filter_filter]
  simp only [Bool.and_comm]

/-- No reference of a key stands on line 0. -/
theorem zero_not_mem_numbersOf {key : Text} {meets : Reference → Bool} :
    0 ∉ numbersOf meets (ownReferences patterns lines key) := by
  intro hzero
  obtain ⟨f, hf, hnumber⟩ := List.mem_map.1 hzero
  have hpos := pos_of_mem_findAll (List.mem_filter.1 (List.mem_filter.1 hf).1).1
  omega

/-- The record of a key after the scan is what the lines say of its first reference. -/
theorem get?_ofLines (patterns : Patterns) (cap : Nat) (path : Text) (lines : List Text)
    (key : Text) :
    (ofLines patterns cap path lines).get? key =
      ((lines.flatMap (references patterns)).find? (looksUp key)).map
        (digest patterns cap path lines) := by
  rw [ofLines, get?_foldl_addFound, ← head?_ownReferences, ← ownReferences]
  cases hown : ownReferences patterns lines key with
  | nil => rfl
  | cons f later =>
    have hmem : f ∈ ownReferences patterns lines key := hown ▸ List.mem_cons_self
    have hkey : looksUp f.2.key = looksUp key :=
      looksUp_congr (by simpa [looksUp] using (List.mem_filter.1 hmem).2)
    have hwhole : ((if f.2.isJoined || f.2.isTemplate then [] else [0]) ++
        numbersOf (·.isJoined) (f :: later)).eraseDups =
          (if f.2.isJoined || f.2.isTemplate then [] else [0]) ++
            (numbersOf (·.isJoined) (f :: later)).eraseDups := by
      rw [eraseDups_append_of_const (by split <;> simp) (hown ▸ zero_not_mem_numbersOf)]
      split <;> rfl
    have hrecord := (foldl_some path cap _ later).trans
      (congrArg some (foldl_addReference_new path cap f later))
    refine Eq.trans hrecord ?_
    rw [foldl_addPlace_placeAt, foldl_addPlace_placeAt, hwhole, ← hown,
      eraseDups_numbersOf_ownReferences, eraseDups_numbersOf_ownReferences,
      any_ownReferences patterns lines key (·.isJoined),
      any_ownReferences patterns lines key (·.isTemplate), length_ownReferences, hown, ← hkey]
    rfl

/-- The keys of a summary after references: those that it had, then those of the first references of
other keys. -/
theorem keys_foldl_addFound (path : Text) (s : Summary) (found : List (Nat × Reference)) :
    (found.foldl (addFound path) s).infos.keys =
      s.infos.keys ++ ((firsts (found.map (·.2))).filter fun r => !s.contains r.key).map (·.key) := by
  induction found generalizing s with
  | nil => simp [firsts]
  | cons f found ih =>
    have hcontains : ∀ r : Reference, (s.addFound path f).contains r.key =
        (looksUp f.2.key r || s.contains r.key) := fun r => by
      rw [contains, addFound, update, Lexicon.contains_insert, looksUp, contains]
      simp only [eq_comm]
    have hkeys : (s.addFound path f).infos.keys =
        if s.contains f.2.key then s.infos.keys else s.infos.keys ++ [f.2.key] := by
      refine (Lexicon.keys_insert _ _ _).trans (if_congr ?_ rfl rfl)
      rw [contains, Lexicon.contains_iff, List.mem_map]
    rw [List.foldl_cons, ih, hkeys, List.map_cons, firsts, List.filter_cons, List.filter_filter]
    simp only [hcontains, Bool.not_or, Bool.and_comm]
    cases s.contains f.2.key <;> simp

/-- A reference is counted once. -/
theorem total_addFound (path : Text) (s : Summary) (f : Nat × Reference) :
    (s.addFound path f).total = s.total + 1 := by
  have hcount : ∀ (isFirst : Bool) (info : Info),
      (addReference path f.1 isFirst f.2 info).count = info.count + 1 := by
    intro isFirst info
    unfold addReference
    split_ifs <;> rfl
  have hadded := s.infos.sum_values_insert f.2.key
    (addReference path f.1 (!s.contains f.2.key) f.2 (s.getOrNew f.2.key)) (·.count)
  rw [hcount] at hadded
  have hknown : (s.getOrNew f.2.key).count =
      ((s.infos.get? f.2.key).map (·.count)).getD 0 := by
    unfold getOrNew get?
    cases s.infos.get? f.2.key <;> rfl
  rw [hknown, ← Nat.add_assoc, Nat.add_right_comm] at hadded
  rw [total_eq_sum, total_eq_sum]
  exact Nat.add_right_cancel hadded

/-- Every reference is counted. -/
theorem total_foldl_addFound (path : Text) (s : Summary) (found : List (Nat × Reference)) :
    (found.foldl (addFound path) s).total = s.total + found.length := by
  induction found generalizing s with
  | nil => rfl
  | cons f found ih =>
    rw [List.foldl_cons, ih, total_addFound, List.length_cons, Nat.add_right_comm, Nat.add_assoc]

/-- The summary of a file is read off its lines, whatever they are. Each key that some line looks up
has a record, in the order and in the spelling of the first references, and no other key has one. The
record holds what all references of the key say, up to case: their number, their flags, and the first
of the lines with them, in order and each once. All references are counted together. -/
theorem ofLines_eq_digests (patterns : Patterns) (cap : Nat) (path : Text) (lines : List Text) :
    let found := lines.flatMap (references patterns)
    let s := ofLines patterns cap path lines
    s.infos.entries =
        (firsts found).map (fun first => (first.key, digest patterns cap path lines first)) ∧
      (∀ key, s.get? key = (found.find? (looksUp key)).map (digest patterns cap path lines)) ∧
      s.total = found.length ∧ s.cap = cap ∧ s.referenced = ∅ := by
  intro found s
  have hget : ∀ key, s.get? key = (found.find? (looksUp key)).map (digest patterns cap path lines) :=
    get?_ofLines patterns cap path lines
  have hkeys : s.infos.keys = (firsts found).map (·.key) := by
    refine (keys_foldl_addFound path (empty cap) (findAll patterns lines)).trans ?_
    rw [map_snd_findAll]
    exact congrArg (List.map _) (List.filter_true _)
  refine ⟨Lexicon.entries_eq_map hkeys fun first hfirst => ?_, hget, ?_, ?_, ?_⟩
  · exact (hget first.key).trans (by rw [find?_of_mem_firsts hfirst, Option.map_some])
  · refine (total_foldl_addFound path (empty cap) (findAll patterns lines)).trans ?_
    rw [show found = _ from (map_snd_findAll patterns lines).symm, List.length_map]
    exact Nat.zero_add _
  · exact cap_foldl_addFound path (empty cap) (findAll patterns lines)
  · exact (@foldl_addFound _ [] path (findAll patterns lines) (isKeyed_empty cap)).2.1

end Summary

end Glue

end Phrasebook
