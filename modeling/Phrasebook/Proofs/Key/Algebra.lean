import Mathlib.Data.Finset.Card
import Mathlib.Data.Finset.SymmDiff
import Phrasebook.Key.Algebra
import Phrasebook.Proofs.Key.Union

/-!
# Key sets are sets

The members of a key set are the folded forms of its keys, and no two keys have the same one. Combining
key sets, in place or not, combines their members, and comparing key sets compares them. So any calls on
key sets do to the members what the same calls do to sets of folded forms.
-/

open scoped symmDiff

namespace Phrasebook

open Text (fold)

/-- What an operator makes of two sets. -/
def SetOperator.apply (op : SetOperator) (A B : Finset Text) : Finset Text :=
  match op with
  | .inter => A ∩ B
  | .union => A ∪ B
  | .sdiff => A \ B
  | .symmDiff => A ∆ B

namespace KeySet

/-- The folded forms of keys. -/
def folded (keys : List Text) : Finset Text :=
  (keys.map fold).toFinset

/-- The members of a set are the folded forms of its keys. -/
def members (s : KeySet) : Finset Text :=
  folded s.keys

variable {s t : KeySet} {key m : Text}

/-! ### Members -/

@[simp] theorem mem_folded {keys : List Text} : m ∈ folded keys ↔ ∃ k ∈ keys, fold k = m := by
  simp [folded]

theorem mem_members : m ∈ s.members ↔ ∃ k ∈ s.keys, fold k = m :=
  mem_folded

theorem folded_nil : folded [] = ∅ := rfl

theorem folded_cons (key : Text) (keys : List Text) :
    folded (key :: keys) = {fold key} ∪ folded keys := by
  ext m
  simp [eq_comm]

theorem folded_append (keys keys' : List Text) :
    folded (keys ++ keys') = folded keys ∪ folded keys' := by
  ext m
  simp [or_and_right, exists_or]

/-- A key belongs to a set when its folded form is a member. -/
theorem contains_iff_mem : s.contains key = true ↔ fold key ∈ s.members := by
  rw [contains_iff, mem_members]

/-- A set has as many members as keys. -/
theorem card_members (s : KeySet) : s.members.card = s.size := by
  rw [members, folded, List.toFinset_card_of_nodup s.distinct, List.length_map, size]

/-- The members that are left when keys are kept by their folded forms. -/
theorem mem_members_filter {keep : Text → Bool} {p : Text → Prop}
    (h : ∀ k, keep k = true ↔ p (fold k)) : m ∈ (s.filter keep).members ↔ m ∈ s.members ∧ p m := by
  simp only [mem_members, filter, List.mem_filter, h]
  constructor
  · rintro ⟨k, ⟨hk, hp⟩, rfl⟩
    exact ⟨⟨k, hk, rfl⟩, hp⟩
  · rintro ⟨⟨k, hk, rfl⟩, hp⟩
    exact ⟨k, ⟨hk, hp⟩, rfl⟩

/-- One more key is one more member. -/
theorem members_insert (s : KeySet) (key : Text) :
    (s.insert key).members = s.members ∪ {fold key} := by
  rw [members, keys_insert]
  split_ifs with h
  · have hmem : {fold key} ⊆ s.members := Finset.singleton_subset_iff.2 (contains_iff_mem.1 h)
    exact (Finset.union_eq_left.2 hmem).symm
  · rw [folded_append, folded_cons, folded_nil, Finset.union_empty]
    rfl

/-- Several more keys are so many more members. -/
theorem members_insertAll (s : KeySet) (keys : List Text) :
    (s.insertAll keys).members = s.members ∪ folded keys := by
  induction keys generalizing s with
  | nil => exact (Finset.union_empty _).symm
  | cons key keys ih =>
    have hstep : s.insertAll (key :: keys) = (s.insert key).insertAll keys := rfl
    rw [hstep, ih, members_insert, folded_cons, Finset.union_assoc]

/-- Without a key there is one member less. -/
theorem members_erase (s : KeySet) (key : Text) :
    (s.erase key).members = s.members \ {fold key} := by
  ext m
  rw [erase, mem_members_filter (p := (· ≠ fold key)) (by simp), Finset.mem_sdiff,
    Finset.mem_singleton]

/-- Without several keys there are so many members less. -/
theorem members_eraseAll (s : KeySet) (keys : List Text) :
    (s.eraseAll keys).members = s.members \ folded keys := by
  induction keys generalizing s with
  | nil => exact Finset.sdiff_empty.symm
  | cons key keys ih =>
    have hstep : s.eraseAll (key :: keys) = (s.erase key).eraseAll keys := rfl
    rw [hstep, ih, members_erase, folded_cons, sdiff_sdiff_left]
    rfl

/-- A set gets the member of a toggled key, or loses it. -/
theorem members_toggle (s : KeySet) (key : Text) :
    (s.toggle key).members = s.members ∆ {fold key} := by
  rw [toggle]
  split_ifs with h
  · have hmem : {fold key} ⊆ s.members := by simpa using contains_iff_mem.1 h
    rw [members_erase, symmDiff_of_ge hmem]
  · have hnot : Disjoint s.members {fold key} := by
      simpa using fun hmem => h (contains_iff_mem.2 hmem)
    rw [members_insert, Finset.symmDiff_eq_union hnot]

/-- Keys that are toggled one after another are toggled together, if no two of them are the same. -/
theorem members_foldl_toggle (s : KeySet) {keys : List Text} (h : (keys.map fold).Nodup) :
    (keys.foldl toggle s).members = s.members ∆ folded keys := by
  induction keys generalizing s with
  | nil => exact (symmDiff_bot s.members).symm
  | cons key keys ih =>
    rw [List.map_cons, List.nodup_cons] at h
    have hother : Disjoint {fold key} (folded keys) := by
      simpa using h.1
    rw [List.foldl_cons, ih _ h.2, members_toggle, folded_cons, symmDiff_assoc,
      Finset.symmDiff_eq_union hother]

/-- The key that is taken out of a set is a member of it, and the others stay. -/
theorem members_of_popFirst? {rest : KeySet} (h : s.popFirst? = some (key, rest)) :
    fold key ∈ s.members ∧ rest.members = s.members \ {fold key} := by
  obtain ⟨k, hk, hpopped⟩ := Option.map_eq_some_iff.1 h
  obtain ⟨rfl, rfl⟩ := Prod.mk.inj hpopped
  exact ⟨mem_members.2 ⟨k, List.mem_of_head? hk, rfl⟩, members_erase s k⟩

/-- Nothing can be taken out of a set exactly when it has no member. -/
theorem popFirst?_eq_none_iff : s.popFirst? = none ↔ s.members = ∅ := by
  rw [popFirst?, Option.map_eq_none_iff, List.head?_eq_none_iff, members, folded,
    List.toFinset_eq_empty_iff, List.map_eq_nil_iff]

/-- Taking keys for as long as there is one leaves no member. -/
theorem members_popAll (s : KeySet) : s.popAll.members = ∅ := by
  fun_induction popAll s with
  | case1 s hnone => exact popFirst?_eq_none_iff.1 hnone
  | case2 s popped hpopped ih => exact ih

/-! ### Operators -/

/-- A combination of two sets has the members that the operator makes of theirs. -/
theorem members_combine (s : KeySet) (op : SetOperator) (t : KeySet) :
    (s.combine op t).members = op.apply s.members t.members := by
  have hsdiff : ∀ s t : KeySet, (s.sdiff t).members = s.members \ t.members := by
    intro s t
    ext m
    rw [sdiff, mem_members_filter (p := (· ∉ t.members)) fun k => by
      rw [Bool.not_eq_true', ← Bool.not_eq_true, contains_iff_mem], Finset.mem_sdiff]
  cases op with
  | inter =>
    ext m
    rw [combine, inter, mem_members_filter (p := (· ∈ s.members)) fun k => contains_iff_mem,
      SetOperator.apply, Finset.mem_inter, and_comm]
  | union => exact members_insertAll s t.keys
  | sdiff => exact hsdiff s t
  | symmDiff =>
    rw [combine, symmDiff, union, members_insertAll, hsdiff]
    exact congrArg (_ ∪ ·) (hsdiff t s)

/-- A set that takes in another one gets the members that the operator makes of theirs. -/
theorem members_assign (s : KeySet) (op : SetOperator) (t : KeySet) :
    (s.assign op t).members = op.apply s.members t.members := by
  cases op with
  | inter =>
    have hleft : folded (s.sdiff t).keys = s.members \ t.members := members_combine s .sdiff t
    rw [assign, retain, members_eraseAll, hleft]
    exact sdiff_sdiff_right_self
  | union => exact members_insertAll s t.keys
  | sdiff => exact members_eraseAll s t.keys
  | symmDiff => exact members_foldl_toggle s t.distinct

/-- A set that takes in itself gets the members that the operator makes of its own. -/
theorem members_assignSelf (s : KeySet) (op : SetOperator) :
    (s.assignSelf op).members = op.apply s.members s.members := by
  cases op with
  | inter => exact members_assign s .inter s
  | union => exact members_assign s .union s
  | sdiff => exact (members_popAll s).trans (Finset.sdiff_self _).symm
  | symmDiff => exact (members_popAll s).trans (symmDiff_self s.members).symm

/-- What an operator makes of two sets is told member by member. -/
theorem contains_combine (s : KeySet) (op : SetOperator) (t : KeySet) (key : Text) :
    (s.combine op t).contains key = true ↔ fold key ∈ op.apply s.members t.members := by
  rw [contains_iff_mem, members_combine]

/-! ### Comparisons -/

/-- Every key of a set belongs to another one when its members do. -/
theorem all_contains_iff : s.keys.all t.contains = true ↔ s.members ⊆ t.members := by
  rw [List.all_eq_true]
  constructor
  · intro h m hm
    obtain ⟨k, hk, rfl⟩ := mem_members.1 hm
    exact contains_iff_mem.1 (h k hk)
  · intro h k hk
    exact contains_iff_mem.2 (h (mem_members.2 ⟨k, hk, rfl⟩))

theorem isSubset_iff : s.isSubset t = true ↔ s.members ⊆ t.members := by
  rw [isSubset, Bool.and_eq_true, decide_eq_true_eq, all_contains_iff, ← card_members,
    ← card_members]
  exact and_iff_right_of_imp Finset.card_le_card

theorem isProperSubset_iff : s.isProperSubset t = true ↔ s.members ⊂ t.members := by
  rw [isProperSubset, Bool.and_eq_true, decide_eq_true_eq, isSubset_iff, ← card_members,
    ← card_members]
  constructor
  · rintro ⟨hless, hsub⟩
    refine hsub.ssubset_of_ne fun hsame => ?_
    rw [hsame] at hless
    exact Nat.lt_irrefl _ hless
  · exact fun h => ⟨Finset.card_lt_card h, h.subset⟩

theorem sameKeys_iff : s.sameKeys t = true ↔ s.members = t.members := by
  rw [sameKeys, Bool.and_eq_true, beq_iff_eq, isSubset_iff, ← card_members, ← card_members]
  constructor
  · exact fun ⟨hcard, hsub⟩ => Finset.eq_of_subset_of_card_le hsub hcard.ge
  · exact fun h => ⟨congrArg Finset.card h, h.subset⟩

theorem isDisjoint_iff : s.isDisjoint t = true ↔ Disjoint s.members t.members := by
  rw [isDisjoint, List.all_eq_true, Finset.disjoint_right]
  constructor
  · intro h m hm hmem
    obtain ⟨k, hk, rfl⟩ := mem_members.1 hm
    simpa [contains_iff_mem.2 hmem] using h k hk
  · intro h k hk
    rw [Bool.not_eq_true', ← Bool.not_eq_true, contains_iff_mem]
    exact h (mem_members.2 ⟨k, hk, rfl⟩)

/-- What two sets answer is what their members answer. -/
structure Agrees (s t : KeySet) : Prop where
  /-- A set has as many keys as members. -/
  size : s.size = s.members.card
  /-- A key belongs to a set when its folded form is a member. -/
  contains (key : Text) : s.contains key = true ↔ fold key ∈ s.members
  /-- An intersection has the keys that both have. -/
  inter (key : Text) : (s.combine .inter t).contains key = (s.contains key && t.contains key)
  /-- A union has the keys that one of them has. -/
  union (key : Text) : (s.combine .union t).contains key = (s.contains key || t.contains key)
  /-- A difference has the keys that the first has and the second lacks. -/
  sdiff (key : Text) : (s.combine .sdiff t).contains key = (s.contains key && !t.contains key)
  /-- A symmetric difference has the keys that just one of them has. -/
  symmDiff (key : Text) : (s.combine .symmDiff t).contains key = (s.contains key ^^ t.contains key)
  /-- A set that takes in another one has the members of the combination. -/
  assign (op : SetOperator) : (s.assign op t).members = (s.combine op t).members
  /-- So has a set that takes in itself. -/
  assignSelf (op : SetOperator) : (s.assignSelf op).members = (s.combine op s).members
  /-- The sets have the same keys when they have the same members. -/
  same : s.sameKeys t = true ↔ s.members = t.members
  /-- One set is a part of the other when its members are. -/
  subset : s.isSubset t = true ↔ s.members ⊆ t.members
  /-- A proper part has fewer members. -/
  properSubset : s.isProperSubset t = true ↔ s.members ⊂ t.members
  /-- One set comprises the other when its members do. -/
  superset : t.isSubset s = true ↔ s.members ⊇ t.members
  /-- It comprises more when it has more members. -/
  properSuperset : t.isProperSubset s = true ↔ s.members ⊃ t.members
  /-- The sets have no key in common when they have no member in common. -/
  disjoint : s.isDisjoint t = true ↔ Disjoint s.members t.members

/-- All sets answer so. -/
theorem agrees (s t : KeySet) : s.Agrees t where
  size := (card_members s).symm
  contains key := contains_iff_mem
  inter key := by
    rw [Bool.eq_iff_iff, contains_combine, Bool.and_eq_true, contains_iff_mem, contains_iff_mem]
    exact Finset.mem_inter
  union key := by
    rw [Bool.eq_iff_iff, contains_combine, Bool.or_eq_true, contains_iff_mem, contains_iff_mem]
    exact Finset.mem_union
  sdiff key := by
    rw [Bool.eq_iff_iff, contains_combine, Bool.and_eq_true, Bool.not_eq_true', ← Bool.not_eq_true,
      contains_iff_mem, contains_iff_mem]
    exact Finset.mem_sdiff
  symmDiff key := by
    rw [Bool.eq_iff_iff, contains_combine, SetOperator.apply, Finset.mem_symmDiff,
      ← contains_iff_mem, ← contains_iff_mem]
    cases s.contains key <;> cases t.contains key <;> decide
  assign op := (members_assign s op t).trans (members_combine s op t).symm
  assignSelf op := (members_assignSelf s op).trans (members_combine s op s).symm
  same := sameKeys_iff
  subset := isSubset_iff
  properSubset := isProperSubset_iff
  superset := isSubset_iff
  properSuperset := isProperSubset_iff
  disjoint := isDisjoint_iff

/-! ### Runs of calls -/

/-- A call on the sets at hand. A set is named by its number, and a new one comes last; a number
without a set names nothing. -/
inductive Call where
  /-- Make a set of keys. -/
  | new (keys : List Text)
  /-- Add a key. -/
  | add (number : Nat) (key : Text)
  /-- Drop a key. -/
  | discard (number : Nat) (key : Text)
  /-- Add several keys. -/
  | update (number : Nat) (keys : List Text)
  /-- Take out the first key. -/
  | pop (number : Nat)
  /-- Take out all keys. -/
  | clear (number : Nat)
  /-- Make a set that combines two. -/
  | combine (op : SetOperator) (number other : Nat)
  /-- Let a set take in another one, or itself. -/
  | assign (op : SetOperator) (number other : Nat)

/-- The sets after a call. -/
def perform (bench : List KeySet) : Call → List KeySet
  | .new keys => bench ++ [ofList keys]
  | .add number key => bench.modify number (·.insert key)
  | .discard number key => bench.modify number (·.erase key)
  | .update number keys => bench.modify number (·.insertAll keys)
  | .pop number =>
    match (bench[number]?).bind popFirst? with
    | some (_, rest) => bench.set number rest
    | none => bench
  | .clear number => bench.modify number (·.popAll)
  | .combine op number other =>
    match bench[number]?, bench[other]? with
    | some s, some t => bench ++ [s.combine op t]
    | _, _ => bench
  | .assign op number other =>
    match bench[number]?, bench[other]? with
    | some s, some t =>
      bench.set number (if number = other then s.assignSelf op else s.assign op t)
    | _, _ => bench

/-- The sets after calls, one after another, that begin with none. -/
def run (calls : List Call) : List KeySet :=
  calls.foldl perform []

/-- What a call does to sets of folded forms. -/
inductive Acts (sets : List (Finset Text)) : Call → List (Finset Text) → Prop where
  /-- A new set has the given members. -/
  | new (keys : List Text) : Acts sets (.new keys) (sets ++ [folded keys])
  /-- A set gets a member. -/
  | add (number : Nat) (key : Text) :
      Acts sets (.add number key) (sets.modify number (· ∪ {fold key}))
  /-- A set loses a member. -/
  | discard (number : Nat) (key : Text) :
      Acts sets (.discard number key) (sets.modify number (· \ {fold key}))
  /-- A set gets several members. -/
  | update (number : Nat) (keys : List Text) :
      Acts sets (.update number keys) (sets.modify number (· ∪ folded keys))
  /-- A set loses a member that it has. -/
  | pop {number : Nat} {A : Finset Text} {m : Text} (hA : sets[number]? = some A) (hm : m ∈ A) :
      Acts sets (.pop number) (sets.set number (A \ {m}))
  /-- There is no member to lose. -/
  | popNone {number : Nat} (hnone : ∀ A, sets[number]? = some A → A = ∅) :
      Acts sets (.pop number) sets
  /-- A set loses all members. -/
  | clear (number : Nat) : Acts sets (.clear number) (sets.modify number fun _ => ∅)
  /-- A new set has what the operator makes of two sets. -/
  | combine (op : SetOperator) {number other : Nat} {A B : Finset Text}
      (hA : sets[number]? = some A) (hB : sets[other]? = some B) :
      Acts sets (.combine op number other) (sets ++ [op.apply A B])
  /-- There are no two sets to combine. -/
  | combineNone (op : SetOperator) {number other : Nat}
      (hnone : sets[number]? = none ∨ sets[other]? = none) :
      Acts sets (.combine op number other) sets
  /-- A set becomes what the operator makes of it and another one, or of it and itself. -/
  | assign (op : SetOperator) {number other : Nat} {A B : Finset Text}
      (hA : sets[number]? = some A) (hB : sets[other]? = some B) :
      Acts sets (.assign op number other) (sets.set number (op.apply A B))
  /-- There are no two sets to combine in place. -/
  | assignNone (op : SetOperator) {number other : Nat}
      (hnone : sets[number]? = none ∨ sets[other]? = none) :
      Acts sets (.assign op number other) sets

/-- What calls do to sets of folded forms, one after another. -/
inductive Runs : List (Finset Text) → List Call → List (Finset Text) → Prop where
  | nil (sets : List (Finset Text)) : Runs sets [] sets
  | cons {before middle after : List (Finset Text)} {call : Call} {calls : List Call}
      (hstep : Acts before call middle) (hrun : Runs middle calls after) :
      Runs before (call :: calls) after

variable {bench : List KeySet}

/-- The members of the sets at hand. -/
def views (bench : List KeySet) : List (Finset Text) :=
  bench.map members

theorem getElem?_views {number : Nat} {s : KeySet} (h : bench[number]? = some s) :
    (views bench)[number]? = some s.members := by
  rw [views, List.getElem?_map, h, Option.map_some]

theorem getElem?_views_eq_none {number : Nat} (h : bench[number]? = none) :
    (views bench)[number]? = none := by
  rw [views, List.getElem?_map, h, Option.map_none]

theorem views_concat (bench : List KeySet) (s : KeySet) :
    views (bench ++ [s]) = views bench ++ [s.members] :=
  List.map_append

theorem views_set (bench : List KeySet) (number : Nat) (s : KeySet) :
    views (bench.set number s) = (views bench).set number s.members :=
  List.map_set

/-- A set is changed as its members are. -/
theorem views_modify (bench : List KeySet) (number : Nat) {change : KeySet → KeySet}
    (effect : Finset Text → Finset Text) (h : ∀ s, (change s).members = effect s.members) :
    views (bench.modify number change) = (views bench).modify number effect := by
  refine List.ext_getElem? fun i => ?_
  simp only [views, List.getElem?_map, List.getElem?_modify]
  cases bench[i]? with
  | none => rfl
  | some s =>
    simp only [Option.map_some]
    split_ifs
    · exact congrArg some (h s)
    · rfl

/-- One call does to the members what it does to the sets. -/
theorem acts_perform (bench : List KeySet) (call : Call) :
    Acts (views bench) call (views (perform bench call)) := by
  cases call with
  | new keys =>
    have hmembers : (ofList keys).members = folded keys :=
      (members_insertAll ∅ keys).trans (Finset.empty_union _)
    rw [perform, views_concat, hmembers]
    exact .new keys
  | add number key =>
    rw [perform, views_modify bench number (· ∪ {fold key}) fun s => members_insert s key]
    exact .add number key
  | discard number key =>
    rw [perform, views_modify bench number (· \ {fold key}) fun s => members_erase s key]
    exact .discard number key
  | update number keys =>
    rw [perform, views_modify bench number (· ∪ folded keys) fun s => members_insertAll s keys]
    exact .update number keys
  | pop number =>
    rw [perform]
    cases hs : bench[number]? with
    | none => exact .popNone fun A hA => by simp [getElem?_views_eq_none hs] at hA
    | some s =>
      rw [Option.bind_some]
      cases hpopped : s.popFirst? with
      | none =>
        refine .popNone fun A hA => ?_
        rw [getElem?_views hs] at hA
        exact Option.some.inj hA ▸ popFirst?_eq_none_iff.1 hpopped
      | some popped =>
        obtain ⟨hmem, hrest⟩ := members_of_popFirst? hpopped
        dsimp only
        rw [views_set, hrest]
        exact .pop (getElem?_views hs) hmem
  | clear number =>
    rw [perform, views_modify bench number (fun _ => ∅) members_popAll]
    exact .clear number
  | combine op number other =>
    rw [perform]
    cases hs : bench[number]? with
    | none => exact .combineNone op (Or.inl (getElem?_views_eq_none hs))
    | some s =>
      cases ht : bench[other]? with
      | none => exact .combineNone op (Or.inr (getElem?_views_eq_none ht))
      | some t =>
        dsimp only
        rw [views_concat, members_combine]
        exact .combine op (getElem?_views hs) (getElem?_views ht)
  | assign op number other =>
    rw [perform]
    cases hs : bench[number]? with
    | none => exact .assignNone op (Or.inl (getElem?_views_eq_none hs))
    | some s =>
      cases ht : bench[other]? with
      | none => exact .assignNone op (Or.inr (getElem?_views_eq_none ht))
      | some t =>
        have hmembers : (if number = other then s.assignSelf op else s.assign op t).members =
            op.apply s.members t.members := by
          split_ifs with hsame
          · obtain rfl := Option.some.inj (hs.symm.trans (hsame ▸ ht))
            exact members_assignSelf s op
          · exact members_assign s op t
        dsimp only
        rw [views_set, hmembers]
        exact .assign op (getElem?_views hs) (getElem?_views ht)

/-- Calls do to the members what they do to the sets, one after another. -/
theorem runs_foldl_perform (bench : List KeySet) (calls : List Call) :
    Runs (views bench) calls (views (calls.foldl perform bench)) := by
  induction calls generalizing bench with
  | nil => exact .nil _
  | cons call calls ih => exact .cons (acts_perform bench call) (ih (perform bench call))

/-- The sets that any calls leave are, up to case, those that the same calls leave of sets of folded
forms, and any two of them answer, combine and compare as such sets do. -/
theorem run_is_set_algebra (calls : List Call) :
    Runs [] calls (views (run calls)) ∧ ∀ s ∈ run calls, ∀ t ∈ run calls, s.Agrees t :=
  ⟨runs_foldl_perform [] calls, fun s _ t _ => agrees s t⟩

/-- A set takes in another one that has a key of its own in another spelling, and a third one takes in
itself. -/
theorem run_is_set_algebra_of_spellings :
    let calls : List Call := [.new ["Stra\u00dfe".toList, "Axe".toList, "AXE".toList],
      .new ["STRASSE".toList, "bow".toList], .combine .inter 0 1, .assign .symmDiff 0 1,
      .assign .inter 2 2, .pop 1]
    let s := ofList ["Axe".toList, "bow".toList]
    let t := ofList ["bow".toList]
    let u := ofList ["STRASSE".toList]
    (run calls).map (·.keys) = [s.keys, t.keys, u.keys] ∧ s ∈ run calls ∧ t ∈ run calls ∧
      u ∈ run calls ∧ t.members ⊂ s.members ∧ Disjoint s.members u.members ∧
      fold "Stra\u00dfe".toList ∈ u.members ∧
      Runs [] calls [s.members, t.members, u.members] := by
  intro calls s t u
  have hkeys : (run calls).map (·.keys) = [s.keys, t.keys, u.keys] := by decide +kernel
  have hrun : run calls = [s, t, u] :=
    List.map_injective_iff.2 (fun _ _ => ext_keys) hkeys
  have hs : s ∈ run calls := by simp [hrun]
  have ht : t ∈ run calls := by simp [hrun]
  have hu : u ∈ run calls := by simp [hrun]
  obtain ⟨hacts, hagree⟩ := run_is_set_algebra calls
  refine ⟨hkeys, hs, ht, hu, ?_, ?_, ?_, ?_⟩
  · exact (hagree s hs t ht).properSuperset.1 (by decide +kernel)
  · exact (hagree s hs u hu).disjoint.1 (by decide +kernel)
  · exact ((hagree u hu u hu).contains _).1 (by decide +kernel)
  · rwa [hrun] at hacts

end KeySet

end Phrasebook
