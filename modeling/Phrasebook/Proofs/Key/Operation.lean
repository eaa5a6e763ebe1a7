import Phrasebook.Key.Operation
import Phrasebook.Proofs.Key.History

/-!
# Maps after operations

What a map answers is told by its history alone: the value of a key is the last one that it was set to,
and the first entry is that of the key whose first setting is the oldest. One operation of the map is one
step of the history, so the same holds of any operations one after another.
-/

namespace Phrasebook.Lexicon

open Text (fold)
open History (first? last? IsBefore)

variable {V : Type}

/-! ### Listing and emptying a map -/

section Items

variable {norm : Text → Text} {m : Lexicon norm V}

/-- The keys of a map with the values that are found for them are its entries. -/
theorem items_eq_entries (m : Lexicon norm V) : m.items = m.entries := by
  have hfound : ∀ e ∈ m.entries,
      ((m.get? e.1).map fun value => (e.1, value)) = some e := by
    intro e he
    rw [get?_eq_some_iff.2 ⟨e.1, he, rfl⟩, Option.map_some]
  rw [items, keys, List.filterMap_map]
  calc m.entries.filterMap _ = m.entries.filterMap some := List.filterMap_congr hfound
    _ = m.entries := List.filterMap_some

/-- A copy of a map is the map. -/
theorem copy_eq (m : Lexicon norm V) : m.copy = m := by
  rw [copy, items_eq_entries, ofList_entries]

/-- There is no first entry exactly when there is none. -/
theorem popFirst?_eq_none_iff : m.popFirst? = none ↔ m.entries = [] := by
  rw [popFirst?, Option.map_eq_none_iff, List.head?_eq_none_iff]

/-- Taking entries for as long as there is one leaves none. -/
theorem popAll_eq_empty (m : Lexicon norm V) : m.popAll = ∅ := by
  fun_induction popAll m with
  | case1 m hnone => exact ext_entries (popFirst?_eq_none_iff.1 hnone)
  | case2 m popped hpopped ih => exact ih

end Items

/-! ### What a history says -/

/-- A history in which keys are set one after another. -/
def History.ofPairs (pairs : List (Text × V)) : History V :=
  (pairs.map fun pair => .set pair.1 pair.2).reverse

/-- A setting is the oldest first setting of a key. -/
def History.IsOldest (h : History V) (s : Setting V) : Prop :=
  first? h s.key = some s ∧ ∀ key t, first? h key = some t → s.time ≤ t.time

/-- What is answered to an operation after a history, and the history that follows. -/
inductive Answers (h : History V) : Operation V → Answer V → History V → Prop where
  /-- The value that is found is the last one, if there is one. -/
  | get (key : Text) : Answers h (.get key) (.found ((last? h key).map (·.value))) h
  /-- The value of a key is the last one. -/
  | item {key : Text} {s : Setting V} (hlast : last? h key = some s) :
      Answers h (.item key) (.value s.value) h
  /-- A key that is not set has no value. -/
  | itemMissing {key : Text} (hnone : last? h key = none) :
      Answers h (.item key) (.missing (some (fold key))) h
  /-- A key is set. -/
  | set (key : Text) (value : V) : Answers h (.set key value) .done (.set key value :: h)
  /-- A key that is set can be deleted. -/
  | delete {key : Text} {s : Setting V} (hlast : last? h key = some s) :
      Answers h (.delete key) .done (.delete key :: h)
  /-- A key that is not set cannot be deleted. -/
  | deleteMissing {key : Text} (hnone : last? h key = none) :
      Answers h (.delete key) (.missing (some (fold key))) h
  /-- The last value of a key is taken, which deletes the key. -/
  | pop {key : Text} {s : Setting V} (default? : Option (Option V))
      (hlast : last? h key = some s) :
      Answers h (.pop key default?) (.value s.value) (.delete key :: h)
  /-- A key that is not set has the default value. -/
  | popDefault {key : Text} (value? : Option V) (hnone : last? h key = none) :
      Answers h (.pop key (some value?)) (.found value?) h
  /-- A key that is not set cannot be taken without a default value. -/
  | popMissing {key : Text} (hnone : last? h key = none) :
      Answers h (.pop key none) (.missing (some (fold key))) h
  /-- The key whose first setting is the oldest is taken in that spelling, with its last value. -/
  | popItem {s t : Setting V} (holdest : h.IsOldest s) (hlast : last? h s.key = some t) :
      Answers h .popItem (.item s.key t.value) (.delete s.key :: h)
  /-- When no key is set, none can be taken. -/
  | popItemMissing (hnone : ∀ key, last? h key = none) : Answers h .popItem (.missing none) h
  /-- A key that is set keeps its value. -/
  | setDefault {key : Text} {s : Setting V} (value : V) (hlast : last? h key = some s) :
      Answers h (.setDefault key value) (.value s.value) h
  /-- A key that is not set is set. -/
  | setDefaultMissing {key : Text} (value : V) (hnone : last? h key = none) :
      Answers h (.setDefault key value) (.value value) (.set key value :: h)
  /-- Several keys are set, one after another. -/
  | update (pairs : List (Text × V)) :
      Answers h (.update pairs) .done (History.ofPairs pairs ++ h)
  /-- All keys are deleted. -/
  | clear : Answers h .clear .done (.clear :: h)
  /-- A copy has the same history. -/
  | copy : Answers h .copy .done h

/-- What is answered to operations, one after another. -/
inductive Runs : History V → List (Operation V) → List (Answer V) → History V → Prop where
  | nil (h : History V) : Runs h [] [] h
  | cons {h h' h'' : History V} {op : Operation V} {ops : List (Operation V)} {answer : Answer V}
      {answers : List (Answer V)} (hstep : Answers h op answer h') (hrun : Runs h' ops answers h'') :
      Runs h (op :: ops) (answer :: answers) h''

/-! ### One operation -/

namespace Represents

variable {m : KeyMap V} {h : History V} {key : Text}

/-- A key without a value was not set since its last deletion. -/
theorem last?_eq_none (hm : Represents m h) (hnone : m.get? key = none) : last? h key = none := by
  rw [hm.get?, Option.map_eq_none_iff] at hnone
  exact hnone

/-- The value of a key is that of its last setting. -/
theorem exists_last? (hm : Represents m h) {value : V} (hvalue : m.get? key = some value) :
    ∃ s, last? h key = some s ∧ s.value = value := by
  rw [hm.get?, Option.map_eq_some_iff] at hvalue
  exact hvalue

/-- The first entry is that of the key whose first setting is the oldest. -/
theorem exists_isOldest (hm : Represents m h) {e : Text × V} (he : m.entries.head? = some e) :
    ∃ s, h.IsOldest s ∧ s.key = e.1 := by
  obtain ⟨rest, hrest⟩ := List.head?_eq_some_iff.1 he
  have hkeys : m.keys = e.1 :: rest.map (·.1) := by rw [keys, hrest, List.map_cons]
  obtain ⟨s, hs⟩ := hm.exists_first? (hkeys ▸ List.mem_cons_self)
  have hspelling : s.key = e.1 := by
    have hfound : m.find? e.1 = some e := find?_eq_some_iff.2 ⟨List.mem_of_head? he, rfl⟩
    have hspelled := hm.spelling? e.1
    rw [Lexicon.spelling?, hfound, hs, Option.map_some, Option.map_some] at hspelled
    exact (Option.some.inj hspelled).symm
  refine ⟨s, ⟨hspelling ▸ hs, ?_⟩, hspelling⟩
  intro key t ht
  -- the spelling of the other key is a key of the map, which stands behind the first one
  have hspelled : m.spelling? key = some t.key := by rw [hm.spelling?, ht, Option.map_some]
  obtain ⟨e', he', hkey⟩ := Option.map_eq_some_iff.1 hspelled
  obtain ⟨hmem, hfold⟩ := find?_eq_some_iff.1 he'
  have hlisted : e'.1 ∈ m.keys := List.mem_map_of_mem hmem
  have ht' : first? h e'.1 = some t := History.first?_congr hfold h ▸ ht
  rw [hkeys] at hlisted
  rcases List.mem_cons.1 hlisted with hsame | hbehind
  · rw [hsame, hs] at ht'
    exact Nat.le_of_eq (congrArg Setting.time (Option.some.inj ht'))
  · have horder := hm.order
    rw [hkeys] at horder
    obtain ⟨s', hs', t', ht'', hlt⟩ := (List.pairwise_cons.1 horder).1 _ hbehind
    rw [hs] at hs'
    rw [ht'] at ht''
    obtain rfl := Option.some.inj hs'
    obtain rfl := Option.some.inj ht''
    exact Nat.le_of_lt hlt

/-- One operation is answered as the history says, and the map goes on to have what the history
leaves. -/
theorem perform (hm : Represents m h) (op : Operation V) :
    ∃ h', Answers h op (m.perform op).1 h' ∧ Represents (m.perform op).2 h' := by
  cases op with
  | get key =>
    refine ⟨h, ?_, hm⟩
    rw [Lexicon.perform, hm.get?]
    exact .get key
  | item key =>
    rw [Lexicon.perform]
    cases hvalue : m.get? key with
    | none => exact ⟨h, .itemMissing (hm.last?_eq_none hvalue), hm⟩
    | some value =>
      obtain ⟨s, hs, rfl⟩ := hm.exists_last? hvalue
      exact ⟨h, .item hs, hm⟩
  | set key value => exact ⟨_, .set key value, hm.insert key value⟩
  | delete key =>
    rw [Lexicon.perform, contains_eq_isSome]
    cases hvalue : m.get? key with
    | none => exact ⟨h, .deleteMissing (hm.last?_eq_none hvalue), hm⟩
    | some value =>
      obtain ⟨s, hs, -⟩ := hm.exists_last? hvalue
      exact ⟨_, .delete hs, hm.erase key⟩
  | pop key default? =>
    rw [Lexicon.perform, pop?]
    cases hvalue : m.get? key with
    | none =>
      have hnone := hm.last?_eq_none hvalue
      cases default? with
      | none => exact ⟨h, .popMissing hnone, hm⟩
      | some value? => exact ⟨h, .popDefault value? hnone, hm⟩
    | some value =>
      obtain ⟨s, hs, rfl⟩ := hm.exists_last? hvalue
      exact ⟨_, .pop default? hs, hm.erase key⟩
  | popItem =>
    rw [Lexicon.perform, popFirst?]
    cases hfirst : m.entries.head? with
    | none =>
      have hnone : ∀ key, m.get? key = none := by
        intro key
        rw [get?_eq_none_iff, List.head?_eq_none_iff.1 hfirst]
        exact List.forall_mem_nil _
      exact ⟨h, .popItemMissing fun key => hm.last?_eq_none (hnone key), hm⟩
    | some e =>
      obtain ⟨s, hs, hkey⟩ := hm.exists_isOldest hfirst
      have hvalue : m.get? e.1 = some e.2 :=
        get?_eq_some_iff.2 ⟨e.1, List.mem_of_head? hfirst, rfl⟩
      obtain ⟨t, ht, hlast⟩ := hm.exists_last? hvalue
      have hanswers := Answers.popItem hs (hkey.symm ▸ ht)
      rw [hkey, hlast] at hanswers
      exact ⟨_, hanswers, hm.erase e.1⟩
  | setDefault key value =>
    rw [Lexicon.perform, getOrInsert]
    cases hvalue : m.get? key with
    | none =>
      exact ⟨_, .setDefaultMissing value (hm.last?_eq_none hvalue), hm.insert key value⟩
    | some known =>
      obtain ⟨s, hs, rfl⟩ := hm.exists_last? hvalue
      exact ⟨h, .setDefault value hs, hm⟩
  | update pairs => exact ⟨_, .update pairs, hm.insertAll pairs⟩
  | clear =>
    refine ⟨_, .clear, ?_⟩
    rw [Lexicon.perform, popAll_eq_empty]
    exact Represents.clear h
  | copy =>
    refine ⟨h, .copy, ?_⟩
    rw [Lexicon.perform, copy_eq]
    exact hm

/-! ### Operations one after another -/

/-- Operations are answered as the history says, one after another. -/
theorem run (hm : Represents m h) (ops : List (Operation V)) :
    ∃ h', Runs h ops (m.run ops).1 h' ∧ Represents (m.run ops).2 h' := by
  induction ops generalizing m h with
  | nil => exact ⟨h, .nil h, hm⟩
  | cons op ops ih =>
    obtain ⟨h', hanswers, hstep⟩ := hm.perform op
    obtain ⟨h'', hruns, hlast⟩ := ih hstep
    exact ⟨h'', .cons hanswers hruns, hlast⟩

end Represents

/-- An operation that fails leaves the map as it is. -/
theorem perform_of_missing {m : KeyMap V} {op : Operation V} {folded? : Option Text}
    (hfails : (m.perform op).1 = .missing folded?) : (m.perform op).2 = m := by
  cases op with
  | item key =>
    rw [perform] at hfails ⊢
    cases hvalue : m.get? key with
    | none => rfl
    | some value => simp [hvalue] at hfails
  | delete key =>
    rw [perform] at hfails ⊢
    split_ifs with hknown
    · simp [hknown] at hfails
    · rfl
  | pop key default? =>
    rw [perform] at hfails ⊢
    cases hpop : m.pop? key with
    | none => rfl
    | some popped => simp [hpop] at hfails
  | popItem =>
    rw [perform] at hfails ⊢
    cases hpop : m.popFirst? with
    | none => rfl
    | some popped => simp [hpop] at hfails
  | _ => simp [perform] at hfails

/-- What can be seen of a map does not depend on how it is looked at. -/
structure IsCoherent (m : KeyMap V) : Prop where
  /-- No two entries have keys that differ in case only. -/
  distinct : (m.entries.map fun e => fold e.1).Nodup
  /-- An entry is what is found under the folded form of its spelling, and nowhere else. -/
  find_iff : ∀ e ∈ m.entries, ∀ key, m.find? key = some e ↔ fold e.1 = fold key
  /-- Looking up a key depends on its folded form only. -/
  congr : ∀ k key, fold k = fold key → m.find? k = m.find? key
  /-- There are as many entries as keys are listed. -/
  size : m.size = m.keys.length
  /-- The listed entries are the listed keys with the values that are found for them. -/
  items : m.entries = m.items
  /-- A key has a value exactly when one of its spellings is listed. -/
  contains_iff : ∀ key, m.contains key = true ↔ ∃ k ∈ m.keys, fold k = fold key
  /-- A key has a value exactly when one is found. -/
  contains_eq : ∀ key, m.contains key = (m.get? key).isSome

/-- Every map is coherent. -/
theorem isCoherent (m : KeyMap V) : IsCoherent m where
  distinct := m.distinct
  find_iff e he key := by
    rw [find?_eq_some_iff]
    exact and_iff_right he
  congr k key hk := by rw [find?, hk, find?]
  size := (List.length_map _).symm
  items := m.items_eq_entries.symm
  contains_iff _ := Lexicon.contains_iff
  contains_eq := m.contains_eq_isSome

/-- A map that starts with listed pairs refines its history, through any operations: each is answered as
the history says, in the end the map has what the history leaves, the ways of looking at it agree, and
a further operation that fails leaves it as it is. -/
theorem run_ofList_refines (pairs : List (Text × V)) (ops : List (Operation V)) :
    let (answers, m) := (ofList pairs : KeyMap V).run ops
    (∃ h, Runs (History.ofPairs pairs) ops answers h ∧ Represents m h) ∧
      IsCoherent m ∧
      ∀ op folded?, (m.perform op).1 = .missing folded? → (m.perform op).2 = m := by
  have hstart : Represents (ofList pairs : KeyMap V) (History.ofPairs pairs) := by
    have hall := Represents.empty.insertAll pairs
    rwa [List.append_nil] at hall
  exact ⟨hstart.run ops, isCoherent _, fun op folded? hfails => perform_of_missing hfails⟩

end Phrasebook.Lexicon
