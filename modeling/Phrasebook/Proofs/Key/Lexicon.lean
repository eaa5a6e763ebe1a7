import Mathlib.Data.List.Nodup
import Phrasebook.Key.Lexicon

/-!
# Looking up keys

Looking up a key depends on its normal form only. Since the entries of a lexicon have distinct normal
forms, a look-up finds exactly the entry whose key has the normal form, and of pairs that are set one
after another the last one counts.
-/

namespace Phrasebook.Lexicon

variable {norm : Text → Text} {V : Type}

/-- Lexicons with the same entries are the same. -/
theorem ext_entries {m n : Lexicon norm V} (h : m.entries = n.entries) : m = n := by
  cases m
  cases n
  simpa using h

@[simp] theorem entries_empty : (∅ : Lexicon norm V).entries = [] := rfl

/-- The keys of a lexicon are those of its entries. -/
theorem map_keys {α : Type} (m : Lexicon norm V) (f : Text → α) :
    m.keys.map f = m.entries.map fun e => f e.1 :=
  List.map_map

/-- The keys of a lexicon have distinct normal forms. -/
theorem nodup_keys (m : Lexicon norm V) : (m.keys.map norm).Nodup :=
  m.map_keys norm ▸ m.distinct

/-- Two entries whose keys have the same normal form are the same. -/
theorem eq_of_mem_of_norm_eq (m : Lexicon norm V) {e e' : Text × V} (he : e ∈ m.entries)
    (he' : e' ∈ m.entries) (h : norm e.1 = norm e'.1) : e = e' :=
  List.inj_on_of_nodup_map m.distinct he he' h

/-- A key is found in the entry that has its normal form. -/
theorem find?_eq_some_iff {m : Lexicon norm V} {key : Text} {e : Text × V} :
    m.find? key = some e ↔ e ∈ m.entries ∧ norm e.1 = norm key := by
  constructor
  · intro h
    exact ⟨List.mem_of_find?_eq_some h, by simpa using List.find?_some h⟩
  · rintro ⟨he, hnorm⟩
    cases hf : m.find? key with
    | none =>
      have := List.find?_eq_none.1 hf e he
      simp [hnorm] at this
    | some e' =>
      have he' : norm e'.1 = norm key := by simpa using List.find?_some hf
      rw [m.eq_of_mem_of_norm_eq he (List.mem_of_find?_eq_some hf) (hnorm.trans he'.symm)]

/-- The value of a key is that of the entry that has its normal form. -/
theorem get?_eq_some_iff {m : Lexicon norm V} {key : Text} {value : V} :
    m.get? key = some value ↔ ∃ k, (k, value) ∈ m.entries ∧ norm k = norm key := by
  simp only [get?, Option.map_eq_some_iff, find?_eq_some_iff]
  constructor
  · rintro ⟨⟨k, v⟩, ⟨hmem, hnorm⟩, rfl⟩
    exact ⟨k, hmem, hnorm⟩
  · rintro ⟨k, hmem, hnorm⟩
    exact ⟨(k, value), ⟨hmem, hnorm⟩, rfl⟩

/-- The value of a key in a map that may be missing is that of the entry that has its normal form. -/
theorem bind_get?_eq_some_iff {m? : Option (Lexicon norm V)} {key : Text} {value : V} :
    m?.bind (·.get? key) = some value ↔
      ∃ k, (k, value) ∈ (m?.map (·.entries)).getD [] ∧ norm k = norm key := by
  cases m? with
  | none => simp
  | some m => exact get?_eq_some_iff

/-- A lexicon is known from its keys in order and the value of each. -/
theorem entries_eq_map {α : Type} {m : Lexicon norm V} {items : List α} {key : α → Text} {value : α → V}
    (hkeys : m.keys = items.map key)
    (hget : ∀ a ∈ items, m.get? (key a) = some (value a)) :
    m.entries = items.map fun a => (key a, value a) := by
  have hinjective : Function.Injective fun e : Text × V => (e.1, some e.2) := by
    rintro ⟨k, v⟩ ⟨k', v'⟩ h
    simpa using h
  refine List.map_injective_iff.2 hinjective ?_
  calc m.entries.map (fun e => (e.1, some e.2))
      = m.entries.map (fun e => (e.1, m.get? e.1)) :=
        List.map_congr_left fun e he => by rw [get?_eq_some_iff.2 ⟨e.1, he, rfl⟩]
    _ = m.keys.map (fun k => (k, m.get? k)) := by rw [map_keys]
    _ = items.map (fun a => (key a, some (value a))) := by
        rw [hkeys, List.map_map]
        exact List.map_congr_left fun a ha => by simp [hget a ha]
    _ = _ := by rw [List.map_map]; rfl

/-- A key without a value has no entry with its normal form. -/
theorem get?_eq_none_iff {m : Lexicon norm V} {key : Text} :
    m.get? key = none ↔ ∀ e ∈ m.entries, norm e.1 ≠ norm key := by
  simp [get?, find?]

/-- A key has an entry exactly when it has a value. -/
theorem contains_eq_isSome (m : Lexicon norm V) (key : Text) :
    m.contains key = (m.get? key).isSome := by
  simp [contains, get?]

/-- A key has an entry exactly when some key has its normal form. -/
theorem contains_iff {m : Lexicon norm V} {key : Text} :
    m.contains key = true ↔ ∃ k ∈ m.keys, norm k = norm key := by
  simp [contains, find?, keys]

/-- The entries with the normal form of a key are the one that is found. -/
theorem filter_entries (m : Lexicon norm V) (key : Text) :
    m.entries.filter (fun e => norm e.1 = norm key) = (m.find? key).toList := by
  cases hf : m.find? key with
  | none =>
    rw [Option.toList_none, List.filter_eq_nil_iff]
    exact List.find?_eq_none.1 hf
  | some e =>
    obtain ⟨he, hnorm⟩ := find?_eq_some_iff.1 hf
    have hall : ∀ e' ∈ m.entries.filter (fun e => norm e.1 = norm key), e' = e := by
      intro e' he'
      obtain ⟨hmem, hn⟩ := List.mem_filter.1 he'
      exact m.eq_of_mem_of_norm_eq hmem he ((of_decide_eq_true hn).trans hnorm.symm)
    have hnodup := (List.Nodup.of_map _ m.distinct).filter fun e => decide (norm e.1 = norm key)
    rw [Option.toList_some, ← List.perm_singleton]
    refine (List.perm_ext_iff_of_nodup hnodup (List.nodup_singleton e)).2 fun e' => ?_
    rw [List.mem_singleton]
    refine ⟨hall e', ?_⟩
    rintro rfl
    exact List.mem_filter.2 ⟨he, decide_eq_true hnorm⟩

/-- Looking up a key depends on its normal form only. -/
theorem get?_congr (m : Lexicon norm V) {k k' : Text} (h : norm k = norm k') :
    m.get? k = m.get? k' := by
  simp [get?, find?, h]

@[simp] theorem get?_empty (key : Text) : (∅ : Lexicon norm V).get? key = none := rfl

/-- What is found after the value of a key is set: a known key keeps its spelling. -/
theorem find?_insert (m : Lexicon norm V) (key key' : Text) (value : V) :
    (m.insert key value).find? key' =
      if norm key = norm key' then some ((m.spelling? key).getD key, value)
      else m.find? key' := by
  suffices ∀ entries : List (Text × V),
      (replace norm key value entries).find? (fun e => norm e.1 = norm key') =
        if norm key = norm key' then
          some (((entries.find? fun e => norm e.1 = norm key).map (·.1)).getD key, value)
        else entries.find? fun e => norm e.1 = norm key' from this m.entries
  intro entries
  induction entries with
  | nil => by_cases h : norm key = norm key' <;> simp [replace, h]
  | cons e rest ih =>
    by_cases hk : norm e.1 = norm key
    · by_cases h : norm key = norm key'
      · simp [replace, hk, h]
      · simp [replace, hk, h]
    · by_cases he : norm e.1 = norm key'
      · have h : norm key ≠ norm key' := fun h => hk (he.trans h.symm)
        simp [replace, he, h, Ne.symm h]
      · simp [replace, hk, he, ih]

/-- Setting the value of a key changes that key's value only. -/
theorem get?_insert (m : Lexicon norm V) (key key' : Text) (value : V) :
    (m.insert key value).get? key' = if norm key = norm key' then some value else m.get? key' := by
  rw [get?, find?_insert]
  split_ifs <;> rfl

/-- After the value of a key is set, that key has an entry, and so have the others that had one. -/
theorem contains_insert (m : Lexicon norm V) (key key' : Text) (value : V) :
    (m.insert key value).contains key' =
      (decide (norm key = norm key') || m.contains key') := by
  rw [contains_eq_isSome, get?_insert, contains_eq_isSome]
  by_cases h : norm key = norm key' <;> simp [h]

/-- Setting the value of a key adds its spelling behind the others when the key is new. -/
theorem keys_insert (m : Lexicon norm V) (key : Text) (value : V) :
    (m.insert key value).keys =
      if norm key ∈ m.keys.map norm then m.keys else m.keys ++ [key] := by
  suffices ∀ entries : List (Text × V), (replace norm key value entries).map (·.1) =
      if norm key ∈ (entries.map (·.1)).map norm then entries.map (·.1)
      else entries.map (·.1) ++ [key] from this m.entries
  intro entries
  induction entries with
  | nil => rfl
  | cons e rest ih =>
    by_cases hk : norm e.1 = norm key
    · simp [replace, hk]
    · rw [replace, if_neg hk, List.map_cons, ih, List.map_cons, List.map_cons]
      simp only [List.mem_cons, Ne.symm hk, false_or]
      split_ifs <;> rfl

/-- Setting the value of a key adds no other spelling. -/
theorem mem_keys_of_mem_keys_insert {m : Lexicon norm V} {key key' : Text} {value : V}
    (h : key' ∈ (m.insert key value).keys) : key' ∈ m.keys ∨ key' = key := by
  rw [keys_insert] at h
  split_ifs at h
  · exact Or.inl h
  · exact (List.mem_append.1 h).imp_right List.mem_singleton.1

/-- Setting the value of a key adds no other value. -/
theorem mem_entries_of_mem_insert {m : Lexicon norm V} {key : Text} {value : V} {e : Text × V}
    (h : e ∈ (m.insert key value).entries) :
    e ∈ m.entries ∨ norm e.1 = norm key ∧ e.2 = value := by
  suffices ∀ entries : List (Text × V), e ∈ replace norm key value entries →
      e ∈ entries ∨ norm e.1 = norm key ∧ e.2 = value from this m.entries h
  intro entries
  induction entries with
  | nil =>
    intro hmem
    obtain rfl := List.mem_singleton.1 hmem
    exact Or.inr ⟨rfl, rfl⟩
  | cons other rest ih =>
    intro hmem
    by_cases hk : norm other.1 = norm key
    · rw [replace, if_pos hk] at hmem
      rcases List.mem_cons.1 hmem with rfl | hrest
      · exact Or.inr ⟨hk, rfl⟩
      · exact Or.inl (List.mem_cons_of_mem _ hrest)
    · rw [replace, if_neg hk] at hmem
      rcases List.mem_cons.1 hmem with rfl | hrest
      · exact Or.inl List.mem_cons_self
      · exact (ih hrest).imp_left (List.mem_cons_of_mem _)

/-- Setting several values adds no other spelling. -/
theorem mem_keys_of_mem_keys_insertAll {m : Lexicon norm V} {pairs : List (Text × V)} {key : Text}
    (h : key ∈ (m.insertAll pairs).keys) : key ∈ m.keys ∨ key ∈ pairs.map (·.1) := by
  induction pairs generalizing m with
  | nil => exact Or.inl h
  | cons p pairs ih =>
    rw [List.map_cons, List.mem_cons]
    rcases ih (m := m.insert p.1 p.2) h with hfirst | hrest
    · exact (mem_keys_of_mem_keys_insert hfirst).imp_right Or.inl
    · exact Or.inr (Or.inr hrest)

/-- Setting several values adds no other value. -/
theorem mem_values_of_mem_values_insertAll {m : Lexicon norm V} {pairs : List (Text × V)}
    {value : V} (h : value ∈ (m.insertAll pairs).values) :
    value ∈ m.values ∨ value ∈ pairs.map (·.2) := by
  induction pairs generalizing m with
  | nil => exact Or.inl h
  | cons p pairs ih =>
    rw [List.map_cons, List.mem_cons]
    rcases ih (m := m.insert p.1 p.2) h with hfirst | hrest
    · obtain ⟨e, he, rfl⟩ := List.mem_map.1 hfirst
      rcases mem_entries_of_mem_insert he with hold | ⟨-, hnew⟩
      · exact Or.inl (List.mem_map_of_mem hold)
      · exact Or.inr (Or.inl hnew)
    · exact Or.inr (Or.inr hrest)

/-- Of pairs that are set one after another, the last one with a key's normal form counts. -/
theorem get?_insertAll (m : Lexicon norm V) (pairs : List (Text × V)) (key : Text) :
    (m.insertAll pairs).get? key =
      ((pairs.filter fun p => norm p.1 = norm key).getLast?.map (·.2)).or (m.get? key) := by
  induction pairs generalizing m with
  | nil => simp [insertAll]
  | cons p pairs ih =>
    have hstep : m.insertAll (p :: pairs) = (m.insert p.1 p.2).insertAll pairs := rfl
    rw [hstep, ih, get?_insert]
    by_cases h : norm p.1 = norm key
    · cases hl : (pairs.filter fun p => norm p.1 = norm key).getLast? with
      | none => simp [h, List.getLast?_eq_none_iff.1 hl]
      | some q => simp [h, List.getLast?_cons, hl]
    · simp [h]

/-- What is found after pairs are set is the value of one of them, or was found before. -/
theorem get?_insertAll_cases {m : Lexicon norm V} {pairs : List (Text × V)} {key : Text} {value : V}
    (h : (m.insertAll pairs).get? key = some value) :
    (∃ p ∈ pairs, norm p.1 = norm key ∧ p.2 = value) ∨ m.get? key = some value := by
  rw [get?_insertAll, Option.or_eq_some_iff] at h
  rcases h with h | ⟨-, h⟩
  · obtain ⟨p, hp, hvalue⟩ := Option.map_eq_some_iff.1 h
    obtain ⟨hmem, hkey⟩ := List.mem_filter.1 (List.mem_of_getLast? hp)
    exact Or.inl ⟨p, hmem, of_decide_eq_true hkey, hvalue⟩
  · exact Or.inr h

/-- After pairs are set, their keys are found, and those that were found before. -/
theorem get?_insertAll_ne_none {m : Lexicon norm V} {pairs : List (Text × V)} {key : Text}
    (h : (∃ p ∈ pairs, norm p.1 = norm key) ∨ m.get? key ≠ none) :
    (m.insertAll pairs).get? key ≠ none := by
  rw [get?_insertAll]
  intro hnone
  obtain ⟨hpairs, hold⟩ := Option.or_eq_none_iff.1 hnone
  rw [Option.map_eq_none_iff, List.getLast?_eq_none_iff, List.filter_eq_nil_iff] at hpairs
  rcases h with ⟨p, hp, hkey⟩ | h
  · exact hpairs p hp (decide_eq_true hkey)
  · exact h hold

/-- Of listed pairs, the last one with a key's normal form counts. -/
theorem get?_ofList (pairs : List (Text × V)) (key : Text) :
    (ofList pairs : Lexicon norm V).get? key =
      (pairs.filter fun p => norm p.1 = norm key).getLast?.map (·.2) := by
  have h := get?_insertAll (∅ : Lexicon norm V) pairs key
  rw [get?_empty, Option.or_none] at h
  exact h

/-- A key with a new normal form comes last. -/
theorem entries_insert_of_new {m : Lexicon norm V} {key : Text} (value : V)
    (h : ∀ e ∈ m.entries, norm e.1 ≠ norm key) :
    (m.insert key value).entries = m.entries ++ [(key, value)] := by
  suffices ∀ entries : List (Text × V), (∀ e ∈ entries, norm e.1 ≠ norm key) →
      replace norm key value entries = entries ++ [(key, value)] from this m.entries h
  intro entries h
  induction entries with
  | nil => rfl
  | cons e rest ih =>
    simp only [List.mem_cons, forall_eq_or_imp] at h
    simp [replace, h.1, ih h.2]

/-- Pairs with distinct new normal forms come behind the entries, in their order. -/
theorem entries_insertAll_of_new {m : Lexicon norm V} {pairs : List (Text × V)}
    (h : ((m.entries ++ pairs).map fun e => norm e.1).Nodup) :
    (m.insertAll pairs).entries = m.entries ++ pairs := by
  induction pairs generalizing m with
  | nil => simp [insertAll]
  | cons p pairs ih =>
    have hnew : ∀ e ∈ m.entries, norm e.1 ≠ norm p.1 := by
      intro e he hn
      rw [List.map_append, List.nodup_append] at h
      exact h.2.2 (norm e.1) (List.mem_map_of_mem he) (norm p.1) (by simp) hn
    have hentries := entries_insert_of_new (m := m) p.2 hnew
    have hstep : m.insertAll (p :: pairs) = (m.insert p.1 p.2).insertAll pairs := rfl
    rw [hstep, ih (by rw [hentries]; simpa using h), hentries, List.append_assoc,
      List.singleton_append]

/-- The entries of a list of pairs with distinct normal forms are these pairs. -/
theorem entries_ofList {pairs : List (Text × V)} (h : (pairs.map fun e => norm e.1).Nodup) :
    (ofList pairs : Lexicon norm V).entries = pairs := by
  have hall := @entries_insertAll_of_new norm V ∅ pairs (by simpa using h)
  exact hall

/-- A lexicon is empty when it is made of no pairs. -/
theorem entries_ofList_eq_nil_iff {pairs : List (Text × V)} :
    (ofList pairs : Lexicon norm V).entries = [] ↔ pairs = [] := by
  constructor
  · intro hnil
    rw [List.eq_nil_iff_forall_not_mem]
    intro p hp
    have hget : (ofList pairs : Lexicon norm V).get? p.1 = none := get?_eq_none_iff.2 (by simp [hnil])
    have hmem : p ∈ pairs.filter fun q => norm q.1 = norm p.1 := by simp [hp]
    rw [get?_ofList, Option.map_eq_none_iff, List.getLast?_eq_none_iff] at hget
    simp [hget] at hmem
  · rintro rfl
    rfl

/-- A lexicon is made of its entries. -/
theorem ofList_entries (m : Lexicon norm V) : ofList m.entries = m :=
  ext_entries (entries_ofList m.distinct)

end Phrasebook.Lexicon
