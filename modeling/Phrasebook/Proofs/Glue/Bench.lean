import Mathlib.Algebra.GroupWithZero.Nat
import Phrasebook.Proofs.Glue.Merging

/-!
# Working on several summaries

Summaries are begun, scanned, filled and merged into one another, in any order and with caps of
their own. Whatever is done, the records of each of them have its cap, and keep no place twice and no
more places than the cap allows. A merge adds up what both summaries count.
-/

namespace Phrasebook

/-- Setting a value takes its measure in the place of that of the value that the key had. -/
theorem Lexicon.sum_values_insert {norm : Text → Text} {V : Type} (m : Lexicon norm V) (key : Text)
    (value : V) (measure : V → Nat) :
    ((m.insert key value).values.map measure).sum + ((m.get? key).map measure).getD 0 =
      (m.values.map measure).sum + measure value := by
  suffices ∀ entries : List (Text × V),
      (((replace norm key value entries).map (·.2)).map measure).sum +
          (((entries.find? fun e => norm e.1 = norm key).map (·.2)).map measure).getD 0 =
        ((entries.map (·.2)).map measure).sum + measure value from this m.entries
  intro entries
  induction entries with
  | nil => simp [replace]
  | cons e rest ih =>
    by_cases hk : norm e.1 = norm key
    · simp only [replace, hk, if_true, List.find?_cons_of_pos, decide_true, List.map_cons,
        List.sum_cons, Option.map_some, Option.getD_some]
      omega
    · rw [replace, if_neg hk, List.find?_cons_of_neg (by simpa using hk)]
      simp only [List.map_cons, List.sum_cons]
      omega

namespace Glue.Summary

variable {s : Summary}

/-! ### Counts -/

/-- The number of all references is the sum over the records. -/
theorem total_eq_sum (s : Summary) : s.total = (s.all.map (·.count)).sum :=
  List.sum_eq_foldl.symm

/-- A record that is taken over adds its references. -/
theorem total_mergeInfo (s : Summary) (info : Info) :
    (s.mergeInfo info).total = s.total + info.count := by
  have hinsert := fun value => s.infos.sum_values_insert info.key value (·.count)
  rw [total_eq_sum, total_eq_sum, mergeInfo, all, all]
  cases hget : s.get? info.key with
  | none =>
    have hadded := hinsert (info.recapped s.cap)
    rw [show s.infos.get? info.key = none from hget] at hadded
    exact hadded
  | some known =>
    have hadded := hinsert (known.merge info)
    have hcount : (known.merge info).count = known.count + info.count := rfl
    rw [show s.infos.get? info.key = some known from hget, Option.map_some, Option.getD_some]
      at hadded
    dsimp only at hadded ⊢
    omega

/-- A merge has the references of both summaries, also when a summary is merged into itself. -/
theorem total_merge (s other : Summary) : (s.merge other).total = s.total + other.total := by
  suffices ∀ (infos : List Info) (s : Summary),
      (infos.foldl mergeInfo s).total = s.total + (infos.map (·.count)).sum from
    (this other.all s).trans (by rw [total_eq_sum other])
  intro infos
  induction infos with
  | nil => exact fun _ => rfl
  | cons info infos ih =>
    intro s
    rw [List.foldl_cons, ih, total_mergeInfo, List.map_cons, List.sum_cons, Nat.add_assoc]

/-! ### Records -/

/-- What holds of the records of a summary with a cap that is not negative. -/
structure IsOrderly (s : Summary) : Prop where
  /-- Every record has the cap of the summary. -/
  cap : ∀ info ∈ s.all, info.cap = s.cap
  /-- No record has a place twice, or more places than the cap allows. -/
  places : ∀ info ∈ s.all, info.places.Nodup ∧ info.places.length ≤ s.cap
  /-- The same is true of the places of template arguments. -/
  templatePlaces : ∀ info ∈ s.all,
    info.templatePlaces.Nodup ∧ info.templatePlaces.length ≤ s.cap
  /-- No two records have keys that differ only in case. -/
  keys : (s.all.map fun info => Text.fold info.key).Nodup
  /-- Every record is listed once, with those of the keys that are joined or with the others. -/
  views : (s.joined ++ s.plain).Perm s.all ∧ s.joined.Disjoint s.plain

/-- Records that are filed as they should be are orderly. -/
theorem IsSound.isOrderly (h : s.IsSound) (hcap : 0 ≤ s.cap) : s.IsOrderly where
  cap info hinfo := by
    obtain ⟨e, he, rfl⟩ := List.mem_map.1 hinfo
    exact (h e he).cap
  places info hinfo := by
    obtain ⟨e, he, rfl⟩ := List.mem_map.1 hinfo
    exact ⟨(h e he).places.nodup, (h e he).places.length_le hcap⟩
  templatePlaces info hinfo := by
    obtain ⟨e, he, rfl⟩ := List.mem_map.1 hinfo
    exact ⟨(h e he).templatePlaces.nodup, (h e he).templatePlaces.length_le hcap⟩
  keys := by
    have hkeys : s.all.map (fun info => Text.fold info.key) = s.infos.keys.map Text.fold := by
      rw [← h.map_key, List.map_map]
      rfl
    rw [hkeys]
    exact s.infos.nodup_keys
  views := by
    refine ⟨List.filter_append_perm _ _, fun info hjoined hplain => ?_⟩
    have htrue := (List.mem_filter.1 hjoined).2
    have hfalse := (List.mem_filter.1 hplain).2
    simp [htrue] at hfalse

/-- The summary of several is built when each of them is. -/
theorem Built.mergeAll {summaries : List Summary} (h : ∀ s ∈ summaries, Built s) :
    Built (mergeAll summaries) := by
  suffices ∀ (rest : List Summary) (s : Summary), Built s → (∀ s ∈ rest, Built s) →
      Built (rest.foldl Summary.merge s) from this summaries _ (.empty _) h
  intro rest
  induction rest with
  | nil => exact fun s hs _ => hs
  | cons next rest ih =>
    intro s hs hrest
    exact ih _ (hs.merged (hrest next List.mem_cons_self)) fun s' hs' =>
      hrest s' (List.mem_cons_of_mem _ hs')

/-- The summary of several has the cap of the first one. -/
theorem cap_mergeAll (summaries : List Summary) :
    (mergeAll summaries).cap = (summaries.head?.map (·.cap)).getD defaultCap := by
  suffices ∀ (rest : List Summary) (s : Summary), (rest.foldl merge s).cap = s.cap from
    this summaries _
  intro rest
  induction rest with
  | nil => exact fun _ => rfl
  | cons next rest ih => exact fun s => (ih (s.merge next)).trans (cap_merge s next)

/-- References leave the cap of a summary. -/
theorem cap_foldl_addFound (path : Text) (s : Summary) (found : List (Nat × Reference)) :
    (found.foldl (addFound path) s).cap = s.cap := by
  induction found generalizing s with
  | nil => rfl
  | cons f found ih => exact ih (s.addFound path f)

/-! ### Runs of calls -/

/-- A call on the summaries at hand. A summary is named by its number, and a new one comes last; a
number without a summary names nothing. -/
inductive Call where
  /-- Begin a summary. -/
  | new (cap : Nat)
  /-- Scan the lines of a file. -/
  | scan (patterns : Patterns) (cap : Nat) (path : Text) (lines : List Text)
  /-- Get the record of a key, which is made first when there is none. -/
  | file (number : Nat) (key : Text)
  /-- Let the record of a key take in a place. -/
  | place (number : Nat) (key : Text) (place : Place)
  /-- Let the record of a key take in a place as a template argument. -/
  | placeAsTemplate (number : Nat) (key : Text) (place : Place)
  /-- Merge the second summary into the first one. -/
  | merge (number other : Nat)
  /-- Merge several summaries into a new one. -/
  | mergeAll (numbers : List Nat)
  /-- Attach specifiers to the known keys. -/
  | attach (number : Nat) (specifiers : KeyMap (List Format.Specifier))
  /-- Add keys that locale files use. -/
  | refer (number : Nat) (keys : List Text)

/-- The summaries after a call. -/
def perform (bench : List Summary) : Call → List Summary
  | .new cap => bench ++ [empty cap]
  | .scan patterns cap path lines => bench ++ [ofLines patterns cap path lines]
  | .file number key => bench.modify number (·.update key id)
  | .place number key place => bench.modify number (·.update key (·.addPlace place))
  | .placeAsTemplate number key place =>
    bench.modify number (·.update key (·.addTemplatePlace place))
  | .merge number other => bench.modify number fun s => (bench[other]?).elim s s.merge
  | .mergeAll numbers => bench ++ [.mergeAll (numbers.filterMap (bench[·]?))]
  | .attach number specifiers => bench.modify number (·.attach specifiers)
  | .refer number keys => bench.modify number (·.addReferenced keys)

/-- The summaries after calls, one after another, that begin with none. -/
def run (calls : List Call) : List Summary :=
  calls.foldl perform []

/-- Every summary at hand is built, with a cap that is not negative. -/
def AllBuilt (bench : List Summary) : Prop :=
  ∀ s ∈ bench, Built s ∧ 0 ≤ s.cap

variable {bench : List Summary}

/-- A new summary is one more. -/
theorem AllBuilt.concat (h : AllBuilt bench) {new : Summary} (hnew : Built new)
    (hcap : 0 ≤ new.cap) : AllBuilt (bench ++ [new]) := by
  intro s hs
  rcases List.mem_append.1 hs with hs | hs
  · exact h s hs
  · obtain rfl := List.mem_singleton.1 hs
    exact ⟨hnew, hcap⟩

/-- A summary is changed in a way that builds it further and leaves its cap. -/
theorem AllBuilt.modify (h : AllBuilt bench) (number : Nat) {change : Summary → Summary}
    (hchange : ∀ s, Built s → Built (change s) ∧ (change s).cap = s.cap) :
    AllBuilt (bench.modify number change) := by
  intro s hs
  obtain ⟨i, hi⟩ := List.mem_iff_getElem?.1 hs
  rw [List.getElem?_modify] at hi
  obtain ⟨old, hold, rfl⟩ := Option.map_eq_some_iff.1 hi
  obtain ⟨hbuilt, hcap⟩ := h old (List.mem_of_getElem? hold)
  split
  · obtain ⟨hbuilt', hcap'⟩ := hchange old hbuilt
    exact ⟨hbuilt', by omega⟩
  · exact ⟨hbuilt, hcap⟩

/-- A call leaves summaries that are built. -/
theorem AllBuilt.perform (h : AllBuilt bench) (call : Call) : AllBuilt (perform bench call) := by
  cases call with
  | new cap => exact h.concat (.empty _) (Int.natCast_nonneg cap)
  | scan patterns cap path lines =>
    have hscanned : Built (ofLines patterns cap path lines) := .scanned ..
    exact h.concat hscanned ((cap_foldl_addFound _ _ _).symm ▸ Int.natCast_nonneg cap)
  | file number key => exact h.modify number fun s hs => ⟨hs.filed key, rfl⟩
  | place number key place => exact h.modify number fun s hs => ⟨hs.placed key place, rfl⟩
  | placeAsTemplate number key place =>
    exact h.modify number fun s hs => ⟨hs.placedAsTemplate key place, rfl⟩
  | merge number other =>
    refine h.modify number fun s hs => ?_
    cases hother : bench[other]? with
    | none => exact ⟨hs, rfl⟩
    | some t => exact ⟨hs.merged (h t (List.mem_of_getElem? hother)).1, cap_merge s t⟩
  | mergeAll numbers =>
    have hnamed : ∀ s ∈ numbers.filterMap (bench[·]?), Built s ∧ 0 ≤ s.cap := by
      intro s hs
      obtain ⟨i, -, hi⟩ := List.mem_filterMap.1 hs
      exact h s (List.mem_of_getElem? hi)
    refine h.concat (Built.mergeAll fun s hs => (hnamed s hs).1) ?_
    rw [cap_mergeAll]
    cases hhead : (numbers.filterMap (bench[·]?)).head? with
    | none => decide
    | some s => exact (hnamed s (List.mem_of_head? hhead)).2
  | attach number specifiers =>
    exact h.modify number fun s hs => ⟨hs.attached specifiers, rfl⟩
  | refer number keys => exact h.modify number fun s hs => ⟨hs.referenced keys, rfl⟩

/-- Any calls leave summaries that are built. -/
theorem allBuilt_run (calls : List Call) : AllBuilt (run calls) := by
  suffices ∀ bench, AllBuilt bench → AllBuilt (calls.foldl perform bench) from
    this [] fun s hs => absurd hs List.not_mem_nil
  induction calls with
  | nil => exact fun bench h => h
  | cons call calls ih => exact fun bench h => ih _ (h.perform call)

/-- Every summary that any calls leave is orderly, whatever caps the others have that were merged
into it, and when one of the summaries is merged into another one, or into itself, their counts are
added. -/
theorem run_keeps_orderly (calls : List Call) :
    (∀ s ∈ run calls, s.IsOrderly) ∧
      ∀ s ∈ run calls, ∀ other ∈ run calls, (s.merge other).total = s.total + other.total := by
  refine ⟨fun s hs => ?_, fun s _ other _ => total_merge s other⟩
  obtain ⟨hbuilt, hcap⟩ := allBuilt_run calls s hs
  exact hbuilt.isSound.isOrderly hcap

/-- A file is scanned with room for two places of each kind, and what was found is merged into a
summary with room for one. The summary of both has the cap of the one that comes first. -/
theorem run_keeps_orderly_of_two_caps :
    let patterns : Patterns := ⟨"L".toList, ["format".toList]⟩
    let lines := ["format(L[\"Name\"])".toList, "print(L[\"NAME\" .. n])".toList,
      "print(L[\"name\" .. n])".toList]
    let calls : List Call := [.scan patterns 2 "a.lua".toList lines, .new 1,
      .place 1 "name".toList ⟨"b.lua".toList, 7⟩, .merge 1 0, .mergeAll [1, 0]]
    (∀ s ∈ run calls, s.IsOrderly) ∧ (run calls).map (·.cap) = [2, 1, 1] ∧
      (run calls).map (·.total) = [3, 3, 6] ∧
      (run calls).map (·.all.map (·.places.length)) = [[2], [1], [1]] := by
  intro patterns lines calls
  exact ⟨(run_keeps_orderly calls).1, by decide +kernel, by decide +kernel, by decide +kernel⟩

end Glue.Summary

end Phrasebook
