import Phrasebook.Proofs.Glue.Places
import Phrasebook.Proofs.Glue.Summary
import Phrasebook.Proofs.Key.Union

/-!
# Merging summaries

Whatever a summary is built from, its records are filed under their own keys, with the cap of the
summary and with lists of places that are kept under it. Such a record is taken over by a merge as it
is, and what two records know together does not depend on how three of them are grouped. So the
merges of summaries with one cap are associative in full.
-/

namespace Phrasebook.Glue

namespace Info

/-- A record as a summary files it. -/
structure IsFiled (bound : Int) (filed : Text) (info : Info) : Prop where
  /-- The record bears its key in the spelling under which it is filed. -/
  key : info.key = filed
  /-- It has the cap of the summary. -/
  cap : info.cap = bound
  /-- Its places are kept under the cap. -/
  places : IsCapped bound info.places
  /-- So are its places as a template argument. -/
  templatePlaces : IsCapped bound info.templatePlaces

variable {cap : Int} {key : Text} {info x y : Info}

/-- A fresh record can be filed. -/
theorem isFiled_new (cap : Int) (key : Text) : (new key cap).IsFiled cap key :=
  ⟨rfl, rfl, isCapped_nil cap, isCapped_nil cap⟩

/-- A record with one more place can be filed. -/
theorem IsFiled.addPlace (h : info.IsFiled cap key) (place : Place) :
    (info.addPlace place).IsFiled cap key :=
  ⟨h.key, h.cap, h.cap ▸ (h.cap.symm ▸ h.places).addPlace place, h.templatePlaces⟩

/-- A record with one more place as a template argument can be filed. -/
theorem IsFiled.addTemplatePlace (h : info.IsFiled cap key) (place : Place) :
    (info.addTemplatePlace place).IsFiled cap key :=
  ⟨h.key, h.cap, h.places, h.cap ▸ (h.cap.symm ▸ h.templatePlaces).addPlace place⟩

/-- What two records know together is filed like the first one. -/
theorem IsFiled.merge (h : info.IsFiled cap key) (other : Info) :
    (info.merge other).IsFiled cap key where
  key := h.key
  cap := h.cap
  places := h.cap ▸ (h.cap.symm ▸ h.places).foldl_addPlace other.places
  templatePlaces := h.cap ▸ (h.cap.symm ▸ h.templatePlaces).foldl_addPlace other.templatePlaces

/-- A record of another summary can be filed once its lists are cut. -/
theorem IsFiled.recapped {before : Int} (h : info.IsFiled before key) (cap : Int) :
    (info.recapped cap).IsFiled cap key :=
  ⟨h.key, rfl, h.places.truncate cap, h.templatePlaces.truncate cap⟩

/-- A record with the cap of a summary is taken over as it is. -/
theorem IsFiled.recapped_eq_self (h : info.IsFiled cap key) (hcap : 0 ≤ cap) :
    info.recapped cap = info := by
  obtain ⟨-, rfl, hplaces, htemplates⟩ := h
  rw [Info.recapped, hplaces.truncate_eq_self hcap, htemplates.truncate_eq_self hcap]

/-- What three records know together does not depend on how they are grouped. -/
theorem merge_assoc (hcap : x.cap = y.cap) (hplaces : y.places.Nodup)
    (htemplates : y.templatePlaces.Nodup) (z : Info) :
    (x.merge y).merge z = x.merge (y.merge z) := by
  have hspecifiers : ∀ a b c : List Format.Specifier,
      (if (if a.isEmpty then b else a).isEmpty then c else if a.isEmpty then b else a) =
        if a.isEmpty then if b.isEmpty then c else b else a := by
    intro a b c
    cases a <;> rfl
  unfold merge
  dsimp only
  rw [hspecifiers, Bool.or_assoc, Bool.or_assoc, Nat.add_assoc, ← hcap,
    foldl_addPlace_assoc x.places hplaces, foldl_addPlace_assoc x.templatePlaces htemplates]

end Info

namespace Summary

/-- A summary that is built up step by step: from the scan of a file or from nothing, by new
records, places, specifiers, used keys and merges with other summaries. -/
inductive Built : Summary → Prop where
  /-- Nothing is known yet. -/
  | empty (cap : Int) : Built (empty cap)
  /-- A file is scanned. -/
  | scanned (patterns : Patterns) (cap : Int) (path : Text) (lines : List Text) :
      Built (ofLines patterns cap path lines)
  /-- A key gets a record, unless it has one. -/
  | filed {s : Summary} (h : Built s) (key : Text) : Built (s.update key id)
  /-- The record of a key takes in a place. -/
  | placed {s : Summary} (h : Built s) (key : Text) (place : Place) :
      Built (s.update key (·.addPlace place))
  /-- The record of a key takes in a place as a template argument. -/
  | placedAsTemplate {s : Summary} (h : Built s) (key : Text) (place : Place) :
      Built (s.update key (·.addTemplatePlace place))
  /-- Specifiers are attached to the known keys. -/
  | attached {s : Summary} (h : Built s) (specifiers : KeyMap (List Format.Specifier)) :
      Built (s.attach specifiers)
  /-- Keys that locale files use are added. -/
  | referenced {s : Summary} (h : Built s) (keys : List Text) : Built (s.addReferenced keys)
  /-- Another summary is merged. -/
  | merged {s other : Summary} (h : Built s) (hother : Built other) : Built (s.merge other)

/-- Every record is filed under its key with the cap of the summary. -/
def IsSound (s : Summary) : Prop :=
  ∀ e ∈ s.infos.entries, e.2.IsFiled s.cap e.1

variable {s other : Summary} {key : Text}

/-- A set value is filed under the spelling that its key has already, if it has one. -/
theorem eq_of_mem_insert {V : Type} {m : KeyMap V} {value : V} {e : Text × V}
    (h : e ∈ (m.insert key value).entries) :
    e ∈ m.entries ∨ e = ((m.spelling? key).getD key, value) := by
  suffices ∀ entries : List (Text × V), e ∈ Lexicon.replace Text.fold key value entries →
      e ∈ entries ∨ e = (((entries.find? fun e => Text.fold e.1 = Text.fold key).map
        (·.1)).getD key, value) from this m.entries h
  intro entries
  induction entries with
  | nil =>
    intro hmem
    exact Or.inr (List.mem_singleton.1 hmem)
  | cons first rest ih =>
    intro hmem
    by_cases hk : Text.fold first.1 = Text.fold key
    · rw [Lexicon.replace, if_pos hk] at hmem
      rcases List.mem_cons.1 hmem with rfl | hrest
      · exact Or.inr (by simp [hk])
      · exact Or.inl (List.mem_cons_of_mem _ hrest)
    · rw [Lexicon.replace, if_neg hk] at hmem
      rcases List.mem_cons.1 hmem with rfl | hrest
      · exact Or.inl List.mem_cons_self
      · rcases ih hrest with hold | rfl
        · exact Or.inl (List.mem_cons_of_mem _ hold)
        · exact Or.inr (by simp [hk])

/-- Setting a record that can be filed under the spelling of its key keeps all records filed. -/
theorem IsSound.insert (h : s.IsSound) {info : Info}
    (hinfo : info.IsFiled s.cap ((s.infos.spelling? key).getD key)) :
    IsSound { s with infos := s.infos.insert key info } := by
  intro e he
  rcases eq_of_mem_insert he with hold | rfl
  · exact h e hold
  · exact hinfo

/-- The record of a key is filed under the spelling that the key has. -/
theorem IsSound.isFiled_getOrNew (h : s.IsSound) (key : Text) :
    (s.getOrNew key).IsFiled s.cap ((s.infos.spelling? key).getD key) := by
  unfold getOrNew get? Lexicon.get? Lexicon.spelling?
  cases hfind : s.infos.find? key with
  | none => exact Info.isFiled_new s.cap key
  | some e => exact h e (Lexicon.find?_eq_some_iff.1 hfind).1

/-- A change that leaves records filed leaves the summary sound. -/
theorem IsSound.update (h : s.IsSound) (key : Text) {change : Info → Info}
    (hchange : ∀ {k info}, Info.IsFiled s.cap k info → (change info).IsFiled s.cap k) :
    (s.update key change).IsSound :=
  h.insert (hchange (h.isFiled_getOrNew key))

/-- One more reference leaves a record filed. -/
theorem isFiled_addReference {cap : Int} {info : Info} (h : info.IsFiled cap key) (path : Text)
    (line : Nat) (isFirst : Bool) (reference : Reference) :
    (addReference path line isFirst reference info).IsFiled cap key := by
  have hcounted : Info.IsFiled cap key { info with count := info.count + 1 } :=
    ⟨h.key, h.cap, h.places, h.templatePlaces⟩
  have hjoined : ∀ {i : Info}, i.IsFiled cap key →
      (if reference.isJoined then { i.addPlace ⟨path, line⟩ with isJoined := true } else i).IsFiled
        cap key := by
    intro i hi
    have hadded := hi.addPlace ⟨path, line⟩
    split
    · exact ⟨hadded.key, hadded.cap, hadded.places, hadded.templatePlaces⟩
    · exact hi
  have htemplate : ∀ {i : Info}, i.IsFiled cap key →
      (if reference.isTemplate then { i.addTemplatePlace ⟨path, line⟩ with isTemplate := true }
        else i).IsFiled cap key := by
    intro i hi
    have hadded := hi.addTemplatePlace ⟨path, line⟩
    split
    · exact ⟨hadded.key, hadded.cap, hadded.places, hadded.templatePlaces⟩
    · exact hi
  have hall := htemplate (hjoined hcounted)
  unfold addReference
  dsimp only
  split
  · exact hall.addPlace ⟨path, 0⟩
  · exact hall

/-- The summary of a file is sound. -/
theorem isSound_ofLines (patterns : Patterns) (cap : Int) (path : Text) (lines : List Text) :
    (ofLines patterns cap path lines).IsSound := by
  suffices ∀ (found : List (Nat × Reference)) (s : Summary), s.IsSound →
      (found.foldl (addFound path) s).IsSound from
    this _ _ fun e he => absurd he List.not_mem_nil
  intro found
  induction found with
  | nil => exact fun s hs => hs
  | cons f found ih =>
    exact fun s hs => ih _ (hs.update _ fun h => isFiled_addReference h path _ _ _)

/-- A change of a known record that leaves records filed leaves the summary sound. -/
theorem IsSound.modify (h : s.IsSound) (key : Text) {change : Info → Info}
    (hchange : ∀ {k info}, Info.IsFiled s.cap k info → (change info).IsFiled s.cap k) :
    IsSound { s with infos := s.infos.modify key change } := by
  unfold Lexicon.modify
  cases hget : s.infos.get? key with
  | none => exact h
  | some info =>
    have hfiled := h.isFiled_getOrNew key
    have hrecord : s.getOrNew key = info := by simp [getOrNew, get?, hget]
    rw [hrecord] at hfiled
    exact h.insert (hchange hfiled)

/-- Attached specifiers leave a summary sound. -/
theorem IsSound.attach (h : s.IsSound) (specifiers : KeyMap (List Format.Specifier)) :
    (s.attach specifiers).IsSound := by
  suffices ∀ (entries : List (Text × List Format.Specifier)) (s : Summary), s.IsSound →
      IsSound { s with infos := entries.foldl (fun infos entry =>
        infos.modify entry.1 fun info => { info with specifiers := entry.2 }) s.infos } from
    this specifiers.entries s h
  intro entries
  induction entries with
  | nil => exact fun s hs => hs
  | cons entry entries ih =>
    intro s hs
    have hattached : ∀ {k info}, Info.IsFiled s.cap k info →
        Info.IsFiled s.cap k { info with specifiers := entry.2 } :=
      fun h => ⟨h.key, h.cap, h.places, h.templatePlaces⟩
    exact ih _ (hs.modify entry.1 hattached)

/-- Taking over the record of another summary leaves a summary sound. -/
theorem IsSound.mergeInfo (h : s.IsSound) {cap : Int} {info : Info}
    (hinfo : info.IsFiled cap key) : (s.mergeInfo info).IsSound := by
  refine h.insert ?_
  have hfiled := h.isFiled_getOrNew info.key
  unfold getOrNew at hfiled
  cases hget : s.get? info.key with
  | none =>
    have hnone : s.infos.find? info.key = none := Option.map_eq_none_iff.1 hget
    rw [Lexicon.spelling?, hnone]
    exact hinfo.key ▸ hinfo.recapped s.cap
  | some known =>
    rw [hget] at hfiled
    exact hfiled.merge info

/-- A merge with a sound summary leaves a summary sound. -/
theorem IsSound.merge (h : s.IsSound) (hother : other.IsSound) : (s.merge other).IsSound := by
  suffices ∀ (infos : List Info) (s : Summary), s.IsSound →
      (∀ info ∈ infos, ∃ key, info.IsFiled other.cap key) →
        (infos.foldl Summary.mergeInfo s).IsSound by
    refine this other.all s h fun info hinfo => ?_
    obtain ⟨e, he, rfl⟩ := List.mem_map.1 hinfo
    exact ⟨e.1, hother e he⟩
  intro infos
  induction infos with
  | nil => exact fun s hs _ => hs
  | cons info infos ih =>
    intro s hs hinfos
    obtain ⟨key, hinfo⟩ := hinfos info List.mem_cons_self
    exact ih _ (hs.mergeInfo hinfo) fun i hi => hinfos i (List.mem_cons_of_mem _ hi)

/-- Every summary that can be built is sound. -/
theorem Built.isSound (h : Built s) : s.IsSound := by
  induction h with
  | empty cap => exact fun e he => absurd he List.not_mem_nil
  | scanned patterns cap path lines => exact isSound_ofLines patterns cap path lines
  | filed _ key ih => exact ih.update key fun h => h
  | placed _ key place ih => exact ih.update key fun h => h.addPlace place
  | placedAsTemplate _ key place ih => exact ih.update key fun h => h.addTemplatePlace place
  | attached _ specifiers ih => exact ih.attach specifiers
  | referenced _ _ ih => exact ih
  | merged _ _ ih ihother => exact ih.merge ihother

/-- What a merge knows about a key: what both summaries know together, or what one of them knows. -/
def mergedInfo (cap : Int) (known other : Option Info) : Option Info :=
  match known, other with
  | known, none => known
  | none, some info => some (info.recapped cap)
  | some known, some info => some (known.merge info)

/-- A merge has the cap of the first summary. -/
theorem cap_merge (s other : Summary) : (s.merge other).cap = s.cap := by
  suffices ∀ (infos : List Info) (s : Summary), (infos.foldl mergeInfo s).cap = s.cap from
    this other.all s
  intro infos
  induction infos with
  | nil => exact fun _ => rfl
  | cons info infos ih => exact fun s => ih (s.mergeInfo info)

/-- A merge leaves the used keys to the union. -/
theorem referenced_merge (s other : Summary) :
    (s.merge other).referenced = s.referenced.union other.referenced := by
  suffices ∀ (infos : List Info) (s : Summary),
      (infos.foldl mergeInfo s).referenced = s.referenced by
    unfold merge
    dsimp only
    rw [this]
    rfl
  intro infos
  induction infos with
  | nil => exact fun _ => rfl
  | cons info infos ih => exact fun s => ih (s.mergeInfo info)

/-- The records of a sound summary bear the keys of the summary. -/
theorem IsSound.map_key (h : other.IsSound) : other.all.map (·.key) = other.infos.keys := by
  rw [all, Lexicon.values, List.map_map]
  exact List.map_congr_left fun e he => (h e he).key

/-- A merge has the keys of the first summary and behind them the new ones of the second. -/
theorem keySet_merge (s : Summary) (hother : other.IsSound) :
    (s.merge other).infos.keySet = s.infos.keySet.union other.infos.keySet := by
  suffices ∀ (infos : List Info) (s : Summary),
      (infos.foldl mergeInfo s).infos.keySet = s.infos.keySet.insertAll (infos.map (·.key)) from
    (this other.all s).trans (by rw [hother.map_key]; rfl)
  intro infos
  induction infos with
  | nil => exact fun _ => rfl
  | cons info infos ih =>
    intro s
    rw [List.foldl_cons, ih, mergeInfo, Lexicon.keySet_insert]
    rfl

/-- What a merge knows about a key depends on what both summaries know about it. -/
theorem get?_merge (s : Summary) (hother : other.IsSound) (key : Text) :
    (s.merge other).get? key = mergedInfo s.cap (s.get? key) (other.get? key) := by
  have hkeyed : ∀ e ∈ other.infos.entries, e.2.key = e.1 := fun e he => (hother e he).key
  have hdistinct := other.infos.distinct
  suffices ∀ (entries : List (Text × Info)) (s : Summary), (∀ e ∈ entries, e.2.key = e.1) →
      (entries.map fun e => Text.fold e.1).Nodup →
        ((entries.map (·.2)).foldl mergeInfo s).get? key = mergedInfo s.cap (s.get? key)
          ((entries.find? fun e => Text.fold e.1 = Text.fold key).map (·.2)) from
    this other.infos.entries s hkeyed hdistinct
  clear hkeyed hdistinct
  intro entries
  induction entries with
  | nil => exact fun s _ _ => by simp [mergedInfo]
  | cons e entries ih =>
    intro s hkeyed hdistinct
    obtain ⟨hnew, hrest⟩ := List.nodup_cons.1 hdistinct
    have hstep : (s.mergeInfo e.2).get? key = if Text.fold e.2.key = Text.fold key then
        mergedInfo s.cap (s.get? e.2.key) (some e.2) else s.get? key := by
      rw [mergeInfo]
      refine (Lexicon.get?_insert _ _ _ _).trans ?_
      cases s.get? e.2.key <;> rfl
    rw [List.map_cons, List.foldl_cons, ih _ (fun e' he' => hkeyed e' (List.mem_cons_of_mem _ he'))
      hrest, hstep, hkeyed e List.mem_cons_self]
    by_cases hk : Text.fold e.1 = Text.fold key
    · -- The rest of the list has no record of the key.
      have hnone : entries.find? (fun e' => Text.fold e'.1 = Text.fold key) = none := by
        refine List.find?_eq_none.2 fun e' he' hk' => hnew (List.mem_map.2 ⟨e', he', ?_⟩)
        exact (of_decide_eq_true hk').trans hk.symm
      have hsame : s.get? e.1 = s.get? key := Lexicon.get?_congr s.infos hk
      rw [if_pos hk, hnone, List.find?_cons_of_pos (by simpa using hk), hsame]
      cases s.get? key <;> rfl
    · rw [if_neg hk, List.find?_cons_of_neg (by simpa using hk)]
      rfl

/-- Summaries are the same when their caps, records and used keys are. -/
theorem ext_parts {s t : Summary} (hcap : s.cap = t.cap) (hinfos : s.infos = t.infos)
    (hreferenced : s.referenced = t.referenced) : s = t := by
  cases s
  cases t
  simp_all

/-- A record that is found in a sound summary is filed there. -/
theorem IsSound.exists_isFiled (h : s.IsSound) {info : Info} (hinfo : s.get? key = some info) :
    ∃ k, info.IsFiled s.cap k := by
  obtain ⟨k, hmem, -⟩ := Lexicon.get?_eq_some_iff.1 hinfo
  exact ⟨k, h _ hmem⟩

/-- A summary is merged into nothing as it is. -/
theorem empty_merge (h : s.IsSound) (hcap : 0 ≤ s.cap) : (empty s.cap).merge s = s := by
  have hkeys : ((empty s.cap).merge s).infos.keySet = s.infos.keySet :=
    (keySet_merge _ h).trans (KeySet.empty_union _)
  refine ext_parts (cap_merge _ _) (Lexicon.ext_get? (congrArg KeySet.keys hkeys) fun key => ?_)
    ((referenced_merge _ _).trans (KeySet.empty_union _))
  refine (get?_merge _ h key).trans ?_
  change mergedInfo s.cap none (s.get? key) = s.get? key
  cases hget : s.get? key with
  | none => rfl
  | some info =>
    obtain ⟨k, hfiled⟩ := h.exists_isFiled hget
    exact congrArg some (hfiled.recapped_eq_self hcap)

/-- What is known about a key does not depend on how three summaries with one cap are grouped. -/
theorem mergedInfo_assoc {cap : Int} (hcap : 0 ≤ cap) {x y z : Option Info}
    (hx : ∀ info ∈ x, ∃ k, Info.IsFiled cap k info) (hy : ∀ info ∈ y, ∃ k, Info.IsFiled cap k info)
    (hz : ∀ info ∈ z, ∃ k, Info.IsFiled cap k info) :
    mergedInfo cap (mergedInfo cap x y) z = mergedInfo cap x (mergedInfo cap y z) := by
  cases z with
  | none => rfl
  | some z =>
    obtain ⟨kz, hz⟩ := hz z rfl
    cases y with
    | none =>
      simp only [mergedInfo, hz.recapped_eq_self hcap]
    | some y =>
      obtain ⟨ky, hy⟩ := hy y rfl
      cases x with
      | none => simp only [mergedInfo, hy.recapped_eq_self hcap, (hy.merge z).recapped_eq_self hcap]
      | some x =>
        obtain ⟨kx, hx⟩ := hx x rfl
        exact congrArg some (Info.merge_assoc (hx.cap.trans hy.cap.symm) hy.places.nodup
          hy.templatePlaces.nodup z)

/-- Merges of sound summaries with one cap are associative. -/
theorem merge_assoc {a b c : Summary} (ha : a.IsSound) (hb : b.IsSound) (hc : c.IsSound)
    (hcap : 0 ≤ a.cap) (hba : b.cap = a.cap) (hca : c.cap = a.cap) :
    (a.merge b).merge c = a.merge (b.merge c) := by
  have hbc := hb.merge hc
  refine ext_parts (by simp only [cap_merge]) (Lexicon.ext_get? ?_ fun key => ?_)
    (by simp only [referenced_merge, KeySet.union_assoc])
  · refine congrArg KeySet.keys (show ((a.merge b).merge c).infos.keySet =
      (a.merge (b.merge c)).infos.keySet from ?_)
    rw [keySet_merge _ hc, keySet_merge _ hb, keySet_merge _ hbc, keySet_merge _ hc,
      KeySet.union_assoc]
  · refine ((get?_merge _ hc key).trans ?_).trans (get?_merge a hbc key).symm
    rw [cap_merge, get?_merge a hb, get?_merge b hc, hba]
    exact mergedInfo_assoc hcap (fun info hinfo => ha.exists_isFiled hinfo)
      (fun info hinfo => hba ▸ hb.exists_isFiled hinfo)
      fun info hinfo => hca ▸ hc.exists_isFiled hinfo

/-- Two sound summaries are merged by merging the second into the first. -/
theorem mergeAll_pair {a b : Summary} (ha : a.IsSound) (hcap : 0 ≤ a.cap) :
    mergeAll [a, b] = a.merge b := by
  change ((empty a.cap).merge a).merge b = a.merge b
  rw [empty_merge ha hcap]

/-- Summaries with one cap that is not negative, however they were built, are merged to the same
summary whether the first two or the last two are merged first: with the same keys in the same order
and spelling, the same records and the same used keys. -/
theorem mergeAll_assoc {a b c : Summary} {cap : Nat} (ha : Built a) (hb : Built b) (hc : Built c)
    (hacap : a.cap = cap) (hbcap : b.cap = cap) (hccap : c.cap = cap) :
    mergeAll [mergeAll [a, b], c] = mergeAll [a, mergeAll [b, c]] := by
  have hcap : 0 ≤ a.cap := by omega
  rw [mergeAll_pair hb.isSound (by omega), mergeAll_pair ha.isSound hcap,
    mergeAll_pair ha.isSound hcap,
    mergeAll_pair (ha.isSound.merge hb.isSound) (by rw [cap_merge]; exact hcap)]
  exact merge_assoc ha.isSound hb.isSound hc.isSound hcap (by omega) (by omega)

/-- Three files look up one key in different spellings, with one place to be kept of each kind. -/
theorem mergeAll_assoc_of_cap_one :
    let patterns : Patterns := ⟨"L".toList, ["format".toList]⟩
    let scan (path line : Text) := ofLines patterns 1 path [line]
    let a := scan "a.lua".toList "print(L[\"Name\"])".toList
    let b := scan "b.lua".toList "format(L[\"NAME\"], L[\"Old\" .. n])".toList
    let c := (scan "c.lua".toList "format(L[\"old\"], L[\"name\" .. n])".toList).addReferenced
      ["Used".toList]
    (Built a ∧ Built b ∧ Built c ∧ a.cap = (1 : Nat) ∧ b.cap = (1 : Nat) ∧ c.cap = (1 : Nat)) ∧
      mergeAll [mergeAll [a, b], c] = mergeAll [a, mergeAll [b, c]] ∧
      (mergeAll [a, mergeAll [b, c]]).infos.keys = ["Name".toList, "Old".toList] := by
  intro patterns scan a b c
  have ha : Built a := .scanned ..
  have hb : Built b := .scanned ..
  have hc : Built c := .referenced (.scanned ..) _
  have hacap : a.cap = (1 : Nat) := by decide +kernel
  have hbcap : b.cap = (1 : Nat) := by decide +kernel
  have hccap : c.cap = (1 : Nat) := by decide +kernel
  exact ⟨⟨ha, hb, hc, hacap, hbcap, hccap⟩, mergeAll_assoc ha hb hc hacap hbcap hccap,
    by decide +kernel⟩

end Summary

end Phrasebook.Glue
