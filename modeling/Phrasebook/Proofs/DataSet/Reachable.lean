import Mathlib.Algebra.Order.Field.Rat
import Mathlib.Logic.Relation
import Mathlib.Tactic.FieldSimp
import Mathlib.Tactic.Linarith
import Mathlib.Tactic.Positivity
import Phrasebook.Proofs.Key.Operation
import Phrasebook.Proofs.Key.Union
import Phrasebook.Proofs.Translation.Update

/-!
# What every data set keeps

A data set that is made from the empty one, by whatever is done to data sets, lists the duplicates of
exactly the loaded locales and knows every key of theirs. A known key is never forgotten, also when its
texts are removed. So no locale has more texts than there are known keys, and its coverage is a share.
-/

namespace Phrasebook

namespace Lexicon

variable {norm : Text → Text} {V : Type}

/-- Changing the value of a key changes no key. -/
theorem keys_modify (m : Lexicon norm V) (key : Text) (change : V → V) :
    (m.modify key change).keys = m.keys := by
  unfold modify
  cases hget : m.get? key with
  | none => rfl
  | some value =>
    obtain ⟨k, hmem, hnorm⟩ := get?_eq_some_iff.1 hget
    have hknown : norm key ∈ m.keys.map norm :=
      List.mem_map.2 ⟨k, List.mem_map_of_mem hmem, hnorm⟩
    exact (keys_insert m key (change value)).trans (if_pos hknown)

end Lexicon

namespace KeySet

/-- A set with one more key lists its keys first. -/
theorem prefix_insert (s : KeySet) (key : Text) : s.keys <+: (s.insert key).keys := by
  rw [keys_insert]
  split_ifs
  · exact List.prefix_rfl
  · exact List.prefix_append _ _

/-- A set with several more keys lists its keys first. -/
theorem prefix_insertAll (s : KeySet) (keys : List Text) : s.keys <+: (s.insertAll keys).keys := by
  induction keys generalizing s with
  | nil => exact List.prefix_rfl
  | cons key keys ih => exact (s.prefix_insert key).trans (ih (s.insert key))

/-- A set whose keys are listed first has no key that the other one lacks. -/
theorem contains_of_prefix {s t : KeySet} (h : s.keys <+: t.keys) {key : Text}
    (hkey : s.contains key = true) : t.contains key = true := by
  obtain ⟨k, hk, hfold⟩ := contains_iff.1 hkey
  exact contains_iff.2 ⟨k, h.mem hk, hfold⟩

end KeySet

/-- The exact share in percent; 0 when the whole is not positive. -/
def Share.exact (s : Share) : ℚ :=
  if s.whole ≤ 0 then 0 else (s.part : ℚ) / s.whole * 100

/-- A part of a whole that is not larger has a share between 0 and 100 percent, which is a quotient
whenever something is divided. -/
theorem Share.exact_mem_of_le {part whole : Nat} (h : part ≤ whole) :
    let share : Share := ⟨part, whole⟩
    0 ≤ share.exact ∧ share.exact ≤ 100 ∧ share.exact * whole = 100 * part := by
  intro share
  rcases Nat.eq_zero_or_pos whole with rfl | hpos
  · obtain rfl := Nat.le_zero.1 h
    simp [share, Share.exact]
  · have hwhole : (0 : ℚ) < whole := by exact_mod_cast hpos
    have hpart : (part : ℚ) ≤ whole := by exact_mod_cast h
    have hexact : share.exact = part / whole * 100 := by
      simp [share, Share.exact, Nat.pos_iff_ne_zero.1 hpos]
    rw [hexact]
    refine ⟨by positivity, ?_, ?_⟩
    · have hle : (part : ℚ) / whole ≤ 1 := (div_le_one hwhole).2 hpart
      linarith
    · field_simp

namespace DataSet

/-! ### What is done to data sets -/

/-- One thing that is done to a data set. -/
inductive Step : DataSet → DataSet → Prop where
  /-- The texts of a locale are added, or replaced. -/
  | addLocale (d : DataSet) (code : Text) (texts : KeyMap Text)
      (duplicates : KeyMap Locale.Duplicate) : Step d (d.addLocale code texts duplicates)
  /-- The machine translations of a base locale are added, or replaced. -/
  | addMachine (d : DataSet) (base : Text) (texts : KeyMap Text) : Step d (d.addMachine base texts)
  /-- The orphans of a locale are removed. -/
  | removeOrphans (d : DataSet) (code : Text) (valid : KeySet) : Step d (d.removeOrphans code valid)
  /-- The orphans among the machine translations of a base locale are removed. -/
  | removeMachineOrphans (d : DataSet) (base : Text) (valid : KeySet) :
      Step d (d.removeMachineOrphans base valid)
  /-- The data set is copied. -/
  | copy (d : DataSet) : Step d d.copy
  /-- Edits are applied, without one that is refused. -/
  | edit {d d' : DataSet} {edits : List TextEdit} (happlied : d.applyEdits edits = .ok d') : Step d d'
  /-- The machine translations of a base locale are brought up to date, with any translator. -/
  | update {d : DataSet} {translate : List Text → Text → Job (Dictionary Text)}
      {base source : Text} {valid : Option KeySet} {u : Translation.Update} {w w' : World}
      (hupdated : Job.outcome (Translation.update translate d base valid source) w = (.ok u, w')) :
      Step d u.dataSet

/-- What is done to a data set, one thing after another, makes another one. -/
abbrev Reaches : DataSet → DataSet → Prop :=
  Relation.ReflTransGen Step

/-! ### What every step keeps -/

/-- The tables of a data set fit together. -/
structure IsConsistent (d : DataSet) : Prop where
  /-- The duplicates of exactly the loaded locales are listed. -/
  duplicates : d.duplicates.keys = d.texts.keys
  /-- Every key of a loaded locale is known. -/
  known : ∀ code texts, d.texts.get? code = some texts → ∀ key ∈ texts.keys,
    d.known.contains key = true

/-- The tables of the empty data set fit together. -/
theorem isConsistent_empty : IsConsistent empty where
  duplicates := rfl
  known _ _ h := by simp [empty] at h

variable {d d' : DataSet}

/-- The tables of the locales decide whether the tables fit together. -/
theorem IsConsistent.congr (h : d.IsConsistent) (htexts : d'.texts = d.texts)
    (hduplicates : d'.duplicates = d.duplicates) (hknown : d'.known = d.known) :
    d'.IsConsistent where
  duplicates := by rw [hduplicates, htexts, h.duplicates]
  known := by
    rw [htexts, hknown]
    exact h.known

/-- A locale is added to the table of the duplicates as it is to that of the texts. -/
theorem keys_insert_eq {V W : Type} {m : KeyMap V} {n : KeyMap W} (h : m.keys = n.keys)
    (code : Text) (v : V) (w : W) : (m.insert code v).keys = (n.insert code w).keys := by
  rw [Lexicon.keys_insert, Lexicon.keys_insert, h]

/-- When the texts of a locale are set and their keys become known, every key is known. -/
theorem IsConsistent.known_insert (h : d.IsConsistent) {code : Text} {texts : KeyMap Text}
    {known : KeySet} (hgrows : d.known.keys <+: known.keys)
    (hnew : ∀ key ∈ texts.keys, known.contains key = true) (code' : Text) (texts' : KeyMap Text)
    (hget : (d.texts.insert code texts).get? code' = some texts') (key : Text)
    (hkey : key ∈ texts'.keys) : known.contains key = true := by
  rw [Lexicon.get?_insert] at hget
  split_ifs at hget
  · obtain rfl := Option.some.inj hget
    exact hnew key hkey
  · exact KeySet.contains_of_prefix hgrows (h.known code' texts' hget key hkey)

/-- Adding a locale keeps the tables fitting. -/
theorem IsConsistent.addLocale (h : d.IsConsistent) (code : Text) (texts : KeyMap Text)
    (duplicates : KeyMap Locale.Duplicate) : (d.addLocale code texts duplicates).IsConsistent where
  duplicates := keys_insert_eq h.duplicates _ _ _
  known := h.known_insert (d.known.prefix_insertAll texts.keys) fun key hkey =>
    KeySet.contains_insertAll.2 (Or.inr ⟨key, hkey, rfl⟩)

/-- Removing the orphans of a locale keeps the tables fitting. -/
theorem IsConsistent.removeOrphans (h : d.IsConsistent) (code : Text) (valid : KeySet) :
    (d.removeOrphans code valid).IsConsistent where
  duplicates := h.duplicates.trans (Lexicon.keys_modify d.texts code _).symm
  known code' texts' hget key hkey := by
    rw [get?_texts_removeOrphans] at hget
    split_ifs at hget
    · obtain ⟨texts, htexts, rfl⟩ := Option.map_eq_some_iff.1 hget
      obtain ⟨e, he, rfl⟩ := List.mem_map.1 hkey
      have hmem : e.1 ∈ texts.keys := List.mem_map_of_mem (mem_entries_withoutOrphans.1 he).1
      exact h.known code' texts htexts e.1 hmem
    · exact h.known code' texts' hget key hkey

/-- Setting a text keeps the tables fitting. -/
theorem IsConsistent.setText (h : d.IsConsistent) (key code value : Text) :
    (d.setText key code value).IsConsistent where
  duplicates := by
    unfold DataSet.setText
    split_ifs with hloaded
    · -- a loaded locale keeps its place in both tables
      have hlisted : Text.fold code ∈ d.texts.keys.map Text.fold := by
        obtain ⟨k, hk, hfold⟩ := Lexicon.contains_iff.1 hloaded
        exact List.mem_map.2 ⟨k, hk, hfold⟩
      exact h.duplicates.trans ((Lexicon.keys_insert _ _ _).trans (if_pos hlisted)).symm
    · exact keys_insert_eq h.duplicates _ _ _
  known := by
    refine h.known_insert (d.known.prefix_insert key) fun key' hkey' => ?_
    rcases Lexicon.mem_keys_of_mem_keys_insert hkey' with hold | rfl
    · cases hget : d.texts.get? code with
      | none =>
        rw [hget, Option.getD_none] at hold
        simp [Lexicon.keys] at hold
      | some texts =>
        rw [hget, Option.getD_some] at hold
        exact KeySet.contains_of_prefix (d.known.prefix_insert key) (h.known code texts hget key' hold)
    · change (d.known.insert key').contains key' = true
      rw [KeySet.contains_insert, decide_eq_true rfl, Bool.true_or]

/-- An edit keeps the tables fitting, and forgets no key. -/
theorem IsConsistent.applyEdit (h : d.IsConsistent) {edit : TextEdit}
    (happlied : d.applyEdit edit = .ok d') : d'.IsConsistent ∧ d.known.keys <+: d'.known.keys := by
  unfold DataSet.applyEdit at happlied
  split_ifs at happlied
  · obtain rfl := Except.ok.inj happlied
    exact ⟨h.congr rfl rfl rfl, List.prefix_rfl⟩
  · cases hcode : Locale.canonical? edit.code with
    | none => simp [hcode] at happlied
    | some code =>
      rw [hcode] at happlied
      obtain rfl := Except.ok.inj happlied
      exact ⟨h.setText edit.key code edit.value, d.known.prefix_insert edit.key⟩

/-- Edits keep the tables fitting, and forget no key. -/
theorem IsConsistent.applyEdits (h : d.IsConsistent) {edits : List TextEdit}
    (happlied : d.applyEdits edits = .ok d') :
    d'.IsConsistent ∧ d.known.keys <+: d'.known.keys := by
  rw [DataSet.applyEdits, copy_eq] at happlied
  induction edits generalizing d with
  | nil =>
    obtain rfl := Except.ok.inj happlied
    exact ⟨h, List.prefix_rfl⟩
  | cons edit edits ih =>
    rw [List.foldlM_cons] at happlied
    cases hedit : d.applyEdit edit with
    | error f =>
      rw [hedit] at happlied
      exact absurd happlied (by simp [bind, Except.bind])
    | ok next =>
      rw [hedit] at happlied
      obtain ⟨hnext, hgrows⟩ := h.applyEdit hedit
      obtain ⟨hlast, hgrows'⟩ := ih hnext happlied
      exact ⟨hlast, hgrows.trans hgrows'⟩

/-- An update leaves the locales alone. -/
theorem update_frame {translate : List Text → Text → Job (Dictionary Text)} {base source : Text}
    {valid : Option KeySet} {u : Translation.Update} {w w' : World}
    (hupdated : Job.outcome (Translation.update translate d base valid source) w = (.ok u, w')) :
    u.dataSet.texts = d.texts ∧ u.dataSet.duplicates = d.duplicates ∧
      u.dataSet.known = d.known := by
  cases hlanguage : Locale.language? base with
  | none =>
    unfold Translation.update at hupdated
    simp [hlanguage, Job.fail] at hupdated
  | some language =>
    obtain ⟨hnone, hsome⟩ := Translation.update_spec hlanguage translate d valid source
    by_cases hmissing : Translation.missingEntries d base valid source = []
    · obtain ⟨u', hu', hrun⟩ := hnone hmissing
      obtain ⟨records, hrun⟩ := hrun w
      rw [hupdated] at hrun
      obtain rfl : u = u' := Except.ok.inj (congrArg Prod.fst hrun)
      exact ⟨hu'.texts, hu'.duplicates, hu'.known⟩
    · obtain ⟨noted, hrun⟩ := hsome hmissing w
      split at hrun
      · obtain ⟨u', hu', records, hrun⟩ := hrun
        rw [hupdated] at hrun
        obtain rfl : u = u' := Except.ok.inj (congrArg Prod.fst hrun)
        exact ⟨hu'.texts, hu'.duplicates, hu'.known⟩
      · rw [hupdated] at hrun
        simp at hrun

/-- Whatever is done keeps the tables fitting, and forgets no key. -/
theorem IsConsistent.step (h : d.IsConsistent) (hstep : Step d d') :
    d'.IsConsistent ∧ d.known.keys <+: d'.known.keys := by
  cases hstep with
  | addLocale code texts duplicates =>
    exact ⟨h.addLocale code texts duplicates, d.known.prefix_insertAll texts.keys⟩
  | addMachine base texts => exact ⟨h.congr rfl rfl rfl, List.prefix_rfl⟩
  | removeOrphans code valid => exact ⟨h.removeOrphans code valid, List.prefix_rfl⟩
  | removeMachineOrphans base valid => exact ⟨h.congr rfl rfl rfl, List.prefix_rfl⟩
  | copy =>
    rw [copy_eq]
    exact ⟨h, List.prefix_rfl⟩
  | edit happlied => exact h.applyEdits happlied
  | update hupdated =>
    obtain ⟨htexts, hduplicates, hknown⟩ := update_frame hupdated
    exact ⟨h.congr htexts hduplicates hknown, hknown ▸ List.prefix_rfl⟩

/-! ### What every run keeps -/

/-- What is done, one thing after another, keeps the tables fitting and forgets no key. -/
theorem IsConsistent.reaches (h : d.IsConsistent) (hrun : Reaches d d') :
    d'.IsConsistent ∧ d.known.keys <+: d'.known.keys := by
  induction hrun with
  | refl => exact ⟨h, List.prefix_rfl⟩
  | tail _ hstep ih =>
    obtain ⟨hlast, hgrows⟩ := ih.1.step hstep
    exact ⟨hlast, ih.2.trans hgrows⟩

/-- No locale has more texts than there are known keys. -/
theorem IsConsistent.translatedCount_le (h : d.IsConsistent) (code : Text) :
    d.translatedCount code ≤ d.known.size := by
  unfold translatedCount
  cases hget : d.texts.get? code with
  | none => exact Nat.zero_le _
  | some texts =>
    -- the folded keys of the locale are distinct, and each is that of a known key
    have hsubset : texts.keys.map Text.fold ⊆ d.known.keys.map Text.fold := by
      intro folded hfolded
      obtain ⟨key, hkey, rfl⟩ := List.mem_map.1 hfolded
      obtain ⟨k, hk, hfold⟩ := KeySet.contains_iff.1 (h.known code texts hget key hkey)
      exact List.mem_map.2 ⟨k, hk, hfold⟩
    calc _ ≤ texts.values.length := List.countP_le_length
      _ = (texts.keys.map Text.fold).length := by
        rw [Lexicon.values, Lexicon.keys, List.length_map, List.length_map, List.length_map]
      _ ≤ (d.known.keys.map Text.fold).length :=
        (List.subperm_of_subset texts.nodup_keys hsubset).length_le
      _ = d.known.size := List.length_map _

/-- Every data set that is reached from the empty one lists the duplicates of exactly the loaded
locales and knows every key of theirs, and whatever is reached from it still knows its keys. For every
code there are at most as many texts as known keys, so that the coverage is between 0 and 100 percent
and nothing is divided by zero. -/
theorem isConsistent_of_reaches (hrun : Reaches empty d) :
    d.IsConsistent ∧ (∀ d', Reaches d d' → d.known.keys <+: d'.known.keys) ∧
      ∀ code, d.translatedCount code ≤ d.known.size ∧
        0 ≤ (d.coverage code).exact ∧ (d.coverage code).exact ≤ 100 ∧
        (d.coverage code).exact * d.known.size = 100 * d.translatedCount code := by
  obtain ⟨hconsistent, -⟩ := isConsistent_empty.reaches hrun
  refine ⟨hconsistent, fun d' hfurther => (hconsistent.reaches hfurther).2, fun code => ?_⟩
  have hle := hconsistent.translatedCount_le code
  exact ⟨hle, Share.exact_mem_of_le hle⟩

/-- The orphan of a locale is removed and a text of another locale is added: the removed key stays
known, and one of three known keys has a text. -/
theorem isConsistent_of_reaches_edited :
    let texts : KeyMap Text := .ofList [("Axe".toList, "x".toList), ("Bow".toList, "y".toList)]
    let d := (empty.addLocale "deDE".toList texts ∅).removeOrphans "deDE".toList
      (.ofList ["AXE".toList])
    let d' := d.setText "Cap".toList "frFR".toList "z".toList
    Reaches empty d' ∧ d'.IsConsistent ∧
      d'.known.keys = ["Axe".toList, "Bow".toList, "Cap".toList] ∧
      d'.translatedCount "deDE".toList = 1 ∧ (d'.coverage "deDE".toList).exact ≤ 100 := by
  intro texts d d'
  have hcode : Locale.canonical? "frFR".toList = some "frFR".toList := by decide +kernel
  have hedit : d.applyEdits [⟨"Cap".toList, "frFR".toList, "z".toList, false⟩] = .ok d' := by
    simp only [applyEdits, copy_eq, List.foldlM_cons, applyEdit, hcode]
    rfl
  have hrun : Reaches empty d' :=
    ((Relation.ReflTransGen.single (.addLocale empty "deDE".toList texts ∅)).tail
      (.removeOrphans _ "deDE".toList (.ofList ["AXE".toList]))).tail (.edit hedit)
  obtain ⟨hconsistent, -, hcoverage⟩ := isConsistent_of_reaches hrun
  exact ⟨hrun, hconsistent, by decide +kernel, by decide +kernel, (hcoverage _).2.2.1⟩

end DataSet

end Phrasebook
