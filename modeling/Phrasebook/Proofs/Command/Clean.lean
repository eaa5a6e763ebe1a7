import Phrasebook.Command.Clean
import Phrasebook.Proofs.Command.Session
import Phrasebook.Proofs.DataSet.Orphans
import Phrasebook.Proofs.Locale.Cleared
import Phrasebook.Proofs.Text.Blank
import Phrasebook.Proofs.Workspace.Save

/-!
# What cleaning leaves

A file without orphans is not written. The file of a locale is merged with its texts, among which
the orphans are cleared, and a file of machine translations is written anew with the texts that are
no orphans.
-/

namespace Phrasebook.Clean

open Job (Triple)
open Save (IsNoBackup mergedText machineText)
open Text (isBlankText)

variable {texts : KeyMap Text} {valid : KeySet} {key value : Text}

/-- The texts that clear the orphans of a locale. -/
def cleared (texts : KeyMap Text) (valid : KeySet) : Dictionary Text :=
  withoutKeys (DataSet.withoutOrphans texts valid) (DataSet.orphanKeys (some texts) valid)

/-- The entries with valid keys, and a blank text for each orphan. -/
def clearedEntries (texts : KeyMap Text) (valid : KeySet) : List (Text × Text) :=
  (DataSet.withoutOrphans texts valid).entries ++
    (DataSet.orphanKeys (some texts) valid).map fun key => (key, [])

/-- The entries that clear orphans have distinct keys. -/
theorem nodup_clearedEntries (texts : KeyMap Text) (valid : KeySet) :
    ((clearedEntries texts valid).map fun e => Text.fold e.1).Nodup := by
  have hkeys := (DataSet.keys_perm texts valid).map Text.fold
  have hnodup := hkeys.nodup_iff.2 texts.nodup_keys
  simpa [clearedEntries, Lexicon.keys, Function.comp_def] using hnodup

/-- The texts that clear orphans are these entries, whether case counts or not. -/
theorem entries_cleared (texts : KeyMap Text) (valid : KeySet) :
    (Locale.upToCase (cleared texts valid)).entries = clearedEntries texts valid := by
  have hfold := nodup_clearedEntries texts valid
  have hexact : ((clearedEntries texts valid).map fun e => id e.1).Nodup := by
    refine List.Nodup.of_map Text.fold ?_
    rw [List.map_map]
    exact hfold
  have hentries : (cleared texts valid).entries = clearedEntries texts valid :=
    Lexicon.entries_insertAll_of_new hexact
  rw [Locale.upToCase, hentries]
  exact Lexicon.entries_ofList hfold

/-- A valid key keeps its text. -/
theorem get?_cleared_of_valid (hvalid : valid.contains key = true)
    (ht : texts.get? key = some value) :
    (Locale.upToCase (cleared texts valid)).get? key = some value := by
  obtain ⟨k, hmem, hk⟩ := Lexicon.get?_eq_some_iff.1 ht
  refine Lexicon.get?_eq_some_iff.2 ⟨k, ?_, hk⟩
  rw [entries_cleared, clearedEntries, DataSet.entries_withoutOrphans]
  refine List.mem_append_left _ (List.mem_filter.2 ⟨hmem, ?_⟩)
  rw [KeySet.contains_congr valid hk, hvalid]

/-- A text that is not blank belongs to a valid key. -/
theorem valid_of_get?_cleared {text : Text}
    (ht : (Locale.upToCase (cleared texts valid)).get? key = some text)
    (hblank : isBlankText text = false) :
    valid.contains key = true ∧ texts.get? key = some text := by
  obtain ⟨k, hmem, hk⟩ := Lexicon.get?_eq_some_iff.1 ht
  rw [entries_cleared, clearedEntries, DataSet.entries_withoutOrphans, List.mem_append] at hmem
  rcases hmem with hmem | hmem
  · obtain ⟨hentry, hvalid⟩ := List.mem_filter.1 hmem
    rw [KeySet.contains_congr valid hk] at hvalid
    exact ⟨hvalid, Lexicon.get?_eq_some_iff.2 ⟨k, hentry, hk⟩⟩
  · obtain ⟨orphan, -, he⟩ := List.mem_map.1 hmem
    obtain rfl : [] = text := (Prod.mk.inj he).2
    simp at hblank

/-- The texts that clear orphans have the keys of the file. -/
theorem mem_keys_of_mem_cleared {e : Text × Text}
    (he : e ∈ (Locale.upToCase (cleared texts valid)).entries) : e.1 ∈ texts.keys := by
  rw [entries_cleared, clearedEntries, DataSet.entries_withoutOrphans, List.mem_append] at he
  rcases he with he | he
  · exact List.mem_map_of_mem (List.mem_filter.1 he).1
  · obtain ⟨orphan, horphan, rfl⟩ := List.mem_map.1 he
    exact (DataSet.mem_orphanKeys.1 horphan).1

/-- The texts that clear orphans of a file clear its keys that are not valid. -/
theorem clears_cleared (table : Text) (lines : List Text) (valid : KeySet) :
    Locale.Clears (Locale.upToCase (cleared (Locale.Entries.ofLines table lines).texts valid)) table
      valid lines where
  spelled e he := by
    obtain ⟨e', he', hk⟩ := List.mem_map.1 (mem_keys_of_mem_cleared he)
    exact hk ▸ Locale.exists_assignment_of_mem_entries he'
  all key hnone := by
    rw [Lexicon.get?_eq_none_iff, entries_cleared] at hnone
    refine Lexicon.get?_eq_none_iff.2 fun e he hk => ?_
    have hmem := (DataSet.keys_perm _ valid).mem_iff.2 (List.mem_map_of_mem he)
    have hkeys : e.1 ∈ (clearedEntries (Locale.Entries.ofLines table lines).texts valid).map
        Prod.fst := by
      simpa [clearedEntries, Lexicon.keys, Function.comp_def] using hmem
    obtain ⟨e', he', hsame⟩ := List.mem_map.1 hkeys
    exact hnone e' he' (hsame ▸ hk)
  valid _ _ := valid_of_get?_cleared

variable {P E : Disk → Prop} {data : DataSet}

/-- Removed orphans are told about without a change. -/
theorem recordRemoved_triple {what place : Text} {orphans : List Text} :
    Triple P (recordRemoved what place orphans) (fun _ => P) E := by
  unfold recordRemoved
  split
  · exact Triple.pure fun _ hd => hd
  · exact Triple.record

/-- The locales with orphans. -/
def orphanCodes (data : DataSet) (valid : KeySet) : List Text :=
  data.codes.filter fun code => !(data.orphans code valid).isEmpty

/-- The base locales with orphans among their machine translations. -/
def orphanBases (data : DataSet) (valid : KeySet) : List Text :=
  data.bases.filter fun base => !(data.machineOrphans base valid).isEmpty

/-- The texts to save for a locale, which clear its orphans. -/
def textsToSave (data : DataSet) (valid : KeySet) (code : Text) : Dictionary Text :=
  cleared ((data.texts.get? code).getD ∅) valid

/-- The machine translations of a base locale without their orphans. -/
def textsToWrite (data : DataSet) (valid : KeySet) (base : Text) : Dictionary Text :=
  Locale.exactly (DataSet.withoutOrphans ((data.machine.get? base).getD ∅) valid)

/-- A locale with orphans has texts. -/
theorem exists_texts_of_mem_orphanCodes {code : Text} (h : code ∈ orphanCodes data valid) :
    ∃ texts, data.texts.get? code = some texts ∧ DataSet.orphanKeys (some texts) valid ≠ [] := by
  have hne : DataSet.orphanKeys (data.texts.get? code) valid ≠ [] := by
    simpa [DataSet.orphans] using (List.mem_filter.1 h).2
  obtain ⟨texts, htexts⟩ := DataSet.exists_of_orphanKeys_ne_nil hne
  exact ⟨texts, htexts, htexts ▸ hne⟩

/-- A base locale with orphans has machine translations. -/
theorem exists_texts_of_mem_orphanBases {base : Text} (h : base ∈ orphanBases data valid) :
    ∃ texts, data.machine.get? base = some texts ∧ DataSet.orphanKeys (some texts) valid ≠ [] := by
  have hne : DataSet.orphanKeys (data.machine.get? base) valid ≠ [] := by
    simpa [DataSet.machineOrphans] using (List.mem_filter.1 h).2
  obtain ⟨texts, htexts⟩ := DataSet.exists_of_orphanKeys_ne_nil hne
  exact ⟨texts, htexts, htexts ▸ hne⟩

/-- Orphans are removed from locale to locale, and what is saved for each locale with orphans clears
them. -/
theorem removeOrphans_triple (start : DataSet) (saves : Dictionary (Dictionary Text))
    (codes : List Text) (hcodes : (codes.map Text.fold).Nodup)
    (hstart : ∀ code ∈ codes, start.texts.get? code = data.texts.get? code)
    (hsaves : ∀ code ∈ codes, ∀ e ∈ saves.entries, e.1 ≠ code) :
    Triple P (removeOrphans valid start saves codes)
      (fun cleaned d => P d ∧ cleaned.1.machine = start.machine ∧
        cleaned.2.entries = saves.entries ++
          (codes.filter fun code => !(data.orphans code valid).isEmpty).map fun code =>
            (code, textsToSave data valid code)) E := by
  induction codes generalizing start saves with
  | nil => exact Triple.pure fun d hd => ⟨hd, rfl, by simp⟩
  | cons code codes ih =>
    obtain ⟨hnew, hrest⟩ := List.nodup_cons.1 hcodes
    have hcode := hstart code (by simp)
    have hsame : start.orphans code valid = data.orphans code valid := by
      rw [DataSet.orphans, hcode, DataSet.orphans]
    rw [removeOrphans, hsame, List.filter_cons]
    cases horphans : data.orphans code valid with
    | nil =>
      exact ih start saves hrest (fun c hc => hstart c (by simp [hc]))
        fun c hc => hsaves c (by simp [hc])
    | cons orphan orphans =>
      have hkeys : DataSet.orphanKeys (data.texts.get? code) valid = orphan :: orphans := horphans
      obtain ⟨texts, htexts⟩ := DataSet.exists_of_orphanKeys_ne_nil
        (hkeys ▸ List.cons_ne_nil orphan orphans)
      have hsaved : withoutKeys (((start.removeOrphans code valid).texts.get? code).getD ∅)
          (orphan :: orphans) = textsToSave data valid code := by
        rw [DataSet.get?_texts_removeOrphans, if_pos rfl, hcode, textsToSave, cleared, ← hkeys,
          htexts]
        rfl
      have hentries : (saves.insert code (textsToSave data valid code)).entries =
          saves.entries ++ [(code, textsToSave data valid code)] :=
        Lexicon.entries_insert_of_new _ fun e he => hsaves code (by simp) e he
      refine Triple.bind recordRemoved_triple fun _ => ?_
      dsimp only
      rw [hsaved]
      refine (ih _ _ hrest (fun c hc => ?_) fun c hc e he => ?_).weaken (fun _ hd => hd) ?_
        fun _ hd => hd
      · have hne : Text.fold code ≠ Text.fold c := fun h => hnew (h ▸ List.mem_map_of_mem hc)
        rw [DataSet.get?_texts_removeOrphans, if_neg hne]
        exact hstart c (by simp [hc])
      · rw [hentries, List.mem_append, List.mem_singleton] at he
        rcases he with he | rfl
        · exact hsaves c (by simp [hc]) e he
        · rintro rfl
          exact hnew (List.mem_map_of_mem hc)
      · rintro done d ⟨hd, hmachine, hdone⟩
        exact ⟨hd, hmachine, by simp [hdone, hentries]⟩

/-- Orphans are removed from the machine translations of one base locale after another, and each
base locale with orphans is written without them. -/
theorem removeMachineOrphans_triple {s : Session} {backup : Bool} {S : List Text → Disk → Prop}
    (hwrite : ∀ done base, base ∈ orphanBases data valid → Triple (S done)
      (Save.machine s.style s.directory base (textsToWrite data valid base) backup)
      (fun _ => S (done ++ [base])) fun _ => True)
    (start : DataSet) (done bases : List Text) (hdistinct : (bases.map Text.fold).Nodup)
    (hbases : bases ⊆ data.bases)
    (hstart : ∀ base ∈ bases, start.machine.get? base = data.machine.get? base) :
    Triple (S done) (removeMachineOrphans s valid backup start bases)
      (fun _ => S (done ++ bases.filter fun base => !(data.machineOrphans base valid).isEmpty))
      fun _ => True := by
  induction bases generalizing start done with
  | nil => exact Triple.pure fun d hd => by simpa using hd
  | cons base bases ih =>
    obtain ⟨hnew, hrest⟩ := List.nodup_cons.1 hdistinct
    have hbase := hstart base (by simp)
    have hsame : start.machineOrphans base valid = data.machineOrphans base valid := by
      rw [DataSet.machineOrphans, hbase, DataSet.machineOrphans]
    rw [removeMachineOrphans, hsame, List.filter_cons]
    cases horphans : data.machineOrphans base valid with
    | nil =>
      exact ih start done hrest (fun b hb => hbases (by simp [hb])) fun b hb =>
        hstart b (by simp [hb])
    | cons orphan orphans =>
      have hmem : base ∈ orphanBases data valid :=
        List.mem_filter.2 ⟨hbases (by simp), by simp [horphans]⟩
      obtain ⟨texts, htexts, -⟩ := exists_texts_of_mem_orphanBases hmem
      have hwritten : Locale.exactly
          (((start.removeMachineOrphans base valid).machine.get? base).getD ∅) =
            textsToWrite data valid base := by
        rw [DataSet.get?_machine_removeMachineOrphans, if_pos rfl, hbase, textsToWrite, htexts]
        rfl
      refine Triple.bind recordRemoved_triple fun _ => ?_
      dsimp only
      rw [hwritten]
      refine Triple.bind (Triple.discard (hwrite done base hmem)) fun _ => ?_
      have hnext := ih (start.removeMachineOrphans base valid) (done ++ [base]) hrest
        (fun b hb => hbases (by simp [hb])) fun b hb => ?_
      · simpa using hnext
      · have hne : Text.fold base ≠ Text.fold b := fun h => hnew (h ▸ List.mem_map_of_mem hb)
        rw [DataSet.get?_machine_removeMachineOrphans, if_neg hne]
        exact hstart b (by simp [hb])

/-- Orphans are removed from all files: what a batch of saves and one more file of machine
translations after another preserve holds in the end. -/
theorem removeAll_triple {s : Session} {backup : Bool} {S : List Text → Disk → Prop}
    (hstart : orphanCodes data valid = [] → ∀ d, P d → S [] d)
    (hbatch : ∀ saves : Dictionary (Dictionary Text),
      saves.entries = (orphanCodes data valid).map (fun code =>
        (code, textsToSave data valid code)) →
      Triple P (Save.batch s.style s.directory saves backup showSave) (fun _ => S [])
        fun _ => True)
    (hwrite : ∀ done base, base ∈ orphanBases data valid → Triple (S done)
      (Save.machine s.style s.directory base (textsToWrite data valid base) backup)
      (fun _ => S (done ++ [base])) fun _ => True) :
    Triple P (do
      let (d, saves) ← removeOrphans valid data ∅ data.codes
      unless saves.isEmpty do
        discard <| Save.batch s.style s.directory saves backup showSave
      removeMachineOrphans s valid backup d d.bases)
      (fun _ => S (orphanBases data valid)) fun _ => True := by
  refine Triple.bind (removeOrphans_triple data ∅ data.codes data.texts.nodup_keys
    (fun _ _ => rfl) (by simp)) fun cleaned => ?_
  refine Triple.of_disk fun d hd => ?_
  obtain ⟨hd, hmachine, hentries⟩ := hd
  have hbases : cleaned.1.bases = data.bases := by rw [DataSet.bases, hmachine, DataSet.bases]
  have hremove : Triple (S []) (removeMachineOrphans s valid backup cleaned.1 cleaned.1.bases)
      (fun _ => S (orphanBases data valid)) fun _ => True := by
    rw [hbases]
    exact removeMachineOrphans_triple hwrite cleaned.1 [] data.bases data.machine.nodup_keys
      (List.Subset.refl _) fun base _ => by rw [hmachine]
  refine Triple.weaken (P := P) ?_ (fun _ hd' => hd' ▸ hd) (fun _ _ h => h) fun _ h => h
  dsimp only
  split
  · rename_i hempty
    refine hremove.weaken (hstart ?_) (fun _ _ h => h) fun _ h => h
    have hnil : cleaned.2.entries = [] := by simpa [Lexicon.isEmpty] using hempty
    exact List.map_eq_nil_iff.1 (hentries.symm.trans hnil)
  · exact Triple.bind (Triple.discard (hbatch cleaned.2 hentries)) fun _ => hremove

/-- What becomes of the content of a file when orphans are removed: a file without orphans is left,
that of a locale is merged with texts that clear its orphans, and that of the machine translations
of a base locale is written anew without them. -/
inductive Content (style : Locale.Style) (data : DataSet) (valid : KeySet) (place : Location)
    (content : ByteArray) (t : Text) : ByteArray → Prop where
  /-- The file is left. -/
  | left : Content style data valid place content t content
  /-- The file of a locale is merged. -/
  | merged {code : Text} {texts : KeyMap Text}
      (hname : place.getLast? = some (Locale.file code))
      (hcode : Locale.canonical? code = some code) (htexts : data.texts.get? code = some texts)
      (horphans : DataSet.orphanKeys (some texts) valid ≠ []) :
      Content style data valid place content t
        (Text.encode (mergedText style code (cleared texts valid) (Files.dropMark t)))
  /-- The file of the machine translations of a base locale is written. -/
  | written {base : Text} {texts : KeyMap Text}
      (hname : place.getLast? = some (Locale.machineFile base))
      (hbase : base ∈ Locale.machineBases) (htexts : data.machine.get? base = some texts)
      (horphans : DataSet.orphanKeys (some texts) valid ≠ []) :
      Content style data valid place content t
        (Text.encode (machineText style base
          (Locale.exactly (DataSet.withoutOrphans texts valid))))

/-- A file is as the removal of orphans leaves it. -/
def Cleaned (style : Locale.Style) (data : DataSet) (valid : KeySet) (q : Path) (place : Location)
    (content : ByteArray) (t : Text) (d : Disk) : Prop :=
  ∃ content', Content style data valid place content t content' ∧ Disk.Holds q place content' d

variable {s : Session} {q : Path} {place : Location} {content : ByteArray} {t : Text}

/-- Saving texts that clear orphans merges a file or leaves it. -/
theorem batch_cleaned_triple (hplace : IsNoBackup place) (hdecode : Text.decode content = .ok t)
    (backup : Bool) (saves : Dictionary (Dictionary Text))
    (hcodes : ∀ code ∈ data.codes, Locale.canonical? code = some code)
    (hsaves : saves.entries = (orphanCodes data valid).map fun code =>
      (code, textsToSave data valid code)) :
    Triple (Disk.Holds q place content) (Save.batch s.style s.directory saves backup showSave)
      (fun _ => Cleaned s.style data valid q place content t) fun _ => True := by
  have hmem : ∀ entry ∈ saves.entries, ∃ code ∈ orphanCodes data valid,
      entry = (code, textsToSave data valid code) := by
    intro entry he
    rw [hsaves] at he
    obtain ⟨code, hcode, rfl⟩ := List.mem_map.1 he
    exact ⟨code, hcode, rfl⟩
  have hspelled : ∀ entry ∈ saves.entries, Locale.canonical? entry.1 = some entry.1 := by
    intro entry he
    obtain ⟨code, hcode, rfl⟩ := hmem entry he
    exact hcodes code (List.mem_filter.1 hcode).1
  have hbatch : Triple (Disk.Holds q place content) (Save.batch s.style s.directory saves
      backup showSave) _ _ := Save.batch_triple (fun _ _ => Triple.print) hplace hdecode saves
    hspelled
  refine hbatch.weaken (fun _ hd => hd) ?_ fun _ hd => hd
  rintro _ d (hkept | ⟨entry, he, hlast, hmerged⟩)
  · exact ⟨content, .left, hkept⟩
  · have hspell := hspelled entry he
    obtain ⟨code, hcode, rfl⟩ := hmem entry he
    obtain ⟨texts, htexts, horphans⟩ := exists_texts_of_mem_orphanCodes hcode
    simp only [textsToSave, htexts, Option.getD_some] at hmerged
    exact ⟨_, .merged hlast hspell htexts horphans, hmerged⟩

/-- Writing machine translations without their orphans writes a file anew or leaves it. -/
theorem machine_cleaned_triple (hplace : IsNoBackup place) (backup : Bool) {base : Text}
    (hbase : base ∈ Locale.machineBases) (horphans : base ∈ orphanBases data valid) :
    Triple (Cleaned s.style data valid q place content t)
      (Save.machine s.style s.directory base (textsToWrite data valid base) backup)
      (fun _ => Cleaned s.style data valid q place content t) fun _ => True := by
  obtain ⟨texts, htexts, hkeys⟩ := exists_texts_of_mem_orphanBases horphans
  rw [textsToWrite, htexts, Option.getD_some]
  refine Triple.of_disk fun d hd => ?_
  obtain ⟨content', hcontent, hholds⟩ := hd
  have hsave : Triple (Disk.Holds q place content') (Save.machine s.style s.directory base
      (Locale.exactly (DataSet.withoutOrphans texts valid)) backup) _ _ :=
    Save.machine_triple hplace _ backup
  refine hsave.weaken ?_ ?_ fun _ _ => trivial
  · rintro d' rfl
    exact hholds
  · rintro path d' ⟨target, htarget, hholds'⟩
    by_cases hsame : target = place
    · rw [if_pos hsame] at hholds'
      have hname := Locale.isFileName_machineFile hbase
      have hlast := Disk.getLast?_of_locate htarget
        (Path.getLast?_names_inDirectory s.directory hname) hname.2.2.1
      exact ⟨_, .written (hsame ▸ hlast) hbase htexts hkeys, hholds'⟩
    · rw [if_neg hsame] at hholds'
      exact ⟨content', hcontent, hholds'⟩

/-- A clean-up that ends with a result leaves a file as it is, merges it or writes it anew. -/
theorem cleaned_of_outcome {backup : Bool} {w w' : World} {summary : Glue.Summary}
    (hrun : Job.outcome (Clean.orphans s backup) w = (.ok ⟨⟩, w'))
    (hscan : (Job.outcome s.scan w).1 = .ok summary) (hplace : IsNoBackup place)
    (hdecode : Text.decode content = .ok t) (hholds : Disk.Holds q place content w.disk) :
    ∃ data, s.Loads w.disk data ∧
      Cleaned s.style data summary.keys q place content t w'.disk := by
  obtain ⟨w₁, hdisk, hrest⟩ := Session.exists_of_outcome_scan_bind hrun hscan
  obtain ⟨data, w₂, hdata, hrest⟩ := Job.exists_of_outcome_bind hrest
  obtain ⟨hsame, hloads⟩ := (s.load_triple w₁.disk).result rfl hdata
  rw [hdisk] at hsame hloads
  refine ⟨data, hloads, ?_⟩
  refine Triple.result (P := Disk.Holds q place content) (E := fun _ => True)
    (Q := fun _ => Cleaned s.style data summary.keys q place content t) ?_ (hsame ▸ hholds) hrest
  dsimp only
  split
  · exact fun _ hw => ⟨content, .left, hw⟩
  refine Triple.bind (Triple.forM fun _ _ => Triple.print) fun _ => ?_
  rw [DataSet.copy_eq]
  exact removeAll_triple (S := fun _ => Cleaned s.style data summary.keys q place content t)
    (fun _ _ hd => ⟨content, .left, hd⟩)
    (fun saves hsaves => batch_cleaned_triple hplace hdecode backup saves hloads.codes hsaves)
    fun _ base hbase => machine_cleaned_triple hplace backup
      (hloads.bases base (List.mem_filter.1 hbase).1) hbase

end Phrasebook.Clean
