import Phrasebook.Proofs.Key.Lexicon
import Phrasebook.Proofs.Locale.Catalog
import Phrasebook.Proofs.Path.Pattern
import Phrasebook.Proofs.Workspace.Files
import Phrasebook.Workspace.Load

/-!
# What is loaded

Scanning and loading change nothing on a disk. A locale has the texts of the last file that is
loaded for it, and a base locale with machine translations those of its file.
-/

namespace Phrasebook.Scanner

open Files (HasText)
open Job (Triple)

variable {P : Disk → Prop} {E : Disk → Prop}

/-- The entries of a text. -/
def entriesOf (s : Scanner) (t : Text) : Locale.Entries :=
  .ofLines s.patterns.table (Text.lines t)

/-- The entries of a file are those of its text. -/
theorem entries_triple (s : Scanner) (path : Text) (hE : ∀ d, P d → E d) :
    Triple P (s.entries path)
      (fun e d => P d ∧ ∃ t, HasText d path t ∧ e = s.entriesOf t) E := by
  refine Triple.bind (Files.requireFile_triple path hE).forget fun _ => ?_
  refine Triple.bind (Files.readLines_triple path hE) fun lines => ?_
  have hdone : ∀ d, (P d ∧ ∃ t, HasText d path t ∧ lines = Text.lines t) →
      P d ∧ ∃ t, HasText d path t ∧
        Locale.Entries.ofLines s.patterns.table lines = s.entriesOf t := by
    rintro d ⟨hd, t, htext, rfl⟩
    exact ⟨hd, t, htext, rfl⟩
  dsimp only
  split
  · exact Triple.pure hdone
  · exact Triple.bind Triple.record fun _ => Triple.pure hdone

/-- A file with a text has entries. -/
theorem outcome_entries (s : Scanner) {path t : Text} {w : World} (h : HasText w.disk path t) :
    (Job.outcome (s.entries path) w).1 = .ok (s.entriesOf t) := by
  obtain ⟨content, t', hread, hdecode, rfl⟩ := h
  have hfile : Job.outcome (Files.requireFile path) w = (.ok ⟨⟩, w) := by
    rw [Files.requireFile, Job.outcome_bind, Files.outcome_isFile,
      Disk.isFile_iff.2 ⟨content, hread⟩]
    rfl
  have hlines : Job.outcome (Files.readLines path) w =
      (.ok (Text.lines (Files.dropMark t')), w) := by
    rw [Files.readLines, Job.outcome_bind, Files.outcome_readText hread hdecode]
    rfl
  rw [entries, Job.outcome_bind, hfile]
  simp only
  rw [Job.outcome_bind, hlines]
  simp only
  split <;> rfl

/-- A file that has entries has a text. -/
theorem exists_hasText {s : Scanner} {path : Text} {w : World} {e : Locale.Entries}
    (h : (Job.outcome (s.entries path) w).1 = .ok e) :
    ∃ t, HasText w.disk path t ∧ e = s.entriesOf t := by
  have hread : Triple (fun d => d = w.disk) (s.entries path)
      (fun e d => d = w.disk ∧ ∃ t, HasText d path t ∧ e = s.entriesOf t) fun _ => True :=
    s.entries_triple path fun _ _ => trivial
  have hall := hread w rfl
  generalize Job.outcome (s.entries path) w = o at h hall
  obtain ⟨result, w'⟩ := o
  obtain rfl : result = .ok e := h
  obtain ⟨hdisk, t, htext, he⟩ := hall
  exact ⟨t, hdisk ▸ htext, he⟩

/-- The summary of a file changes nothing. -/
theorem scanFile_triple (s : Scanner) (path : Text) (hE : ∀ d, P d → E d) :
    Triple P (s.scanFile path) (fun _ => P) E :=
  Triple.bind (Files.requireFile_triple path hE).forget fun _ =>
    Triple.bind (Files.readLines_triple path hE).forget fun _ =>
      Triple.bind Triple.record fun _ => Triple.pure fun _ hd => hd

/-- The summaries of files change nothing. -/
theorem scanFiles_triple (s : Scanner) (hE : ∀ d, P d → E d) (known : Glue.Summary)
    (paths : List Text) : Triple P (s.scanFiles known paths) (fun _ => P) E := by
  induction paths generalizing known with
  | nil => exact Triple.pure fun _ hd => hd
  | cons path paths ih => exact Triple.bind (s.scanFile_triple path hE) fun _ => ih _

/-- The summary of a directory changes nothing. -/
theorem scanDirectory_triple (s : Scanner) (directory : Text) (exclusions : List Text)
    (pattern : Text) (hE : ∀ d, P d → E d) :
    Triple P (s.scanDirectory directory exclusions pattern) (fun _ => P) E :=
  Triple.bind (Files.requireDirectory_triple _ _ hE).forget fun _ =>
    Triple.bind (Files.find_triple _ _ _ hE).forget fun _ =>
      Triple.bind (s.scanFiles_triple hE _ _) fun _ =>
        Triple.bind Triple.record fun _ => Triple.pure fun _ hd => hd

/-- What a file looks up is read without a change. -/
theorem usages_triple (s : Scanner) (path : Text) (hE : ∀ d, P d → E d) :
    Triple P (s.usages path) (fun _ => P) E :=
  Triple.bind (Files.requireFile_triple path hE).forget fun _ =>
    Triple.bind (Files.readLines_triple path hE).forget fun _ => Triple.pure fun _ hd => hd

/-- The specifiers of a file are those of its text. -/
theorem specifiers_triple (s : Scanner) (path : Text) (hE : ∀ d, P d → E d) :
    Triple P (s.specifiers path) (fun specifiers d => P d ∧ ∃ t, HasText d path t ∧
      Locale.specifiersByKey s.patterns.table (Text.lines t) = .ok specifiers) E := by
  refine Triple.bind (Files.requireFile_triple path hE).forget fun _ =>
    Triple.bind (Files.readLines_triple path hE) fun lines => ?_
  cases hspecifiers : Locale.specifiersByKey s.patterns.table lines with
  | ok specifiers =>
    refine Triple.pure ?_
    rintro d ⟨hd, t, htext, rfl⟩
    exact ⟨hd, t, htext, hspecifiers⟩
  | error fault => exact Triple.throw fun d hd => hE d hd.1

/-- The locale that a file of a directory is loaded for. -/
def locale? (endings : List Text) (path : Text) : Option Text :=
  if hasEnding (Path.ofText path).name endings then none
  else Locale.canonical? (Path.stem (Path.ofText path).name)

/-- A locale file is added to the data set, another file is not. -/
theorem loadFile_triple (s : Scanner) (endings : List Text) (data : DataSet) (path : Text)
    (hE : ∀ d, P d → E d) :
    Triple P (s.loadFile endings data path) (fun data' d => P d ∧
      match locale? endings path with
      | none => data' = data
      | some code => ∃ t, HasText d path t ∧
          data' = data.addLocale code (s.entriesOf t).texts (s.entriesOf t).duplicates) E := by
  unfold loadFile locale?
  dsimp only
  split
  · exact Triple.pure fun _ hd => ⟨hd, rfl⟩
  · cases hcode : Locale.canonical? (Path.stem (Path.ofText path).name) with
    | none => exact Triple.bind Triple.record fun _ => Triple.pure fun _ hd => ⟨hd, rfl⟩
    | some code =>
      refine Triple.bind (s.entries_triple path hE) fun e => ?_
      refine Triple.bind Triple.record fun _ => Triple.pure ?_
      rintro d ⟨hd, t, htext, rfl⟩
      exact ⟨hd, t, htext, rfl⟩

/-- The names of source files are those that end with their suffix. -/
theorem nameMatches_sourcePattern_iff {name : Text} :
    Path.nameMatches sourcePattern name = true ↔ ∃ t, name = t ++ ".lua".toList := by
  have hglob : Path.globFrom 0 sourcePattern = .anyText :: ".lua".toList.map .char := by
    decide
  rw [Path.nameMatches, hglob, Path.globMatches_anyText]
  constructor
  · rintro ⟨front, behind, rfl, hbehind⟩
    exact ⟨front, by rw [Path.globMatches_map_char.1 hbehind]⟩
  · rintro ⟨t, rfl⟩
    exact ⟨t, _, rfl, Path.globMatches_map_char.2 rfl⟩

/-- The paths of the source files of a directory end with their suffix. -/
theorem exists_of_mem_files {d : Disk} {directory path : Text} {paths : List Text}
    (h : d.files directory sourcePattern false = .ok paths) (hpath : path ∈ paths) :
    ∃ t, path = t ++ ".lua".toList := by
  have hsteps : stepsOf sourcePattern false = .ok [.matching sourcePattern] := rfl
  rw [Disk.files, hsteps] at h
  change (if _ then _ else _) = _ at h
  split at h
  · obtain rfl := Except.ok.inj h
    obtain ⟨p, hp, rfl⟩ := List.mem_map.1 ((List.mergeSort_perm _ _).mem_iff.1 hpath)
    have hfound := (List.mem_filter.1 hp).1
    simp only [Disk.search, List.mem_flatMap, List.mem_filter, List.mem_singleton] at hfound
    obtain ⟨name, ⟨-, hname⟩, rfl⟩ := hfound
    obtain ⟨t, rfl⟩ := nameMatches_sourcePattern_iff.1 (Bool.and_eq_true_iff.1 hname).1
    refine ⟨(Path.ofText directory).root ++
      ((Path.ofText directory).names.flatMap (· ++ ['/']) ++ t), ?_⟩
    simp [Path.text, Path.child, Path.join_concat]
  · obtain rfl := Except.ok.inj h
    simp at hpath

/-- What files of a directory are loaded to: a locale is known by the spelling of the catalog, and
has the texts of the last file that is loaded for it. -/
structure Loads (s : Scanner) (endings : List Text) (d : Disk) (paths : List Text)
    (data : DataSet) : Prop where
  /-- The catalog spells the codes of the loaded locales. -/
  codes : ∀ code ∈ data.codes, Locale.canonical? code = some code
  /-- There are no machine translations. -/
  machine : data.machine = ∅
  /-- The last file of a locale has its texts. -/
  last : ∀ before path after code t, paths = before ++ path :: after →
    locale? endings path = some code → (∀ p ∈ after, locale? endings p ≠ some code) →
      HasText d path t → data.texts.get? code = some (s.entriesOf t).texts

/-- The catalog spells the code of a locale that a file is loaded for. -/
theorem canonical?_of_locale? {endings : List Text} {path code : Text}
    (h : locale? endings path = some code) : Locale.canonical? code = some code := by
  unfold locale? at h
  split at h
  · simp at h
  · exact Locale.canonical?_canonical h

/-- A locale that is loaded has the texts of its own file, and another locale keeps its texts. -/
theorem get?_texts_addLocale {code found : Text} {data : DataSet} {e : Locale.Entries}
    (hfound : Locale.canonical? found = some found)
    (hcode : Locale.canonical? code = some code) :
    (data.addLocale found e.texts e.duplicates).texts.get? code =
      if found = code then some e.texts else data.texts.get? code := by
  have hget : (data.addLocale found e.texts e.duplicates).texts.get? code =
      if Text.fold found = Text.fold code then some e.texts else data.texts.get? code :=
    Lexicon.get?_insert _ _ _ _
  -- the catalog has one spelling of a code
  have hsame : Text.fold found = Text.fold code ↔ found = code :=
    ⟨Locale.eq_of_fold_eq (Locale.mem_codes_of_canonical? hfound)
      (Locale.mem_codes_of_canonical? hcode), congrArg Text.fold⟩
  rw [hget]
  simp only [hsame]

/-- One more file is loaded behind the others. -/
theorem Loads.concat {s : Scanner} {endings : List Text} {d : Disk} {paths : List Text}
    {data data' : DataSet} {path : Text} (h : s.Loads endings d paths data)
    (hstep : match locale? endings path with
      | none => data' = data
      | some code => ∃ t, HasText d path t ∧
          data' = data.addLocale code (s.entriesOf t).texts (s.entriesOf t).duplicates) :
    s.Loads endings d (paths ++ [path]) data' := by
  cases hlocale : locale? endings path with
  | none =>
    rw [hlocale] at hstep
    subst hstep
    refine ⟨h.codes, h.machine, ?_⟩
    intro before p after code t hsplit hp hafter htext
    rcases Text.split_concat hsplit with ⟨-, rfl, -⟩ | ⟨between, rfl, hpaths⟩
    · simp [hlocale] at hp
    · exact h.last before p between code t hpaths hp (fun q hq => hafter q (by simp [hq])) htext
  | some found =>
    rw [hlocale] at hstep
    obtain ⟨t', htext', rfl⟩ := hstep
    have hfound := canonical?_of_locale? hlocale
    refine ⟨?_, h.machine, ?_⟩
    · intro code hcode
      rcases Lexicon.mem_keys_of_mem_keys_insert hcode with hbefore | rfl
      · exact h.codes code hbefore
      · exact hfound
    · -- The last file of a locale is the new one, or no file behind it is loaded for that locale.
      intro before p after code t hsplit hp hafter htext
      rw [get?_texts_addLocale hfound (canonical?_of_locale? hp)]
      rcases Text.split_concat hsplit with ⟨-, rfl, -⟩ | ⟨between, rfl, hpaths⟩
      · obtain rfl : found = code := Option.some.inj (hlocale.symm.trans hp)
        rw [if_pos rfl, htext.unique htext']
      · have hne : found ≠ code := fun hsame => hafter path (by simp) (hsame ▸ hlocale)
        rw [if_neg hne]
        exact h.last before p between code t hpaths hp (fun q hq => hafter q (by simp [hq])) htext

/-- A directory is loaded file by file. -/
theorem loadDirectory_triple (s : Scanner) (directory : Text) (endings : List Text) (d : Disk) :
    Triple (fun d' => d' = d) (s.loadDirectory directory endings)
      (fun data d' => d' = d ∧ ∃ paths, d.files directory sourcePattern false = .ok paths ∧
        s.Loads endings d paths data) (fun d' => d' = d) := by
  refine Triple.bind (Files.requireDirectory_triple _ _ fun _ hd => hd).forget fun _ => ?_
  refine Triple.bind (Files.find_triple _ _ _ fun _ hd => hd) fun paths => ?_
  refine Triple.bind (R := fun data d' => (d' = d ∧
    d.files directory sourcePattern false = .ok paths) ∧ s.Loads endings d paths data) ?_
      fun data => Triple.bind Triple.record fun _ => Triple.pure ?_
  · refine Triple.weaken (Triple.foldlM_prefix (S := fun done data d' => (d' = d ∧
      d.files directory sourcePattern false = .ok paths) ∧ s.Loads endings d done data)
        fun before path after hsplit data => ?_) ?_ (fun _ _ h => h) fun _ h => h
    · refine Triple.weaken (s.loadFile_triple endings data path fun _ hd => hd.1.1)
        (fun _ hd => hd) ?_ fun _ hd => hd
      rintro data' d' ⟨⟨⟨rfl, hfiles⟩, hloads⟩, hstep⟩
      exact ⟨⟨rfl, hfiles⟩, hloads.concat hstep⟩
    · rintro d' ⟨rfl, hfiles⟩
      refine ⟨⟨rfl, hfiles⟩, ?_, rfl, ?_⟩
      · intro code hcode
        simp [DataSet.codes, DataSet.empty, Lexicon.keys] at hcode
      · intro before path after code t hsplit
        simp at hsplit
  · rintro d' ⟨⟨rfl, hfiles⟩, hloads⟩
    exact ⟨rfl, paths, hfiles, hloads⟩

/-- What machine translations are loaded to, beside the texts of a data set: a base locale has those
of its file. -/
structure LoadsMachine (s : Scanner) (directory : Text) (d : Disk) (start : DataSet)
    (done : List Text) (data : DataSet) : Prop where
  /-- The texts of the locales stay. -/
  texts : data.texts = start.texts
  /-- The base locales are those that have a file. -/
  bases : ∀ base ∈ data.bases, base ∈ Locale.machineBases
  /-- A base locale has the texts of its file. -/
  file : ∀ base ∈ done, ∀ t,
    HasText d (Files.inDirectory directory (Locale.machineFile base)) t →
      data.machine.get? base = some (s.entriesOf t).texts

/-- The machine translations of a base locale are added if they have a file. -/
theorem loadMachineFile_triple (s : Scanner) (directory base : Text) (loaded : DataSet × Nat)
    (hE : ∀ d, P d → E d) :
    Triple P (s.loadMachineFile directory loaded base) (fun loaded' d => P d ∧
      ((∃ t, HasText d (Files.inDirectory directory (Locale.machineFile base)) t ∧
          loaded'.1 = loaded.1.addMachine base (s.entriesOf t).texts) ∨
        (∀ t, ¬ HasText d (Files.inDirectory directory (Locale.machineFile base)) t) ∧
          loaded'.1 = loaded.1)) E := by
  refine Triple.bind (Files.isFile_triple _) fun b => ?_
  cases b with
  | true =>
    refine Triple.bind (s.entries_triple _ fun d hd => hE d hd.1) fun e => Triple.pure ?_
    rintro d ⟨⟨hd, -⟩, t, htext, rfl⟩
    exact ⟨hd, Or.inl ⟨t, htext, rfl⟩⟩
  | false =>
    refine Triple.bind Triple.record fun _ => Triple.pure ?_
    rintro d ⟨hd, hfile⟩
    refine ⟨hd, Or.inr ⟨?_, rfl⟩⟩
    rintro t ⟨content, t', hread, -⟩
    rw [Disk.isFile_iff.2 ⟨content, hread⟩] at hfile
    exact Bool.noConfusion hfile

/-- The machine translations of one more base locale are loaded beside the others. -/
theorem LoadsMachine.concat {s : Scanner} {directory : Text} {d : Disk} {start data data' : DataSet}
    {done : List Text} {base : Text} (h : s.LoadsMachine directory d start done data)
    (hdone : ∀ base' ∈ done, base' ∈ Locale.machineBases) (hbase : base ∈ Locale.machineBases)
    (hstep : (∃ t, HasText d (Files.inDirectory directory (Locale.machineFile base)) t ∧
        data' = data.addMachine base (s.entriesOf t).texts) ∨
      (∀ t, ¬ HasText d (Files.inDirectory directory (Locale.machineFile base)) t) ∧
        data' = data) :
    s.LoadsMachine directory d start (done ++ [base]) data' := by
  rcases hstep with ⟨t, htext, rfl⟩ | ⟨hnone, rfl⟩
  · refine ⟨h.texts, ?_, ?_⟩
    · intro base' hbase'
      rcases Lexicon.mem_keys_of_mem_keys_insert hbase' with hbefore | rfl
      · exact h.bases base' hbefore
      · exact hbase
    · intro base' hbase' t' htext'
      have hget : (data.addMachine base (s.entriesOf t).texts).machine.get? base' =
          if Text.fold base = Text.fold base' then some (s.entriesOf t).texts
          else data.machine.get? base' := Lexicon.get?_insert _ _ _ _
      rw [hget]
      rcases List.mem_append.1 hbase' with hbefore | hlast
      · by_cases hfold : Text.fold base = Text.fold base'
        · obtain rfl := Locale.eq_of_fold_base_eq hbase (hdone base' hbefore) hfold
          rw [if_pos rfl, htext.unique htext']
        · rw [if_neg hfold, h.file base' hbefore t' htext']
      · obtain rfl := List.mem_singleton.1 hlast
        rw [if_pos rfl, htext.unique htext']
  · refine ⟨h.texts, h.bases, ?_⟩
    intro base' hbase' t' htext'
    rcases List.mem_append.1 hbase' with hbefore | hlast
    · exact h.file base' hbefore t' htext'
    · obtain rfl := List.mem_singleton.1 hlast
      exact absurd htext' (hnone t')

/-- All machine translations are loaded beside the texts of a data set. -/
theorem loadMachineFiles_triple (s : Scanner) (directory : Text) (start : DataSet) (d : Disk)
    (hstart : start.machine = ∅) :
    Triple (fun d' => d' = d) (s.loadMachineFiles directory start)
      (fun loaded d' => d' = d ∧
        s.LoadsMachine directory d start Locale.machineBases loaded.1) (fun d' => d' = d) := by
  refine Triple.bind (Files.requireDirectory_triple _ _ fun _ hd => hd).forget fun _ => ?_
  refine Triple.weaken (Triple.foldlM_prefix (S := fun done loaded d' => d' = d ∧
    s.LoadsMachine directory d start done loaded.1) fun before base after hsplit loaded => ?_) ?_
      (fun _ _ h => h) fun _ h => h
  · refine Triple.weaken (s.loadMachineFile_triple directory base loaded fun _ hd => hd.1)
      (fun _ hd => hd) ?_ fun _ hd => hd
    rintro loaded' d' ⟨⟨rfl, hloads⟩, hstep⟩
    exact ⟨rfl, hloads.concat (fun base' hbase' => by simp [hsplit, hbase']) (by simp [hsplit])
      hstep⟩
  · rintro d' rfl
    refine ⟨rfl, rfl, ?_, by simp⟩
    intro base hbase
    simp [DataSet.bases, hstart, Lexicon.keys] at hbase

end Phrasebook.Scanner
