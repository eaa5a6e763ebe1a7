import Phrasebook.Proofs.Workspace.Backup

/-!
# What becomes of a batch of saves

A batch is refused as a whole when a code is unknown or two codes name one locale. Otherwise its
locales are saved one after another until a save fails, and the rest is skipped. Each locale is
accounted for: it is saved, has failed or is skipped, and is reported once.
-/

namespace Phrasebook.Save

variable {style : Locale.Style} {directory code : Text} {texts : Dictionary Text} {backup : Bool}
  {total n : Nat} {w w₁ w' : World} {entries rest : List (Text × Dictionary Text)}
  {codes : List Text} {b : Batch} {reports : List SaveProgress} {fault : Fault} {path : Text}

/-- The report about a locale that is the last of `n` saved ones. -/
def savedReport (total n : Nat) (code : Text) : SaveProgress :=
  ⟨code, n, total, n == total, none⟩

/-- The report about a locale that is not saved after `n` others. -/
def unsavedReport (total n : Nat) (code error : Text) : SaveProgress :=
  ⟨code, n, total, false, some error⟩

/-- The reports about locales that are skipped after `n` others are saved. -/
def skippedReports (total n : Nat) (rest : List (Text × Dictionary Text)) : List SaveProgress :=
  rest.map fun entry => unsavedReport total n entry.1 skippedText

/-- The record about a locale that could not be saved. -/
def failureRecord (code : Text) (fault : Fault) : Record :=
  ⟨.error, "Failed to save ".toList ++ code ++ ": ".toList ++ fault.message⟩

/-- Locales are saved one after another in a world where `n` others are saved already: what becomes of
them, what is reported, and the world afterwards. -/
inductive Runs (style : Locale.Style) (directory : Text) (backup : Bool) (total : Nat) :
    Nat → World → List (Text × Dictionary Text) → Batch → List SaveProgress → World → Prop where
  /-- No locale is left. -/
  | done {n : Nat} {w : World} : Runs style directory backup total n w [] ⟨[], [], []⟩ [] w
  /-- The first locale is saved, and then the others are dealt with. -/
  | saved {n : Nat} {w w₁ w' : World} {code path : Text} {texts : Dictionary Text}
      {rest : List (Text × Dictionary Text)} {b : Batch} {reports : List SaveProgress}
      (hsave : Job.outcome (Save.locale style directory code texts backup) w = (.ok path, w₁))
      (hrest : Runs style directory backup total (n + 1)
        (w₁.showing [.saved (savedReport total (n + 1) code)]) rest b reports w') :
      Runs style directory backup total n w ((code, texts) :: rest)
        { b with completed := code :: b.completed } (savedReport total (n + 1) code :: reports) w'
  /-- The first locale cannot be saved, and the others are skipped. -/
  | failed {n : Nat} {w w₁ : World} {code : Text} {texts : Dictionary Text} {fault : Fault}
      {rest : List (Text × Dictionary Text)}
      (hsave : Job.outcome (Save.locale style directory code texts backup) w =
        (.error fault, w₁)) :
      Runs style directory backup total n w ((code, texts) :: rest)
        ⟨[], [(code, fault.message)], rest.map (·.1)⟩
        (unsavedReport total n code fault.message :: skippedReports total n rest)
        ((w₁.noted [failureRecord code fault]).showing
          ((unsavedReport total n code fault.message :: skippedReports total n rest).map .saved))

section Step

/-- A locale that can be saved is reported as saved. -/
theorem outcome_batchStep_of_ok (hnone : b.failures = [])
    (hsave : Job.outcome (Save.locale style directory code texts backup) w = (.ok path, w₁)) :
    Job.outcome (batchStep style directory backup total (fun p => Job.emit (.saved p)) b
        (code, texts)) w =
      (.ok { b with completed := b.completed ++ [code] },
        w₁.showing [.saved (savedReport total (b.completed.length + 1) code)]) := by
  have hlength : (b.completed ++ [code]).length = b.completed.length + 1 := by simp
  rw [batchStep]
  simp only [hnone, List.isEmpty_nil, Bool.not_true, Bool.false_eq_true, if_false]
  rw [Job.outcome_bind, Job.outcome_attempt, hsave]
  simp only [Job.outcome_bind, Job.outcome_emit, Job.outcome_pure, Batch.report, hlength]
  rfl

/-- A locale that cannot be saved is recorded and reported as failed. -/
theorem outcome_batchStep_of_error (hnone : b.failures = [])
    (hsave : Job.outcome (Save.locale style directory code texts backup) w = (.error fault, w₁)) :
    Job.outcome (batchStep style directory backup total (fun p => Job.emit (.saved p)) b
        (code, texts)) w =
      (.ok { b with failures := [(code, fault.message)] },
        (w₁.noted [failureRecord code fault]).showing
          [.saved (unsavedReport total b.completed.length code fault.message)]) := by
  rw [batchStep]
  simp only [hnone, List.isEmpty_nil, Bool.not_true, Bool.false_eq_true, if_false]
  rw [Job.outcome_bind, Job.outcome_attempt, hsave]
  simp only [Job.outcome_bind, Job.outcome_emit, Job.outcome_pure, Job.outcome_record_noted,
    Batch.report, List.nil_append]
  rfl

/-- After a failure all locales are skipped and reported. -/
theorem outcome_foldlM_skipped (hfailed : b.failures ≠ [])
    (rest : List (Text × Dictionary Text)) (w : World) :
    Job.outcome (rest.foldlM
        (batchStep style directory backup total fun p => Job.emit (.saved p)) b) w =
      (.ok { b with skipped := b.skipped ++ rest.map (·.1) },
        w.showing ((skippedReports total b.completed.length rest).map .saved)) := by
  induction rest generalizing b w with
  | nil => simp [skippedReports]
  | cons entry rest ih =>
    have hstep : Job.outcome (batchStep style directory backup total
        (fun p => Job.emit (.saved p)) b entry) w =
        (.ok { b with skipped := b.skipped ++ [entry.1] },
          w.showing [.saved (unsavedReport total b.completed.length entry.1 skippedText)]) := by
      rw [batchStep, if_pos (by simpa using hfailed)]
      simp only [Job.outcome_bind, Job.outcome_emit, Job.outcome_pure]
      rfl
    rw [List.foldlM_cons, Job.outcome_bind, hstep]
    dsimp only
    rw [ih (b := { b with skipped := b.skipped ++ [entry.1] }) hfailed]
    simp [skippedReports]

/-- The locales of a batch are dealt with in a run. -/
theorem exists_runs (style : Locale.Style) (directory : Text) (backup : Bool) (total : Nat)
    (entries : List (Text × Dictionary Text)) (done : List Text) (w : World) :
    ∃ b reports w', Runs style directory backup total done.length w entries b reports w' ∧
      Job.outcome (entries.foldlM
          (batchStep style directory backup total fun p => Job.emit (.saved p)) ⟨done, [], []⟩) w =
        (.ok { b with completed := done ++ b.completed }, w') := by
  induction entries generalizing done w with
  | nil => exact ⟨_, _, _, .done, by simp⟩
  | cons entry rest ih =>
    obtain ⟨code, texts⟩ := entry
    rw [List.foldlM_cons, Job.outcome_bind]
    rcases hsave : Job.outcome (Save.locale style directory code texts backup) w with
      ⟨fault | path, w₁⟩
    · rw [outcome_batchStep_of_error rfl hsave]
      dsimp only
      rw [outcome_foldlM_skipped (by simp)]
      exact ⟨_, _, _, .failed hsave, by simp⟩
    · rw [outcome_batchStep_of_ok rfl hsave]
      dsimp only
      obtain ⟨b, reports, w', hruns, hrest⟩ := ih (done ++ [code])
        (w₁.showing [.saved (savedReport total (done.length + 1) code)])
      rw [List.length_append, List.length_singleton] at hruns
      exact ⟨_, _, _, .saved hsave hruns, by rw [hrest]; simp⟩

end Step

/-- What becomes of the locales of a batch with some codes, and what is reported about them. -/
structure IsAccount (codes : List Text) (b : Batch) (reports : List SaveProgress) : Prop where
  /-- Each locale is saved, has failed or is skipped, in this order. -/
  partition : b.completed ++ b.failures.map (·.1) ++ b.skipped = codes
  /-- No locale is tried after one has failed. -/
  single : b.failures.length ≤ 1
  /-- No locale is skipped when none has failed. -/
  complete : b.failures = [] → b.skipped = []
  /-- Each locale is reported once, in order. -/
  reported : reports.map (·.code) = codes
  /-- A report says what went wrong with its locale. -/
  errors : reports.map (·.error) = b.completed.map (fun _ => none) ++
    b.failures.map (fun failure => some failure.2) ++ b.skipped.map fun _ => some skippedText
  /-- A report counts the locales up to its own that are saved. -/
  processed : ∀ i r, reports[i]? = some r →
    r.processed = (codes.take (i + 1)).countP fun code => b.completed.contains code
  /-- A report knows how many locales there are. -/
  total : ∀ r ∈ reports, r.total = codes.length
  /-- All locales are saved with the last report of a batch without failures, and with no other. -/
  isComplete : ∀ i r, reports[i]? = some r →
    (r.isComplete = true ↔ b.failures = [] ∧ i + 1 = codes.length)

namespace Runs

/-- Each locale of a run is saved, has failed or is skipped. -/
theorem partition (h : Runs style directory backup total n w entries b reports w') :
    b.completed ++ b.failures.map (·.1) ++ b.skipped = entries.map (·.1) := by
  induction h with
  | done => rfl
  | saved hsave hrest ih => simpa using ih
  | failed hsave => simp

/-- A run has one failure, or nothing is skipped. -/
theorem failures (h : Runs style directory backup total n w entries b reports w') :
    b.failures = [] ∧ b.skipped = [] ∨ b.failures.length = 1 := by
  induction h with
  | done => exact Or.inl ⟨rfl, rfl⟩
  | saved hsave hrest ih => exact ih
  | failed hsave => exact Or.inr rfl

/-- The reports of a run are about its locales. -/
theorem reported (h : Runs style directory backup total n w entries b reports w') :
    reports.map (·.code) = entries.map (·.1) := by
  induction h with
  | done => rfl
  | saved hsave hrest ih => simpa [savedReport] using ih
  | failed hsave => simp [unsavedReport, skippedReports, Function.comp_def]

/-- The reports of a run say what went wrong. -/
theorem errors (h : Runs style directory backup total n w entries b reports w') :
    reports.map (·.error) = b.completed.map (fun _ => none) ++
      b.failures.map (fun failure => some failure.2) ++
        b.skipped.map fun _ => some skippedText := by
  induction h with
  | done => rfl
  | saved hsave hrest ih => simpa [savedReport] using ih
  | failed hsave => simp [unsavedReport, skippedReports, Function.comp_def]

/-- A report of a run that starts after `n` saved locales. -/
theorem report (h : Runs style directory backup total n w entries b reports w') {i : Nat}
    {r : SaveProgress} (hr : reports[i]? = some r) :
    r.processed = n + min (i + 1) b.completed.length ∧ r.total = total ∧
      (r.isComplete = true ↔ i < b.completed.length ∧ n + (i + 1) = total) := by
  induction h generalizing i with
  | done => simp at hr
  | @saved n _ _ _ code _ _ _ b _ hsave hrest ih =>
    cases i with
    | zero =>
      obtain rfl : savedReport total (n + 1) code = r := by simpa using hr
      simp [savedReport]
    | succ i =>
      obtain ⟨hprocessed, htotal, hcomplete⟩ := ih (by simpa using hr)
      refine ⟨?_, htotal, ?_⟩
      · rw [hprocessed, List.length_cons]
        omega
      · rw [hcomplete, List.length_cons]
        omega
  | @failed n _ _ code _ fault rest hsave =>
    have hnone : ∃ other error, r = unsavedReport total n other error := by
      rcases List.mem_cons.1 (List.mem_of_getElem? hr) with rfl | hr
      · exact ⟨_, _, rfl⟩
      · obtain ⟨entry, -, rfl⟩ := List.mem_map.1 hr
        exact ⟨_, _, rfl⟩
    obtain ⟨other, error, rfl⟩ := hnone
    simp [unsavedReport]

/-- The locales of a run are accounted for. -/
theorem isAccount (h : Runs style directory backup entries.length 0 w entries b reports w')
    (hdistinct : (entries.map (·.1)).Nodup) : IsAccount (entries.map (·.1)) b reports where
  partition := h.partition
  single := by
    rcases h.failures with ⟨hnone, -⟩ | hone
    · simp [hnone]
    · exact Nat.le_of_eq hone
  complete hnone := by
    rcases h.failures with ⟨-, hskipped⟩ | hone
    · exact hskipped
    · simp [hnone] at hone
  reported := h.reported
  errors := h.errors
  processed i r hr := by
    -- The saved locales come first, and no other locale has the code of a saved one.
    rw [(h.report hr).1, ← h.partition, List.append_assoc, List.take_append, List.countP_append]
    rw [← h.partition, List.append_assoc, List.nodup_append] at hdistinct
    have hsaved : ((b.completed.take (i + 1)).countP fun code => b.completed.contains code) =
        (b.completed.take (i + 1)).length :=
      List.countP_eq_length.2 fun code hcode => by simpa using List.mem_of_mem_take hcode
    have hother : (((b.failures.map (·.1) ++ b.skipped).take (i + 1 - b.completed.length)).countP
        fun code => b.completed.contains code) = 0 :=
      List.countP_eq_zero.2 fun code hcode hsame =>
        hdistinct.2.2 code (by simpa using hsame) code (List.mem_of_mem_take hcode) rfl
    rw [hsaved, hother, List.length_take, Nat.zero_add]
    rfl
  total r hr := by
    obtain ⟨i, hi⟩ := List.mem_iff_getElem?.1 hr
    rw [(h.report hi).2.1, List.length_map]
  isComplete i r hr := by
    have hlength := congrArg List.length h.partition
    simp only [List.length_append, List.length_map] at hlength
    rw [(h.report hr).2.2, List.length_map]
    rcases h.failures with ⟨hnone, hskipped⟩ | hone
    · simp only [hnone, hskipped, List.length_nil] at hlength
      simp only [hnone, true_and]
      omega
    · have hne : b.failures ≠ [] := fun hnil => by simp [hnil] at hone
      simp only [hne, false_and, iff_false]
      omega

section World

variable (hdirectory : w.disk.isDirectory (.ofText directory) = true)
  (htimes : ∀ time ∈ w.clock, '/' ∉ time)
  (hcodes : ∀ entry ∈ entries, Locale.canonical? entry.1 = some entry.1)

include hdirectory htimes hcodes

/-- A run changes files of the locales that it tries to save, at most, and shows its reports. -/
theorem frame (h : Runs style directory backup total n w entries b reports w') :
    Disk.ChangesOnly (fun name => ∃ code ∈ b.completed ++ b.failures.map (·.1),
        Locale.Owns code name) w.disk w'.disk ∧
      w'.trace.filterMap Event.saveProgress? =
        w.trace.filterMap Event.saveProgress? ++ reports := by
  induction h with
  | done => exact ⟨.refl _, (List.append_nil _).symm⟩
  | @saved n w w₁ w' code path texts rest b reports hsave hrest ih =>
    have hcode := hcodes (code, texts) (by simp)
    have hsaving := saving_locale style texts backup hdirectory hcode
    rw [hsave] at hsaving
    have hchanges := hsaving.changesOnly_owns hcode (World.not_mem_now htimes)
    obtain ⟨hothers, hshown⟩ := ih (hchanges.isDirectory_eq.trans hdirectory)
      (fun time htime => htimes time (hsaving.clock_suffix.subset htime))
      fun entry he => hcodes entry (by simp [he])
    refine ⟨(hchanges.mono fun name hname => ⟨code, by simp, hname⟩).trans
      (hothers.mono ?_), ?_⟩
    · rintro name ⟨other, hother, hname⟩
      exact ⟨other, List.mem_cons_of_mem code hother, hname⟩
    · rw [hshown, World.trace_showing, List.filterMap_append, hsaving.reports_eq]
      simp [Event.saveProgress?]
  | @failed n w w₁ code texts fault rest hsave =>
    have hcode := hcodes (code, texts) (by simp)
    have hsaving := saving_locale style texts backup hdirectory hcode
    rw [hsave] at hsaving
    refine ⟨(hsaving.changesOnly_owns hcode (World.not_mem_now htimes)).mono fun name hname =>
      ⟨code, by simp, hname⟩, ?_⟩
    rw [World.trace_showing, List.filterMap_append, World.reports_noted, World.reports_saved,
      hsaving.reports_eq]

/-- The files of skipped locales are left as they are. -/
theorem skipped_untouched (h : Runs style directory backup total n w entries b reports w')
    (hdistinct : (entries.map (·.1)).Nodup) (hskipped : code ∈ b.skipped) {place : Location}
    {name : Text} (hlast : place.getLast? = some name) (hname : Locale.Owns code name) :
    w'.disk.node? place = w.disk.node? place := by
  refine (h.frame hdirectory htimes hcodes).1.others place fun other hother => ?_
  rintro ⟨tried, htried, howns⟩
  obtain rfl : name = other := Option.some.inj (hlast.symm.trans hother)
  have hspelled : ∀ c ∈ b.completed ++ b.failures.map (·.1) ++ b.skipped,
      Locale.canonical? c = some c := by
    intro c hc
    rw [h.partition] at hc
    obtain ⟨entry, he, rfl⟩ := List.mem_map.1 hc
    exact hcodes entry he
  obtain rfl : tried = code := howns.unique (hspelled tried (List.mem_append_left _ htried))
    (hspelled code (List.mem_append_right _ hskipped)) hname
  rw [← h.partition, List.nodup_append] at hdistinct
  exact hdistinct.2.2 tried htried tried hskipped rfl

end World

end Runs

/-- Whether some code is unknown, or two of them name the same locale. -/
def IsInvalid (codes : List Text) : Prop :=
  (∃ code ∈ codes, Locale.canonical? code = none) ∨ ¬ (codes.map Locale.canonical?).Nodup

instance (codes : List Text) : Decidable (IsInvalid codes) :=
  inferInstanceAs (Decidable (_ ∨ _))

/-- The texts of a batch are known under the catalog's spelling of their codes, or the batch is
refused. -/
theorem canonicalTexts_cases (known : Dictionary (Dictionary Text))
    (pairs : List (Text × Dictionary Text)) (w : World) :
    (∃ codes canonical, pairs.map (fun pair => Locale.canonical? pair.1) = codes.map some ∧
        (known.keys ++ codes).Nodup ∧
        canonical.entries = known.entries ++ codes.zip (pairs.map (·.2)) ∧
        Job.outcome (canonicalTexts known pairs) w = (.ok canonical, w)) ∨
      ((∃ pair ∈ pairs, Locale.canonical? pair.1 = none) ∨
          ¬ (known.keys.map some ++ pairs.map fun pair => Locale.canonical? pair.1).Nodup) ∧
        ∃ pair ∈ pairs, ∃ what, Job.outcome (canonicalTexts known pairs) w =
          (.error (.failure (.invalidLocale pair.1 what)), w) := by
  induction pairs generalizing known with
  | nil =>
    have hdistinct : known.keys.Nodup := by simpa using known.nodup_keys
    exact Or.inl ⟨[], known, rfl, by simpa using hdistinct, by simp, rfl⟩
  | cons pair pairs ih =>
    obtain ⟨code, texts⟩ := pair
    cases hcode : Locale.canonical? code with
    | none =>
      refine Or.inr ⟨Or.inl ⟨_, List.mem_cons_self, hcode⟩, _, List.mem_cons_self, none, ?_⟩
      rw [canonicalTexts, requireLocale, hcode]
      rfl
    | some canonical =>
      have hspelled : requireLocale code = pure canonical := by
        rw [requireLocale, hcode]
      rw [canonicalTexts, hspelled, pure_bind]
      cases hknown : known.contains canonical with
      | true =>
        have hmem : canonical ∈ known.keys := by
          obtain ⟨other, hother, hsame⟩ := Lexicon.contains_iff.1 hknown
          obtain rfl : other = canonical := hsame
          exact hother
        refine Or.inr ⟨Or.inr fun hdistinct => ?_, _, List.mem_cons_self, _, rfl⟩
        rw [List.map_cons, hcode, List.nodup_append] at hdistinct
        exact hdistinct.2.2 _ (List.mem_map_of_mem hmem) _ List.mem_cons_self rfl
      | false =>
        have hnew : ∀ e ∈ known.entries, id e.1 ≠ id canonical := by
          rw [Lexicon.contains_eq_isSome] at hknown
          exact Lexicon.get?_eq_none_iff.1 (by simpa using hknown)
        have hentries := Lexicon.entries_insert_of_new texts hnew
        have hkeys : (known.insert canonical texts).keys = known.keys ++ [canonical] := by
          rw [Lexicon.keys, hentries, List.map_append]
          rfl
        rw [if_neg Bool.false_ne_true, List.map_cons, List.map_cons, hcode]
        rcases ih (known.insert canonical texts) with
          ⟨codes, m, hcodes, hdistinct, hm, hrun⟩ | ⟨hinvalid, pair, hpair, what, hrun⟩
        · refine Or.inl ⟨canonical :: codes, m, by rw [hcodes]; rfl, ?_, ?_, hrun⟩
          · simpa [hkeys] using hdistinct
          · simpa [hentries] using hm
        · refine Or.inr ⟨hinvalid.imp ?_ ?_, pair, List.mem_cons_of_mem _ hpair, what, hrun⟩
          · rintro ⟨e, he, hnone⟩
            exact ⟨e, List.mem_cons_of_mem _ he, hnone⟩
          · intro hrepeated hdistinct
            exact hrepeated (by simpa [hkeys] using hdistinct)

/-- The spellings of the catalog are known under themselves. -/
theorem canonical?_of_mem {keys codes : List Text}
    (hcodes : keys.map Locale.canonical? = codes.map some) {code : Text} (hmem : code ∈ codes) :
    Locale.canonical? code = some code := by
  have hsome : some code ∈ keys.map Locale.canonical? := hcodes ▸ List.mem_map_of_mem hmem
  obtain ⟨key, -, hkey⟩ := List.mem_map.1 hsome
  exact Locale.canonical?_canonical hkey

/-- Each of the codes of a batch has a spelling of its own, or they are invalid and one of them is
refused. -/
theorem codes_cases (saves : Dictionary (Dictionary Text)) (w : World) :
    (¬ IsInvalid saves.keys ∧ ∃ (codes : List Text) (canonical : Dictionary (Dictionary Text)),
        saves.keys.map Locale.canonical? = codes.map some ∧ codes.Nodup ∧
        codes.length = saves.values.length ∧ canonical.entries = codes.zip saves.values ∧
        Job.outcome (canonicalTexts ∅ saves.entries) w = (.ok canonical, w)) ∨
      IsInvalid saves.keys ∧ ∃ code ∈ saves.keys, ∃ what,
        Job.outcome (canonicalTexts ∅ saves.entries) w =
          (.error (.failure (.invalidLocale code what)), w) := by
  have hkeys : saves.entries.map (fun pair => Locale.canonical? pair.1) =
      saves.keys.map Locale.canonical? := by
    rw [Lexicon.keys, List.map_map]
    rfl
  rcases canonicalTexts_cases ∅ saves.entries w with
    ⟨codes, canonical, hcodes, hdistinct, hentries, hrun⟩ | ⟨hinvalid, pair, hpair, what, hrun⟩
  · rw [hkeys] at hcodes
    have hnodup : codes.Nodup := (List.nodup_append.1 hdistinct).2.1
    refine Or.inl ⟨?_, codes, canonical, hcodes, hnodup, ?_, hentries, hrun⟩
    · rintro (⟨code, hcode, hnone⟩ | hrepeated)
      · have hmem : none ∈ codes.map some := hcodes ▸ List.mem_map.2 ⟨code, hcode, hnone⟩
        simp at hmem
      · exact hrepeated (hcodes ▸ hnodup.map fun _ _ h => Option.some.inj h)
    · have hsame := congrArg List.length hcodes
      simpa [Lexicon.keys, Lexicon.values] using hsame.symm
  · refine Or.inr ⟨hinvalid.imp ?_ fun hrepeated => hkeys ▸ hrepeated,
      pair.1, List.mem_map_of_mem hpair, what, hrun⟩
    rintro ⟨other, hother, hnone⟩
    exact ⟨other.1, List.mem_map_of_mem hother, hnone⟩

/-- A batch whose locales are known runs over them. -/
theorem outcome_batch (style : Locale.Style) (backup : Bool)
    (hdirectory : w.disk.isDirectory (.ofText directory) = true)
    (saves canonical : Dictionary (Dictionary Text))
    (hcanonical : Job.outcome (canonicalTexts ∅ saves.entries) w = (.ok canonical, w)) :
    ∃ b reports w', Runs style directory backup canonical.size 0 w canonical.entries b reports w' ∧
      Job.outcome (Save.batch style directory saves backup fun p => Job.emit (.saved p)) w =
        (if b.failures = [] then .ok b.completed
          else .error (.failure (.batchSave b.failures b.completed b.skipped)), w') := by
  obtain ⟨b, reports, w', hruns, hfold⟩ :=
    exists_runs style directory backup canonical.size canonical.entries [] w
  refine ⟨b, reports, w', hruns, ?_⟩
  rw [Save.batch, Job.outcome_bind, Backup.outcome_requireDirectory hdirectory]
  dsimp only
  rw [Job.outcome_bind, hcanonical]
  dsimp only
  rw [Job.outcome_bind, hfold]
  simp only [List.nil_append, List.isEmpty_iff]
  split
  · rfl
  · rfl

/-- A batch with an unknown code, or with two codes of one locale, is refused and changes nothing.
Otherwise its locales are dealt with one after another, and each of them is accounted for: those
before the first failure are saved, those after it are skipped with their files untouched, and each
one is reported once. The batch fails when a save has failed, and otherwise ends with the codes. -/
theorem batch_accounts (style : Locale.Style) (backup : Bool)
    (hdirectory : w.disk.isDirectory (.ofText directory) = true)
    (htimes : ∀ time ∈ w.clock, '/' ∉ time) (saves : Dictionary (Dictionary Text)) :
    (IsInvalid saves.keys → ∃ code ∈ saves.keys, ∃ what,
      Job.outcome (Save.batch style directory saves backup fun p => Job.emit (.saved p)) w =
        (.error (.failure (.invalidLocale code what)), w)) ∧
    (¬ IsInvalid saves.keys → ∃ codes b reports w',
      saves.keys.map Locale.canonical? = codes.map some ∧
      Runs style directory backup codes.length 0 w (codes.zip saves.values) b reports w' ∧
      IsAccount codes b reports ∧
      Job.outcome (Save.batch style directory saves backup fun p => Job.emit (.saved p)) w =
        (if b.failures = [] then .ok codes
          else .error (.failure (.batchSave b.failures b.completed b.skipped)), w') ∧
      w'.trace.filterMap Event.saveProgress? =
        w.trace.filterMap Event.saveProgress? ++ reports ∧
      ∀ code ∈ b.skipped, ∀ (place : Location) (name : Text), place.getLast? = some name →
        Locale.Owns code name → w'.disk.node? place = w.disk.node? place) := by
  rcases codes_cases saves w with
    ⟨hvalid, codes, canonical, hcodes, hdistinct, hlength, hentries, hrun⟩ |
    ⟨hinvalid, code, hcode, what, hrun⟩
  · refine ⟨fun h => absurd h hvalid, fun _ => ?_⟩
    have hfst : (codes.zip saves.values).map (·.1) = codes :=
      List.map_fst_zip (Nat.le_of_eq hlength)
    have hspelled : ∀ entry ∈ codes.zip saves.values,
        Locale.canonical? entry.1 = some entry.1 := fun entry he =>
      canonical?_of_mem hcodes (hfst ▸ List.mem_map_of_mem he)
    obtain ⟨b, reports, w', hruns, hbatch⟩ := outcome_batch style backup hdirectory saves canonical hrun
    have hsize : canonical.size = (codes.zip saves.values).length := by
      rw [Lexicon.size, hentries]
    have htotal : (codes.zip saves.values).length = codes.length := by
      rw [← List.length_map, hfst]
    rw [hsize, hentries] at hruns
    have haccount := hruns.isAccount (hfst.symm ▸ hdistinct)
    rw [hfst] at haccount
    refine ⟨codes, b, reports, w', hcodes, htotal ▸ hruns, haccount, ?_,
      (hruns.frame hdirectory htimes hspelled).2, fun code hskipped place name hlast hname =>
        hruns.skipped_untouched hdirectory htimes hspelled (hfst.symm ▸ hdistinct) hskipped hlast
          hname⟩
    rw [hbatch]
    split_ifs with hnone
    · have hall := haccount.partition
      rw [hnone, haccount.complete hnone, List.map_nil, List.append_nil, List.append_nil] at hall
      rw [hall]
    · rfl
  · refine ⟨fun _ => ⟨code, hcode, what, ?_⟩, fun hvalid => absurd hinvalid hvalid⟩
    rw [Save.batch, Job.outcome_bind, Backup.outcome_requireDirectory hdirectory]
    dsimp only
    rw [Job.outcome_bind, hrun]

/-- When the second of three files cannot be written, the first locale is saved and the third one is
skipped. Two spellings of one code are refused. -/
theorem batch_accounts_of_unwritable :
    let w : World := ⟨⟨[(["Loc".toList], .directory)], []⟩, ["20240101_000000".toList], [],
      fun _ => .timeout [],
      [⟨"Loc/frFR.lua".toList, .create, "[Errno 13] Permission denied".toList⟩], []⟩
    let style : Locale.Style := .default
    let saves (codes : List Text) : Dictionary (Dictionary Text) :=
      .ofList (codes.map fun code => (code, .ofList [("A".toList, "a".toList)]))
    let batch (codes : List Text) :=
      Save.batch style "Loc".toList (saves codes) true fun p => Job.emit (.saved p)
    w.disk.isDirectory (.ofText "Loc".toList) = true ∧ (∀ time ∈ w.clock, '/' ∉ time) ∧
      (∃ b reports, IsAccount ["deDE".toList, "frFR".toList, "itIT".toList] b reports ∧
        b.completed = ["deDE".toList] ∧ b.skipped = ["itIT".toList] ∧
        (Job.outcome (batch ["deDE".toList, "frfr".toList, "itIT".toList]) w).1 =
          .error (.failure (.batchSave b.failures b.completed b.skipped))) ∧
      ∃ code what, Job.outcome (batch ["deDE".toList, "dede".toList]) w =
        (.error (.failure (.invalidLocale code what)), w) := by
  intro w style saves batch
  have hdirectory : w.disk.isDirectory (.ofText "Loc".toList) = true := by decide +kernel
  have htimes : ∀ time ∈ w.clock, '/' ∉ time := by decide
  refine ⟨hdirectory, htimes, ?_, ?_⟩
  · have hkeys : (saves ["deDE".toList, "frfr".toList, "itIT".toList]).keys.map
        Locale.canonical? =
          ["deDE".toList, "frFR".toList, "itIT".toList].map some := by decide +kernel
    have hvalid : ¬ IsInvalid (saves ["deDE".toList, "frfr".toList, "itIT".toList]).keys := by
      decide +kernel
    obtain ⟨codes, b, reports, w', hcodes, -, haccount, hbatch, -⟩ :=
      (batch_accounts style true hdirectory htimes _).2 hvalid
    have hsame : codes = ["deDE".toList, "frFR".toList, "itIT".toList] :=
      List.map_inj_right (fun _ _ h => Option.some.inj h) |>.1 (hcodes.symm.trans hkeys)
    have hresult : (Job.outcome (batch ["deDE".toList, "frfr".toList, "itIT".toList]) w).1 =
        .error (.failure (.batchSave [("frFR".toList, "Failed to write Loc/frFR.lua: [Errno 13] Permission denied".toList)]
          ["deDE".toList] ["itIT".toList])) := by decide +kernel
    rw [hbatch] at hresult
    split_ifs at hresult with hnone
    have hcause := congrArg Failure.cause (Fault.failure.inj (Except.error.inj hresult))
    obtain ⟨-, hcompleted, hskipped⟩ := Cause.batchSave.inj hcause
    refine ⟨b, reports, hsame ▸ haccount, hcompleted, hskipped, ?_⟩
    rw [hbatch, if_neg hnone]
  · obtain ⟨code, -, what, hbatch⟩ := (batch_accounts style true hdirectory htimes
      (saves ["deDE".toList, "dede".toList])).1 (by decide +kernel)
    exact ⟨code, what, hbatch⟩

end Phrasebook.Save
