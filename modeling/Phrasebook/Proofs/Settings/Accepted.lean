import Phrasebook.Proofs.Settings.Readers

/-!
# Accepted settings

What settings a map of sections can be read as. Every default passes its own check, so a field that
is left out is in range as well. Accepted settings are as they are documented, but for three
exceptions: a line feed may stand behind the name of the table, a delay may be no number, and of an
endpoint nothing but its scheme may be left. Settings with such an endpoint are not accepted again.
-/

namespace Phrasebook

namespace Checked

variable {α β : Type} {b : β}

theorem map_eq_valid_iff {f : α → β} {a : Checked α} :
    f <$> a = .valid b ↔ ∃ x, a = .valid x ∧ f x = b := by
  cases a <;> simp [Functor.map, both]

theorem seq_eq_valid_iff {f : Checked (α → β)} {a : Checked α} :
    f <*> a = .valid b ↔ ∃ g x, f = .valid g ∧ a = .valid x ∧ g x = b :=
  both_eq_valid_iff

theorem seqLeft_eq_valid_iff {a : Checked α} {c : Checked β} {x : α} :
    a <* c = .valid x ↔ a = .valid x ∧ ∃ y, c = .valid y := by
  cases a <;> cases c <;> simp [SeqLeft.seqLeft, both]

theorem below_eq_valid_iff {name : Text} {a : Checked α} {x : α} :
    below name a = .valid x ↔ a = .valid x := by
  cases a <;> simp [below]

end Checked

namespace Readers

variable {α : Type} {read : Value → Checked α} {write : α → Value} {P : α → Prop}
  {v : Value} {name : String} {default a : α}

theorem single_eq_within (v : Value) (name : String) (default : α)
    (read : Value → Except ProblemKind α) :
    single v name default read = within v name default (only read) :=
  rfl

/-- What is read below a name is in range, when the default passes its own check. -/
theorem Restores.within (hread : Restores read write P)
    (hdefault : read (write default) = .valid default)
    (h : within v name default read = .valid a) : P a := by
  unfold Readers.within at h
  split at h
  · exact hread.sound (Checked.below_eq_valid_iff.1 h)
  · cases h
    exact hread.sound hdefault

/-- A field of a record is read below its name. -/
theorem within_record_cons (field : String) (fields : List (String × Value)) :
    Readers.within (.record ((field, v) :: fields)) name default read =
      if field = name then .below name.toList (read v)
      else Readers.within (.record fields) name default read := by
  have hsame : (Value.text field.toList).sameKey (.text name.toList) = decide (field = name) := by
    simp [Value.sameKey, String.toList_inj, beq_eq_decide]
  simp only [Readers.within, Value.get?, Value.record, List.map_cons, List.find?_cons, hsame]
  by_cases h : field = name <;> simp [h]

/-- A section is a map. -/
theorem mapOf_eq_valid {kind : String} (h : mapOf kind read v = .valid a) : read v = .valid a := by
  cases v with
  | map entries => exact h
  | _ => cases h

/-- A record is a map. -/
theorem mapOf_record (kind : String) (fields : List (String × Value)) :
    mapOf kind read (.record fields) = read (.record fields) :=
  rfl

end Readers

open Readers

/-- How accepted settings scan sources. -/
structure ScanSettings.IsAccepted (s : ScanSettings) : Prop where
  table : IsNameLine s.table
  cap : 1 ≤ s.cap ∧ s.cap ≤ 10000

theorem ScanSettings.restores : Restores read value IsAccepted where
  sound {v s} h := by
    replace h := mapOf_eq_valid h
    simp only [Checked.seq_eq_valid_iff, Checked.map_eq_valid_iff] at h
    obtain ⟨_, cap, ⟨_, _, ⟨_, _, ⟨_, _, ⟨table, htable, rfl⟩, -, rfl⟩, -, rfl⟩, -, rfl⟩,
      hcap, rfl⟩ := h
    exact ⟨restores_name.within rfl htable, (restores_intBetween 1 10000).within rfl hcap⟩
  back {s} hs := by
    rw [read, value, mapOf_record]
    simp only [single_eq_within, within_record_cons, String.reduceEq, if_true, if_false]
    rw [restores_name.back hs.table, restores_text.back trivial, restores_texts.back trivial,
      restores_texts.back trivial, (restores_intBetween 1 10000).back hs.cap]
    rfl

/-- Where the locale files of accepted settings are. -/
structure FileSettings.IsAccepted (s : FileSettings) : Prop where
  directory : s.directory ≠ []
  addon : s.addon ≠ []
  expression : s.expression ≠ []
  maxSaves : 1 ≤ s.maxSaves ∧ s.maxSaves ≤ 32

theorem FileSettings.restores : Restores read value IsAccepted where
  sound {v s} h := by
    replace h := mapOf_eq_valid h
    simp only [Checked.seq_eq_valid_iff, Checked.map_eq_valid_iff] at h
    obtain ⟨_, maxSaves, ⟨_, _, ⟨_, _, ⟨_, _, ⟨_, _, ⟨_, hdirectory, rfl⟩, -, rfl⟩, haddon, rfl⟩,
      hexpression, rfl⟩, -, rfl⟩, hmaxSaves, rfl⟩ := h
    exact ⟨restores_filledText.within rfl hdirectory, restores_filledText.within rfl haddon,
      restores_filledText.within rfl hexpression, (restores_intBetween 1 32).within rfl hmaxSaves⟩
  back {s} hs := by
    rw [read, value, mapOf_record]
    simp only [single_eq_within, within_record_cons, String.reduceEq, if_true, if_false]
    rw [restores_filledText.back hs.directory, restores_truth.back trivial,
      restores_filledText.back hs.addon, restores_filledText.back hs.expression,
      restores_texts.back trivial, (restores_intBetween 1 32).back hs.maxSaves]
    rfl

theorem JournalSettings.restores : Restores read value fun _ => True where
  sound _ := trivial
  back {s} _ := by
    rw [read, value, mapOf_record]
    simp only [single_eq_within, within_record_cons, String.reduceEq, if_true, if_false]
    rw [restores_level.back trivial, restores_text?.back trivial]
    rfl

namespace TranslationSettings

/-- Which service accepted settings ask, and how. -/
structure IsAccepted (s : TranslationSettings) : Prop where
  endpoint : IsEndpoint s.endpoint
  batchSize : 1 ≤ s.batchSize ∧ s.batchSize ≤ 128
  pause : IsNanOr (fun q => 0 ≤ q ∧ q ≤ 60) s.pause
  patience : IsNanOr (fun q => 0 < q ∧ q ≤ 300) s.patience

theorem restores_pause :
    Restores (only (doubleUpTo 60)) .double (IsNanOr fun q => 0 ≤ q ∧ q ≤ 60) := by
  simpa using restores_doubleUpTo 60

theorem restores_patience :
    Restores (only (positiveUpTo 300)) .double (IsNanOr fun q => 0 < q ∧ q ≤ 300) := by
  simpa using restores_positiveUpTo 300

/-- What is read of a section is accepted. -/
theorem isAccepted_of_read {v : Value} {s : TranslationSettings} (h : read v = .valid s) :
    s.IsAccepted := by
  replace h := mapOf_eq_valid h
  simp only [Checked.seq_eq_valid_iff, Checked.map_eq_valid_iff] at h
  obtain ⟨_, patience, ⟨_, pause, ⟨_, batchSize, ⟨_, endpoint, ⟨_, -, rfl⟩, hendpoint, rfl⟩,
    hbatchSize, rfl⟩, hpause, rfl⟩, hpatience, rfl⟩ := h
  exact ⟨restores_address.within rfl hendpoint, (restores_intBetween 1 128).within rfl hbatchSize,
    restores_pause.within rfl hpause, restores_patience.within rfl hpatience⟩

/-- The defaults are accepted, as they are read when all fields are left out. -/
theorem isAccepted_default : IsAccepted {} :=
  isAccepted_of_read (v := .map []) rfl

/-- Accepted settings are read from their fields with an endpoint that is read as theirs. -/
theorem read_value_iff {s : TranslationSettings} (hs : s.IsAccepted) (e : Text) :
    read { s with endpoint := e }.value = .valid s ↔ address (.text e) = .ok s.endpoint := by
  rw [read, value, mapOf_record]
  simp only [single_eq_within, within_record_cons, String.reduceEq, if_true, if_false]
  rw [restores_text?.back trivial, (restores_intBetween 1 128).back hs.batchSize,
    restores_pause.back hs.pause, restores_patience.back hs.patience, ← only_eq_valid_iff]
  cases only address (.text e) with
  | valid endpoint =>
    change Checked.valid (mk s.key endpoint s.batchSize s.pause s.patience) = .valid s ↔ _
    cases s
    simp
  | faulty problems => exact ⟨nofun, nofun⟩

/-- Accepted settings are read back when two slashes stand behind their endpoint. -/
theorem restores :
    Restores read (fun s => { s with endpoint := s.endpoint ++ "//".toList }.value) IsAccepted where
  sound := isAccepted_of_read
  back hs := (read_value_iff hs _).2 (only_eq_valid_iff.1 (restores_address.back hs.endpoint))

end TranslationSettings

namespace Settings

/-- The sections of accepted settings are accepted. -/
structure IsAccepted (s : Settings) : Prop where
  scan : s.scan.IsAccepted
  files : s.files.IsAccepted
  translation : s.translation.IsAccepted

/-- Problems stay problems when they are sorted. -/
theorem read_eq_ok_iff {v : Value} {s : Settings} : read v = .ok s ↔ check v = .valid s := by
  unfold read
  cases check v <;> simp [settle]

theorem isAccepted_of_read {v : Value} {s : Settings} (h : read v = .ok s) : s.IsAccepted := by
  rw [read_eq_ok_iff] at h
  cases v with
  | map entries =>
    simp only [check, Checked.seqLeft_eq_valid_iff, Checked.seq_eq_valid_iff,
      Checked.map_eq_valid_iff] at h
    obtain ⟨⟨_, journal, ⟨_, translation, ⟨_, files, ⟨scan, hscan, rfl⟩, hfiles, rfl⟩,
      htranslation, rfl⟩, -, rfl⟩, -⟩ := h
    exact ⟨ScanSettings.restores.within rfl hscan, FileSettings.restores.within rfl hfiles,
      TranslationSettings.restores.within (TranslationSettings.restores.back
        TranslationSettings.isAccepted_default) htranslation⟩
  | _ => cases h

/-- The fields of a record are sections when their names are. -/
theorem checkKeys_record {fields : List (String × Value)}
    (h : ∀ name ∈ fields.map Prod.fst, sections.contains name.toList = true) :
    checkKeys (fields.map fun field => (.text field.1.toList, field.2)) = .valid () := by
  have hnone : (fields.map fun field => (Value.text field.1.toList, field.2)).filterMap
      (fun entry => keyProblem? entry.1) = [] := by
    rw [List.filterMap_eq_nil_iff, List.forall_mem_map]
    exact fun field hfield => if_pos (h field.1 (List.mem_map_of_mem hfield))
  rw [checkKeys, hnone]

/-- The sections are read below their names. -/
theorem check_value (s : Settings) :
    check s.value =
      Settings.mk
        <$> .below "scan".toList (ScanSettings.read s.scan.value)
        <*> .below "locale_files".toList (FileSettings.read s.files.value)
        <*> .below "translation".toList (TranslationSettings.read s.translation.value)
        <*> .below "logging".toList (JournalSettings.read s.journal.value)
        <* .valid () := by
  have hkeys := @checkKeys_record [("scan", s.scan.value), ("locale_files", s.files.value),
    ("translation", s.translation.value), ("logging", s.journal.value)]
    (by simp only [List.map_cons, List.map_nil]; decide)
  rw [← hkeys]
  change Settings.mk <$> within s.value "scan" {} _ <*> within s.value "locale_files" {} _ <*>
    within s.value "translation" {} _ <*> within s.value "logging" {} _ <* checkKeys _ = _
  simp only [value, within_record_cons, String.reduceEq, if_true, if_false]

/-- The settings with another endpoint. -/
def withEndpoint (s : Settings) (e : Text) : Settings :=
  { s with translation := { s.translation with endpoint := e } }

theorem read_value_iff {s : Settings} (hs : s.IsAccepted) (e : Text) :
    read (s.withEndpoint e).value = .ok s ↔ address (.text e) = .ok s.translation.endpoint := by
  rw [read_eq_ok_iff, ← TranslationSettings.read_value_iff hs.translation, check_value]
  simp only [withEndpoint]
  rw [ScanSettings.restores.back hs.scan, FileSettings.restores.back hs.files,
    JournalSettings.restores.back trivial]
  cases TranslationSettings.read { s.translation with endpoint := e }.value with
  | valid translation =>
    change Checked.valid (mk s.scan s.files translation s.journal) = .valid s ↔ _
    cases s
    simp
  | faulty problems => exact ⟨nofun, nofun⟩

/-- The documented constraints on settings. -/
structure IsDocumented (s : Settings) : Prop where
  table : IsName s.scan.table
  cap : 1 ≤ s.scan.cap ∧ s.scan.cap ≤ 10000
  directory : s.files.directory ≠ []
  addon : s.files.addon ≠ []
  expression : s.files.expression ≠ []
  maxSaves : 1 ≤ s.files.maxSaves ∧ s.files.maxSaves ≤ 32
  endpoint : IsAddress s.translation.endpoint
  endpointEnd : s.translation.endpoint.getLast? ≠ some '/'
  batchSize : 1 ≤ s.translation.batchSize ∧ s.translation.batchSize ≤ 128
  pause : ∃ q, s.translation.pause.value? = some q ∧ 0 ≤ q ∧ q ≤ 60
  patience : ∃ q, s.translation.patience.value? = some q ∧ 0 < q ∧ q ≤ 300
  level : s.journal.level.name ∈
    ["DEBUG", "INFO", "WARNING", "ERROR", "CRITICAL"].map String.toList

/-- Settings are as documented when they are accepted, no line feed stands behind the name of the
table, the endpoint is no bare scheme and the delays are numbers. -/
theorem isDocumented_iff (s : Settings) :
    s.IsDocumented ↔ s.IsAccepted ∧ s.scan.table.getLast? ≠ some '\n' ∧
      ¬ IsBareScheme s.translation.endpoint ∧ s.translation.pause ≠ .nan ∧
      s.translation.patience ≠ .nan := by
  constructor
  · intro h
    obtain ⟨htable, hfeed⟩ := isName_iff_isNameLine.1 h.table
    obtain ⟨hpause, hpauseNan⟩ := exists_value?_iff.1 h.pause
    obtain ⟨hpatience, hpatienceNan⟩ := exists_value?_iff.1 h.patience
    exact ⟨⟨⟨htable, h.cap⟩, ⟨h.directory, h.addon, h.expression, h.maxSaves⟩,
      ⟨⟨Or.inl h.endpoint, h.endpointEnd⟩, h.batchSize, hpause, hpatience⟩⟩, hfeed,
      fun hbare => not_isAddress_of_isBareScheme hbare h.endpoint, hpauseNan, hpatienceNan⟩
  · rintro ⟨⟨hscan, hfiles, htranslation⟩, hfeed, hbare, hpause, hpatience⟩
    exact {
      table := isName_iff_isNameLine.2 ⟨hscan.table, hfeed⟩
      cap := hscan.cap
      directory := hfiles.directory
      addon := hfiles.addon
      expression := hfiles.expression
      maxSaves := hfiles.maxSaves
      endpoint := htranslation.endpoint.1.resolve_right hbare
      endpointEnd := htranslation.endpoint.2
      batchSize := htranslation.batchSize
      pause := exists_value?_iff.2 ⟨htranslation.pause, hpause⟩
      patience := exists_value?_iff.2 ⟨htranslation.patience, hpatience⟩
      level := by cases s.journal.level <;> decide }

/-- Which settings can be read from a value, which of them are as documented, and which of them are
read back from their own fields. A line feed behind the name of the table and a delay that is no
number are against the documentation and stay. An endpoint of which nothing but the scheme is left
is against it too, and settings with it are not accepted again. -/
theorem accepted_iff (s : Settings) :
    ((∃ v, read v = .ok s) ↔ s.IsAccepted) ∧
    (s.IsDocumented ↔ s.IsAccepted ∧ s.scan.table.getLast? ≠ some '\n' ∧
      ¬ IsBareScheme s.translation.endpoint ∧ s.translation.pause ≠ .nan ∧
      s.translation.patience ≠ .nan) ∧
    (read s.value = .ok s ↔ s.IsAccepted ∧ ¬ IsBareScheme s.translation.endpoint) := by
  refine ⟨⟨fun ⟨v, h⟩ => isAccepted_of_read h, fun hs => ?_⟩, isDocumented_iff s, ?_⟩
  · exact ⟨_, (read_value_iff hs _).2
      (only_eq_valid_iff.1 (restores_address.back hs.translation.endpoint))⟩
  · have hself (hs : s.IsAccepted) :
        read s.value = .ok s ↔ ¬ IsBareScheme s.translation.endpoint :=
      (read_value_iff hs s.translation.endpoint).trans (address_self_iff hs.translation.endpoint)
    exact ⟨fun h => ⟨isAccepted_of_read h, (hself (isAccepted_of_read h)).1 h⟩,
      fun ⟨hs, hbare⟩ => (hself hs).2 hbare⟩

/-- An endpoint without a host, a name with a line feed and a delay that is no number are accepted,
although none of them is as documented. The first one is not accepted again. -/
theorem accepted_iff_of_defects :
    let bare : Value := .record [("translation",
      .record [("endpoint", .text ("http:".toList ++ "//".toList))])]
    let feed : Value := .record [("scan", .record [("lookup_identifier", .text "L\n".toList)])]
    let delay : Value := .record [("translation",
      .record [("timeout_seconds", .text "nan".toList)])]
    (∃ s, read bare = .ok s ∧ ¬ s.IsDocumented ∧ read s.value ≠ .ok s) ∧
    (∃ s, read feed = .ok s ∧ ¬ s.IsDocumented ∧ read s.value = .ok s) ∧
    (∃ s, read delay = .ok s ∧ ¬ s.IsDocumented ∧ read s.value = .ok s) := by
  intro bare feed delay
  have hfeed := (accepted_iff { scan := { table := "L\n".toList } }).1.1 ⟨feed, by decide +kernel⟩
  have hdelay := (accepted_iff { translation := { patience := .nan } }).1.1
    ⟨delay, by decide +kernel⟩
  refine ⟨⟨{ translation := { endpoint := "http:".toList } }, by decide +kernel, ?_, ?_⟩,
    ⟨{ scan := { table := "L\n".toList } }, by decide +kernel, ?_, ?_⟩,
    ⟨{ translation := { patience := .nan } }, by decide +kernel, ?_, ?_⟩⟩
  · exact fun h => ((accepted_iff _).2.1.1 h).2.2.1 (Or.inl rfl)
  · exact fun h => ((accepted_iff _).2.2.1 h).2 (Or.inl rfl)
  · exact fun h => ((accepted_iff _).2.1.1 h).2.1 rfl
  · exact (accepted_iff _).2.2.2 ⟨hfeed, by decide +kernel⟩
  · exact fun h => ((accepted_iff _).2.1.1 h).2.2.2.2 rfl
  · exact (accepted_iff _).2.2.2 ⟨hdelay, by decide +kernel⟩

end Settings

end Phrasebook
