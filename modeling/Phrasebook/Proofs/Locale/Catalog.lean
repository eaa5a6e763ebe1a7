import Phrasebook.Locale.Catalog
import Phrasebook.Proofs.Path.Names

/-!
# The names of locale files

The catalog spells each code in one way, so locales that differ have files with different names. The
files of machine translations have names of their own.
-/

namespace Phrasebook.Locale

variable {code canonical other base base' : Text}

/-- The codes of the catalog. -/
def codes : List Text :=
  catalog.map (·.code)

/-- The base locales of the catalog. -/
def bases : List Text :=
  catalog.map (·.base)

/-- The catalog knows the codes that it spells. -/
theorem mem_codes_of_canonical? (h : canonical? code = some canonical) : canonical ∈ codes := by
  obtain ⟨found, hfound, rfl⟩ := Option.map_eq_some_iff.1 h
  exact List.mem_map_of_mem (List.mem_of_find?_eq_some hfound)

/-- The known codes are those that the catalog spells. -/
theorem isKnown_eq_isSome (code : Text) : isKnown code = (canonical? code).isSome := by
  rw [isKnown, canonical?, Option.isSome_map]

/-- The spelling of a code differs from it in case only. -/
theorem fold_of_canonical? (h : canonical? code = some canonical) :
    Text.fold canonical = Text.fold code := by
  obtain ⟨locale, hfound, rfl⟩ := Option.map_eq_some_iff.1 h
  simpa using List.find?_some hfound

/-- The catalog finds each of its codes, which is one line and the name of its file without the
suffix. -/
theorem of_mem_codes (h : code ∈ codes) :
    canonical? code = some code ∧ Path.IsFileName (file code) ∧ Path.stem (file code) = code ∧
      '\n' ∉ code := by
  have hall : ∀ code ∈ codes, canonical? code = some code ∧ Path.IsFileName (file code) ∧
      Path.stem (file code) = code ∧ '\n' ∉ code := by
    decide +kernel
  exact hall code h

/-- The spelling of a code is that of its own spelling. -/
theorem canonical?_canonical (h : canonical? code = some canonical) :
    canonical? canonical = some canonical :=
  (of_mem_codes (mem_codes_of_canonical? h)).1

/-- The code of the source locale is spelled as in the catalog. -/
theorem canonical?_source : canonical? source = some source := by
  decide +kernel

/-- Codes that fold to the same text have the same spelling. -/
theorem canonical?_congr (h : Text.fold code = Text.fold other) :
    canonical? code = canonical? other := by
  rw [canonical?, find?, h, ← find?, ← canonical?]

/-- Codes of the catalog that fold to the same text are the same. -/
theorem eq_of_fold_eq (h : canonical ∈ codes) (hother : other ∈ codes)
    (hfold : Text.fold canonical = Text.fold other) : canonical = other := by
  have hsame := canonical?_congr hfold
  rw [(of_mem_codes h).1, (of_mem_codes hother).1] at hsame
  exact Option.some.inj hsame

/-- The file of a locale has a name. -/
theorem isFileName_file (h : canonical? code = some canonical) :
    Path.IsFileName (file canonical) :=
  (of_mem_codes (mem_codes_of_canonical? h)).2.1

/-- No code of the catalog has a line feed. -/
theorem newline_not_mem_of_mem_codesOf (h : code ∈ codesOf base) : '\n' ∉ code := by
  obtain ⟨entry, hentry, rfl⟩ := List.mem_map.1 h
  exact (of_mem_codes (List.mem_map_of_mem (List.mem_filter.1 hentry).1)).2.2.2

/-- No code of the catalog has a bracket. -/
theorem bracket_not_mem_of_mem_codesOf (h : code ∈ codesOf base) : '[' ∉ code := by
  have hall : ∀ locale ∈ catalog, '[' ∉ locale.code := by decide
  obtain ⟨entry, hentry, rfl⟩ := List.mem_map.1 h
  exact hall entry (List.mem_filter.1 hentry).1

/-- Files of different locales have different names. -/
theorem file_injective : Function.Injective file :=
  fun _ _ h => List.append_cancel_right h

/-- The code of a locale is the name of its file without the suffix. -/
theorem stem_file (h : canonical ∈ codes) : Path.stem (file canonical) = canonical :=
  (of_mem_codes h).2.2.1

/-- The base locales of the catalog have files of their own, which are those of no locale. -/
theorem machineFile_of_mem_bases (h : base ∈ bases) :
    (∀ other ∈ bases, machineFile base = machineFile other → base = other) ∧
      ∀ code ∈ codes, file code ≠ machineFile base := by
  have hall : ∀ base ∈ bases,
      (∀ other ∈ bases, machineFile base = machineFile other → base = other) ∧
        ∀ code ∈ codes, file code ≠ machineFile base := by
    decide +kernel
  exact hall base h

/-- Each base locale with machine translations has a source file of its own for them, which is loaded
for no locale. -/
theorem of_mem_machineBases (h : base ∈ machineBases) :
    Path.IsFileName (machineFile base) ∧
      machineFile base =
        (machineFile base).take ((machineFile base).length - 4) ++ ".lua".toList ∧
      canonical? (Path.stem (machineFile base)) = none ∧
      ∀ base' ∈ machineBases,
        machineFile base = machineFile base' ∨ Text.fold base = Text.fold base' → base = base' := by
  have hall : ∀ base ∈ machineBases, Path.IsFileName (machineFile base) ∧
      machineFile base =
        (machineFile base).take ((machineFile base).length - 4) ++ ".lua".toList ∧
      canonical? (Path.stem (machineFile base)) = none ∧
      ∀ base' ∈ machineBases,
        machineFile base = machineFile base' ∨ Text.fold base = Text.fold base' →
          base = base' := by
    decide +kernel
  exact hall base h

/-- The base locale of a locale that is not English has machine translations. -/
theorem mem_machineBases_of_mem_codesOf (h : code ∈ codesOf base) (henglish : isEnglish code = false) :
    base ∈ machineBases := by
  have hall : ∀ locale ∈ catalog, isEnglish locale.code = false → locale.base ∈ machineBases := by
    decide +kernel
  obtain ⟨locale, hlocale, rfl⟩ := List.mem_map.1 h
  obtain ⟨hmem, hbase⟩ := List.mem_filter.1 hlocale
  exact of_decide_eq_true hbase ▸ hall locale hmem henglish

/-- The file of machine translations of a base locale has a name. -/
theorem isFileName_machineFile (h : base ∈ machineBases) : Path.IsFileName (machineFile base) :=
  (of_mem_machineBases h).1

/-- A file of machine translations is a source file. -/
theorem exists_machineFile_eq (h : base ∈ machineBases) :
    ∃ t, machineFile base = t ++ ".lua".toList :=
  ⟨_, (of_mem_machineBases h).2.1⟩

/-- No file of machine translations is loaded as a locale file. -/
theorem canonical?_stem_machineFile (h : base ∈ machineBases) :
    canonical? (Path.stem (machineFile base)) = none :=
  (of_mem_machineBases h).2.2.1

/-- The file of a locale is none of machine translations. -/
theorem file_ne_machineFile (hcode : canonical? code = some code) (h : base ∈ machineBases) :
    file code ≠ machineFile base := by
  intro hfile
  have hnone := canonical?_stem_machineFile h
  rw [← hfile, stem_file (mem_codes_of_canonical? hcode), hcode] at hnone
  simp at hnone

/-- Base locales whose files have the same name are the same. -/
theorem eq_of_machineFile_eq (h : base ∈ machineBases) (h' : base' ∈ machineBases)
    (hfile : machineFile base = machineFile base') : base = base' :=
  (of_mem_machineBases h).2.2.2 base' h' (Or.inl hfile)

/-- A base locale of the catalog that folds to one with machine translations is the same. -/
theorem mem_machineBases_of_fold_eq {language : Text} (hlanguage : language? base' = some language)
    (h : base ∈ machineBases) (hfold : Text.fold base = Text.fold base') : base' ∈ machineBases := by
  have hall : ∀ locale ∈ catalog, ∀ base ∈ machineBases,
      Text.fold base = Text.fold locale.base → base = locale.base := by
    decide +kernel
  obtain ⟨locale, hlocale, -⟩ := Option.map_eq_some_iff.1 hlanguage
  obtain rfl : locale.base = base' := by simpa using List.find?_some hlocale
  exact hall locale (List.mem_of_find?_eq_some hlocale) base h hfold ▸ h

/-- Base locales with machine translations that fold to the same text are the same. -/
theorem eq_of_fold_base_eq (h : base ∈ machineBases) (h' : base' ∈ machineBases)
    (hfold : Text.fold base = Text.fold base') : base = base' :=
  (of_mem_machineBases h).2.2.2 base' h' (Or.inr hfold)

end Phrasebook.Locale
