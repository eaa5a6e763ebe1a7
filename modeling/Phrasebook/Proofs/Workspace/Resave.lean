import Phrasebook.Proofs.Locale.Unchanged
import Phrasebook.Proofs.Workspace.Save

/-!
# Saving what was read

Saving the texts that were read from the file of a locale leaves the file byte for byte as it is
exactly when the region of the file settles its keys. Reading takes assignments from everywhere in a
file, while only the region is edited, so an assignment behind the end of the region is taken for a
new key, and a literal behind a computed assignment of its key for a repeated one.
-/

namespace Phrasebook.Save

open Phrasebook.Locale (Entries Settles assignments leader?)

variable {code canonical : Text} {content : ByteArray} {t : Text} {w : World}

/-- A save leaves a file as it is exactly when merging gives its text again. -/
theorem read_locale (style : Locale.Style) (directory : Text)
    (hcode : Locale.canonical? code = some canonical) (texts : Dictionary Text)
    (backup : Bool) (hread : w.disk.read (.ofText (localePath directory canonical)) = .ok content)
    (hdecode : Text.decode content = .ok t) :
    match Job.outcome (Save.locale style directory code texts backup) w with
    | (.ok _, w') => w'.disk.read (.ofText (localePath directory canonical)) =
        .ok (Text.encode (mergedText style canonical texts (Files.dropMark t)))
    | (.error _, w') => w'.disk.read (.ofText (localePath directory canonical)) = .ok content := by
  obtain ⟨place, hholds⟩ := Disk.read_eq_ok_iff.1 hread
  have hplace : IsNoBackup place := isNoBackup_of_locale hcode hholds.1
  have hall := @locale_triple style directory code canonical _ place content t hplace hdecode hcode
    texts backup w hholds
  generalize Job.outcome (Save.locale style directory code texts backup) w = o at hall ⊢
  rcases o with ⟨fault | p, w'⟩
  · exact hall.read
  · obtain ⟨target, htarget, hholds'⟩ := hall
    obtain rfl : target = place := Except.ok.inj (htarget.symm.trans hholds'.1)
    simpa using hholds'.read

/-- Saving the texts that were read from a file leaves it byte for byte as it is when its region
settles its keys, and only then if the save succeeds and the keys that the region does not assign
can be written. -/
theorem locale_keeps_read_texts {style : Locale.Style} {code canonical directory : Text}
    {content : ByteArray} {t : Text} (w : World) (backup : Bool)
    (hcode : Locale.canonical? code = some canonical)
    (hread : w.disk.read (.ofText (localePath directory canonical)) = .ok content)
    (hdecode : Text.decode content = .ok t) (hmark : t.head? ≠ some '\uFEFF')
    (huniform : Text.IsUniform t) (hlast : t.getLast? = some '\n')
    (hassigned : assignments style.table (Text.lines t) ≠ [])
    (hunique : (Entries.ofLines style.table (Text.lines t)).duplicates.isEmpty = true)
    (hblank : ∀ e ∈ (Entries.ofLines style.table (Text.lines t)).texts.entries,
      Text.isBlankText e.2 = false) :
    let texts := Locale.exactly (Entries.ofLines style.table (Text.lines t)).texts
    let saved := Job.outcome (Save.locale style directory code texts backup) w
    ∃ region, Locale.region? style.table (Text.lines t) = some region ∧
      (Settles style.table (Text.lines t) (region.slice (Text.lines t)) →
        saved.2.disk.read (.ofText (localePath directory canonical)) = .ok content) ∧
      ∀ path, saved.1 = .ok path →
        (∀ a ∈ assignments style.table (Text.lines t),
          leader? style.table a.key (region.slice (Text.lines t)) = none → Glue.IsKey a.key) →
        saved.2.disk.read (.ofText (localePath directory canonical)) = .ok content →
          Settles style.table (Text.lines t) (region.slice (Text.lines t)) := by
  intro texts saved
  obtain ⟨region, hregion⟩ := Locale.exists_region_of_assignments hassigned
  have hvalues : ∀ a ∈ assignments style.table (Text.lines t),
      Text.isBlankText a.value = false := by
    intro a ha
    obtain ⟨k, hmem, -⟩ := Lexicon.get?_eq_some_iff.1 (Locale.get?_of_mem_assignments hunique ha)
    exact hblank _ hmem
  have hsame : Text.encode (Text.joinLines (Text.lines t) (Text.newlineOf t).text) = content := by
    rw [Text.joinLines_lines huniform hlast, Text.encode_of_decode hdecode]
  have hsaved := read_locale style directory hcode texts backup hread hdecode
  rw [Files.dropMark_of_head? hmark, mergedText] at hsaved
  change match saved with | (.ok _, w') => _ | (.error _, w') => _ at hsaved
  generalize saved = o at hsaved
  refine ⟨region, hregion, fun hsettles => ?_, ?_⟩
  · rcases o with ⟨fault | path, w'⟩
    · exact hsaved
    · rw [hsaved, Locale.fileLines_of_settles hassigned canonical hregion hunique hvalues hsettles,
        hsame]
  · rintro path hpath hwritable hkept
    obtain ⟨result, w'⟩ := o
    obtain rfl : result = .ok path := hpath
    have hencoded := Except.ok.inj (hsaved.symm.trans hkept)
    have hdecoded := congrArg Text.decode (hencoded.trans hsame.symm)
    rw [Text.decode_encode, Text.decode_encode] at hdecoded
    exact Locale.settles_of_fileLines hassigned canonical hregion hunique hvalues hwritable
      (fun line hline => Text.not_mem_of_mem_lines hline) (Except.ok.inj hdecoded)

/-- The first line that starts with `end` closes the guard, so a key behind a nested block is
written a second time. -/
theorem locale_changes_nested_block :
    let t := Text.joinLines ["if locale == \"deDE\" then".toList, "    L[\"a\"] = \"x\"".toList,
      "    if raid then".toList, "        L[\"b\"] = \"y\"".toList, "    end".toList,
      "    L[\"c\"] = \"z\"".toList, "end".toList] ['\n']
    let w : World := ⟨⟨[(["Loc".toList], .directory),
      (["Loc".toList, "deDE.lua".toList], .file (Text.encode t))], []⟩, [], [],
      fun _ => .timeout [], [], []⟩
    let texts := Locale.exactly (Entries.ofLines Locale.Style.default.table (Text.lines t)).texts
    let saved := Job.outcome (Save.locale .default "Loc".toList "deDE".toList texts false) w
    saved.1 = .ok "Loc/deDE.lua".toList ∧
      saved.2.disk.read (.ofText "Loc/deDE.lua".toList) ≠ .ok (Text.encode t) := by
  intro t w
  dsimp only
  have hcode : Locale.canonical? "deDE".toList = some "deDE".toList := by decide +kernel
  have hpath : localePath "Loc".toList "deDE".toList = "Loc/deDE.lua".toList := by decide +kernel
  have hread : w.disk.read (.ofText (localePath "Loc".toList "deDE".toList)) =
      .ok (Text.encode t) := rfl
  have hdecode := Text.decode_encode t
  obtain ⟨region, hregion, -, hexact⟩ := @locale_keeps_read_texts .default _ _ _ _ t w false hcode
    hread hdecode (by decide +kernel) (by decide +kernel) (by decide +kernel) (by decide +kernel)
    (by decide +kernel) (by decide +kernel)
  rw [← hpath]
  have hsucceeds := @locale_succeeds .default _ _ _ _ _ w hcode rfl hread hdecode rfl
    (Locale.exactly (Entries.ofLines Locale.Style.default.table (Text.lines t)).texts)
  refine ⟨hsucceeds, fun hkept => ?_⟩
  have hbounds : Locale.region? Locale.Style.default.table (Text.lines t) = some ⟨1, 4, true⟩ := by
    decide +kernel
  obtain rfl := Option.some.inj (hregion.symm.trans hbounds)
  have hsettles := hexact _ hsucceeds (by decide +kernel) hkept
  have hbehind := hsettles.all ⟨"c".toList, "z".toList, "    ".toList⟩ (by decide +kernel)
  exact absurd hbehind (by decide +kernel)

end Phrasebook.Save
