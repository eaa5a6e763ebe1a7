import Phrasebook.Proofs.Key.Lexicon
import Phrasebook.Proofs.Locale.Catalog
import Phrasebook.Proofs.Text.Utf8
import Phrasebook.Proofs.Workspace.Files
import Phrasebook.Workspace.Save

/-!
# What a save does to a file

A save that ends with a result has merged the file of its locale and has left every other file as it
was, backups apart; a save that ends with a fault has changed no file but backups.
-/

namespace Phrasebook.Save

open Job (Triple)

variable {style : Locale.Style} {directory code canonical : Text} {texts : Dictionary Text}
  {backup : Bool} {q : Path} {place : Location} {content : ByteArray} {t : Text}

/-- The text of the file of a locale after a save, for the text that it had. -/
def mergedText (style : Locale.Style) (code : Text) (texts : Dictionary Text) (t : Text) : Text :=
  Text.joinLines (Locale.fileLines style code texts (some (Text.lines t))) (Text.newlineOf t).text

/-- No backup has the name of the place. -/
def IsNoBackup (place : Location) : Prop :=
  ∀ start, place.getLast? ≠ some (start ++ Backup.ending)

/-- The name of a source file is the name of no backup. -/
theorem ne_backup (t start : Text) : t ++ ".lua".toList ≠ start ++ Backup.ending := by
  intro h
  have hlast := congrArg List.getLast? h
  have hsource : ".lua".toList.getLast? = some 'a' := by decide
  have hbackup : Backup.ending.getLast? = some 'p' := by decide
  rw [List.getLast?_append, List.getLast?_append, hsource, hbackup, Option.some_or,
    Option.some_or] at hlast
  exact absurd (Option.some.inj hlast) (by decide)

/-- A source file is no backup. -/
theorem isNoBackup_of_getLast? {name : Text} (h : place.getLast? = some (name ++ ".lua".toList)) :
    IsNoBackup place :=
  fun start hstart => ne_backup name start (Option.some.inj (h.symm.trans hstart))

/-- The path of the file of a locale leads to a place with the name of the file. -/
theorem getLast?_of_localePath (hcode : Locale.canonical? code = some canonical) {d : Disk}
    (hlocate : d.locate (.ofText (localePath directory canonical)) = .ok place) :
    place.getLast? = some (Locale.file canonical) := by
  have hname := Locale.isFileName_file hcode
  exact Disk.getLast?_of_locate hlocate (Path.getLast?_names_inDirectory directory hname)
    hname.2.2.1

/-- The file of a locale is no backup. -/
theorem isNoBackup_of_locale (hcode : Locale.canonical? code = some canonical) {d : Disk}
    (hlocate : d.locate (.ofText (localePath directory canonical)) = .ok place) :
    IsNoBackup place :=
  isNoBackup_of_getLast? (getLast?_of_localePath hcode hlocate)

/-- A backup changes no file but itself. -/
theorem holds_of_backup (hplace : IsNoBackup place) {d d' : Disk} {p : Path} {start : Text}
    {new : ByteArray} (h : Disk.Holds q place content d)
    (hlast : p.names.getLast? = some (start ++ Backup.ending)) (hwrite : d.write p new = .ok d') :
    Disk.Holds q place content d' := by
  have hname : start ++ Backup.ending ≠ ['.', '.'] := Path.append_ne (by decide) start
  exact h.write_name hlast hname (hplace start) hwrite

/-- A backup keeps the content of a file and the place that a path leads to. -/
theorem backup_triple (hplace : IsNoBackup place) (file t : Text) (p : Path)
    (φ : Location → Prop) {E : Disk → Prop} (hE : ∀ d, Disk.Holds q place content d → E d) :
    Triple (fun d => Disk.Holds q place content d ∧ ∃ target, d.locate p = .ok target ∧ φ target)
      (Backup.write file t)
      (fun _ d => Disk.Holds q place content d ∧ ∃ target, d.locate p = .ok target ∧ φ target)
      E := by
  refine Backup.write_triple file t ?_ fun d hd => hE d hd.1
  rintro d d' p' start new ⟨hholds, target, htarget, hφ⟩ hlast hwrite
  exact ⟨holds_of_backup hplace hholds hlast hwrite, target, Disk.locate_write hwrite htarget, hφ⟩

/-- What is read before a save: the lines of the file, when the path of the locale leads to it. -/
theorem existingLines_triple (hplace : IsNoBackup place) (hdecode : Text.decode content = .ok t)
    (path : Text) (backup : Bool) :
    Triple (Disk.Holds q place content) (existingLines path backup)
      (fun r d => Disk.Holds q place content d ∧ (d.locate (.ofText path) = .ok place →
        r = (some (Text.lines (Files.dropMark t)), Text.newlineOf (Files.dropMark t))))
      (Disk.Holds q place content) := by
  refine Triple.bind (Files.isFile_triple path) fun b => ?_
  cases b with
  | false =>
    refine Triple.pure fun d hd => ⟨hd.1, fun hlocate => ?_⟩
    have hfile : d.isFile (.ofText path) = true :=
      Disk.isFile_iff.2 ⟨content, hd.1.read_of_locate hlocate⟩
    simp [hfile] at hd
  | true =>
    refine Triple.bind (Files.readText_triple path fun d hd => hd.1) fun s => ?_
    have hsame : ∀ d, ((Disk.Holds q place content d ∧ d.isFile (.ofText path) = true) ∧
        Files.HasText d path s) →
        Disk.Holds q place content d ∧ ∃ target, d.locate (.ofText path) = .ok target ∧
          (target = place → s = Files.dropMark t) := by
      rintro d ⟨⟨hholds, -⟩, content', t', hread, hdecode', rfl⟩
      obtain ⟨target, htarget, -⟩ := Disk.read_eq_ok_iff.1 hread
      refine ⟨hholds, target, htarget, ?_⟩
      rintro rfl
      have hcontent := Except.ok.inj (hread.symm.trans (hholds.read_of_locate htarget))
      subst hcontent
      rw [Except.ok.inj (hdecode'.symm.trans hdecode)]
    have hdone : ∀ d, (Disk.Holds q place content d ∧ ∃ target,
        d.locate (.ofText path) = .ok target ∧ (target = place → s = Files.dropMark t)) →
        Disk.Holds q place content d ∧ (d.locate (.ofText path) = .ok place →
          (some (Text.lines s), Text.newlineOf s) =
            (some (Text.lines (Files.dropMark t)), Text.newlineOf (Files.dropMark t))) := by
      rintro d ⟨hholds, target, htarget, hs⟩
      refine ⟨hholds, fun hlocate => ?_⟩
      rw [hs (Except.ok.inj (htarget.symm.trans hlocate))]
    cases backup with
    | false => exact Triple.pure fun d hd => hdone d (hsame d hd)
    | true =>
      refine Triple.bind (R := fun _ d => Disk.Holds q place content d ∧ ∃ target,
        d.locate (.ofText path) = .ok target ∧ (target = place → s = Files.dropMark t)) ?_
        fun _ => Triple.pure hdone
      refine Triple.discard ((backup_triple hplace path s (.ofText path) _ fun d hd => hd).weaken
        hsame (fun _ _ hd => hd) fun _ hd => hd)

/-- A save that ends with a result has merged the file that the path of its locale leads to, and has
left the files that other paths lead to. One that ends with a fault has left all of them. -/
theorem locale_triple (hplace : IsNoBackup place) (hdecode : Text.decode content = .ok t)
    (hcode : Locale.canonical? code = some canonical) (texts : Dictionary Text) (backup : Bool) :
    Triple (Disk.Holds q place content) (Save.locale style directory code texts backup)
      (fun _ d => ∃ target, d.locate (.ofText (localePath directory canonical)) = .ok target ∧
        Disk.Holds q place (if target = place then
          Text.encode (mergedText style canonical texts (Files.dropMark t)) else content) d)
      (Disk.Holds q place content) := by
  refine Triple.bind (Files.requireDirectory_triple _ _ fun d hd => hd) fun _ => ?_
  refine Triple.bind (R := fun c d => Disk.Holds q place content d ∧ c = canonical) ?_
    fun c => Triple.of_disk fun d hd => ?_
  · rw [requireLocale, hcode]
    exact Triple.pure fun d hd => ⟨hd.1, rfl⟩
  · obtain ⟨hholds, rfl⟩ := hd
    refine Triple.weaken (P := Disk.Holds q place content) ?_ (fun _ hd => hd ▸ hholds)
      (fun _ _ h => h) fun _ h => h
    refine Triple.bind (existingLines_triple hplace hdecode _ backup) fun ⟨existing, newline⟩ => ?_
    refine Triple.bind Triple.recordAll fun _ => ?_
    refine Triple.bind (Files.writeText_triple _ _ fun d hd => hd.1) fun _ => ?_
    refine Triple.bind Triple.record fun _ => Triple.pure ?_
    rintro d' ⟨d, ⟨hholds, hlines⟩, hwrite⟩
    obtain ⟨target, htarget, hholds'⟩ := hholds.write hwrite
    refine ⟨target, htarget, ?_⟩
    by_cases hsame : target = place
    · obtain ⟨place', hplace', -⟩ := Disk.write_eq_ok hwrite
      have hlocate := (Disk.locate_write hwrite hplace').symm.trans htarget
      obtain rfl : place' = target := Except.ok.inj hlocate
      obtain ⟨rfl, rfl⟩ := Prod.mk.inj (hlines (hsame ▸ hplace'))
      exact hholds'
    · rw [if_neg hsame] at hholds' ⊢
      exact hholds'

/-- A locale of a batch is saved as long as none has failed. -/
theorem batchStep_triple {X X' E : Disk → Prop} {report : SaveProgress → Job Unit}
    (hreport : ∀ (P : Disk → Prop) p, Triple P (report p) (fun _ => P) E) (b : Batch) (total : Nat)
    (entry : Text × Dictionary Text)
    (hsave : Triple X (Save.locale style directory entry.1 entry.2 backup) (fun _ => X')
      fun _ => True) :
    Triple (fun d => b.failures = [] → X d)
      (batchStep style directory backup total report b entry)
      (fun b' d => b'.failures = [] → X' d) E := by
  unfold batchStep
  dsimp only
  split
  · rename_i hfailed
    have hne : b.failures ≠ [] := by
      intro hnil
      simp [hnil] at hfailed
    exact Triple.bind (R := fun _ _ => True)
      ((hreport (fun _ => True) _).weaken (fun _ _ => trivial) (fun _ _ h => h) fun _ h => h)
      fun _ => Triple.pure fun _ _ hnil => absurd hnil hne
  · rename_i hfailed
    have hnil : b.failures = [] := by simpa using hfailed
    have hattempt : Triple X _ _ E := Triple.attempt hsave
    refine Triple.bind (hattempt.weaken (fun _ hd => hd hnil) (fun _ _ h => h) fun _ h => h)
      fun outcome => ?_
    cases outcome with
    | ok path =>
      exact Triple.bind (hreport X' _) fun _ => Triple.pure fun _ hd _ => hd
    | error fault =>
      refine Triple.bind Triple.record fun _ => Triple.bind (hreport _ _) fun _ => Triple.pure ?_
      intro d _ hfailures
      simp at hfailures

/-- The texts of a batch are those that were given, when the catalog spells their codes. -/
theorem canonicalTexts_triple {P E : Disk → Prop} (hE : ∀ d, P d → E d)
    (known : Dictionary (Dictionary Text)) (pairs : List (Text × Dictionary Text))
    (hpairs : ∀ e ∈ pairs, Locale.canonical? e.1 = some e.1) :
    Triple P (canonicalTexts known pairs)
      (fun texts d => P d ∧ texts.entries = known.entries ++ pairs) E := by
  induction pairs generalizing known with
  | nil => exact Triple.pure fun d hd => ⟨hd, (List.append_nil _).symm⟩
  | cons pair pairs ih =>
    obtain ⟨code, texts⟩ := pair
    have hcode : requireLocale code = pure code := by
      rw [requireLocale, hpairs (code, texts) (by simp)]
    rw [canonicalTexts, hcode, pure_bind]
    split
    · exact Triple.fail hE
    · rename_i hfresh
      have hnew : ∀ e ∈ known.entries, id e.1 ≠ id code := by
        rw [Lexicon.contains_eq_isSome] at hfresh
        exact Lexicon.get?_eq_none_iff.1 (by simpa using hfresh)
      refine (ih (known.insert code texts) fun e he => hpairs e (by simp [he])).weaken
        (fun _ hd => hd) ?_ fun _ hd => hd
      rintro saved d ⟨hd, hentries⟩
      refine ⟨hd, ?_⟩
      rw [hentries, Lexicon.entries_insert_of_new texts hnew, List.append_assoc]
      rfl

/-- A file has its content, or the one that it has after a merge with the texts of a saved locale
whose name it bears. -/
def Merged (style : Locale.Style) (q : Path) (place : Location) (content : ByteArray) (t : Text)
    (saved : List (Text × Dictionary Text)) (d : Disk) : Prop :=
  Disk.Holds q place content d ∨ ∃ e ∈ saved, place.getLast? = some (Locale.file e.1) ∧
    Disk.Holds q place (Text.encode (mergedText style e.1 e.2 (Files.dropMark t))) d

/-- One more locale is saved. Files of different locales have different names, so no file is merged
twice. -/
theorem merged_triple (hplace : IsNoBackup place) (hdecode : Text.decode content = .ok t)
    {saved : List (Text × Dictionary Text)} {entry : Text × Dictionary Text}
    (hentry : Locale.canonical? entry.1 = some entry.1)
    (hsaved : ∀ e ∈ saved, Locale.canonical? e.1 = some e.1 ∧ e.1 ≠ entry.1) :
    Triple (Merged style q place content t saved)
      (Save.locale style directory entry.1 entry.2 backup)
      (fun _ => Merged style q place content t (saved ++ [entry])) fun _ => True := by
  refine Triple.of_disk fun d hd => ?_
  rcases hd with hholds | ⟨e, he, hlast, hholds⟩
  · have hsave : Triple (Disk.Holds q place content) (Save.locale style directory entry.1 entry.2
        backup) _ _ := locale_triple hplace hdecode hentry entry.2 backup
    refine hsave.weaken ?_ ?_ fun _ _ => trivial
    · rintro d' rfl
      exact hholds
    · rintro path d' ⟨target, htarget, hholds'⟩
      by_cases hsame : target = place
      · rw [if_pos hsame] at hholds'
        exact Or.inr ⟨entry, by simp, hsame ▸ getLast?_of_localePath hentry htarget, hholds'⟩
      · rw [if_neg hsame] at hholds'
        exact Or.inl hholds'
  · -- The file is merged already. It bears the name of `e`, so the save goes to another place.
    obtain ⟨hcanonical, hne⟩ := hsaved e he
    have hread := Text.decode_encode (mergedText style e.1 e.2 (Files.dropMark t))
    have hsave : Triple (Disk.Holds q place _) (Save.locale style directory entry.1 entry.2
        backup) _ _ := locale_triple hplace hread hentry entry.2 backup
    refine hsave.weaken ?_ ?_ fun _ _ => trivial
    · rintro d' rfl
      exact hholds
    · rintro path d' ⟨target, htarget, hholds'⟩
      have hother : target ≠ place := by
        rintro rfl
        have hfile : Locale.file entry.1 = Locale.file e.1 :=
          Option.some.inj ((getLast?_of_localePath hentry htarget).symm.trans hlast)
        exact hne (Locale.file_injective hfile).symm
      rw [if_neg hother] at hholds'
      exact Or.inr ⟨e, by simp [he], hlast, hholds'⟩

/-- A batch that ends with a result has merged the files of its locales and has left all others. -/
theorem batch_triple {report : SaveProgress → Job Unit}
    (hreport : ∀ (P : Disk → Prop) p, Triple P (report p) (fun _ => P) fun _ => True)
    (hplace : IsNoBackup place) (hdecode : Text.decode content = .ok t)
    (texts : Dictionary (Dictionary Text))
    (htexts : ∀ e ∈ texts.entries, Locale.canonical? e.1 = some e.1) :
    Triple (Disk.Holds q place content) (Save.batch style directory texts backup report)
      (fun _ => Merged style q place content t texts.entries) fun _ => True := by
  refine Triple.bind (Files.requireDirectory_triple _ _ fun _ _ => trivial).forget fun _ => ?_
  refine Triple.bind (canonicalTexts_triple (fun _ _ => trivial) ∅ _ htexts) fun saved => ?_
  refine Triple.of_disk fun d hd => ?_
  obtain ⟨hholds, hsaved⟩ := hd
  have hentries : ∀ e ∈ saved.entries, e ∈ texts.entries := fun e he => by
    simpa [hsaved] using he
  refine Triple.bind (R := fun b d =>
    b.failures = [] → Merged style q place content t saved.entries d) ?_ fun b => ?_
  · refine (Triple.foldlM_prefix (S := fun done b d =>
      b.failures = [] → Merged style q place content t done d)
        fun before entry after hsplit b => ?_).weaken ?_ (fun _ _ h => h) fun _ h => h
    · have hmem : ∀ e ∈ before ++ [entry], Locale.canonical? e.1 = some e.1 := by
        intro e he
        refine htexts e (hentries e ?_)
        rw [hsplit]
        rcases List.mem_append.1 he with he | he
        · simp [he]
        · simp [List.mem_singleton.1 he]
      refine batchStep_triple hreport b _ entry (merged_triple hplace hdecode
        (hmem entry (by simp)) fun e he => ⟨hmem e (by simp [he]), ?_⟩)
      have hdistinct := saved.distinct
      rw [hsplit, List.map_append, List.nodup_append] at hdistinct
      exact hdistinct.2.2 (id e.1) (List.mem_map_of_mem he) (id entry.1) (by simp)
    · rintro d' rfl _
      exact Or.inl hholds
  · split
    · rename_i hnone
      refine Triple.pure fun d hd => ?_
      rcases hd (by simpa using hnone) with hkept | ⟨e, he, hmerged⟩
      · exact Or.inl hkept
      · exact Or.inr ⟨e, hentries e he, hmerged⟩
    · exact Triple.fail fun _ _ => trivial

/-- The text of the file of the machine translations of a base locale. -/
def machineText (style : Locale.Style) (base : Text) (texts : Dictionary Text) : Text :=
  Text.joinLines (Locale.newFile style
    ((Locale.codesOf base).filter fun code => !Locale.isEnglish code) texts [])
      Text.Newline.lf.text

/-- What a save of machine translations makes of a disk: what the write of their file makes of it, as
far as a backup of the file keeps what is known before. -/
theorem machine_rule {P E : Disk → Prop} {Q : Disk → Prop} {base : Text} {texts : Dictionary Text}
    (hbackup : Triple P (Backup.create (Files.inDirectory directory (Locale.machineFile base)))
      (fun _ => P) E)
    (hwrite : ∀ d d', P d → d.write (.ofText (Files.inDirectory directory (Locale.machineFile base)))
      (Text.encode (machineText style base texts)) = .ok d' → Q d')
    (hE : ∀ d, P d → E d) (backup : Bool) :
    Triple P (Save.machine style directory base texts backup)
      (fun path d => path = Files.inDirectory directory (Locale.machineFile base) ∧ Q d) E := by
  have hsaved : Triple P (do
      Files.writeLines (Files.inDirectory directory (Locale.machineFile base))
        (Locale.newFile style ((Locale.codesOf base).filter fun code => !Locale.isEnglish code)
          texts []) Text.Newline.lf.text
      Job.record .info ("Wrote GT file ".toList ++
        Files.inDirectory directory (Locale.machineFile base))
      return Files.inDirectory directory (Locale.machineFile base))
      (fun path d => path = Files.inDirectory directory (Locale.machineFile base) ∧ Q d) E := by
    refine Triple.bind (Files.writeText_triple _ _ hE) fun _ => ?_
    refine Triple.bind Triple.record fun _ => Triple.pure ?_
    rintro d' ⟨d, hd, hwritten⟩
    exact ⟨rfl, hwrite d d' hd hwritten⟩
  refine Triple.bind (Files.requireDirectory_triple _ _ hE).forget fun _ => ?_
  dsimp only
  split
  · exact Triple.bind (R := fun _ _ => False) (Triple.fail hE) fun _ _ hw => hw.elim
  · split
    · refine Triple.bind (Files.isFile_triple _).forget fun b => ?_
      cases b with
      | true => exact Triple.bind (Triple.discard hbackup) fun _ => hsaved
      | false => exact hsaved
    · exact hsaved

/-- Machine translations that are written with a result are the content of the file that the path of
their base locale leads to, and the files that other paths lead to are left. -/
theorem machine_triple {base : Text} (hplace : IsNoBackup place) (texts : Dictionary Text)
    (backup : Bool) :
    Triple (Disk.Holds q place content) (Save.machine style directory base texts backup)
      (fun _ d => ∃ target,
        d.locate (.ofText (Files.inDirectory directory (Locale.machineFile base))) = .ok target ∧
        Disk.Holds q place (if target = place then
          Text.encode (machineText style base texts) else content) d)
      (Disk.Holds q place content) := by
  have hbackup : Triple (Disk.Holds q place content)
      (Backup.create (Files.inDirectory directory (Locale.machineFile base)))
      (fun _ => Disk.Holds q place content) (Disk.Holds q place content) :=
    Backup.create_triple _ (holds_of_backup hplace) fun _ hd => hd
  exact (machine_rule hbackup (fun _ _ hholds hwrite => hholds.write hwrite) (fun _ hd => hd)
    backup).weaken (fun _ hd => hd) (fun _ _ hd => hd.2) fun _ hd => hd

/-- The lines of a file that can be read are at hand. -/
theorem outcome_existingLines {path : Text} {w : World}
    (hread : w.disk.read (.ofText path) = .ok content) (hdecode : Text.decode content = .ok t) :
    Job.outcome (existingLines path false) w =
      (.ok (some (Text.lines (Files.dropMark t)), Text.newlineOf (Files.dropMark t)), w) := by
  rw [existingLines, Job.outcome_bind, Files.outcome_isFile, Disk.isFile_iff.2 ⟨content, hread⟩]
  simp only [if_true]
  rw [Job.outcome_bind, Files.outcome_readText hread hdecode]
  rfl

/-- A save without a backup succeeds for a file that is read, when every path can be written. -/
theorem locale_succeeds {w : World} (hcode : Locale.canonical? code = some canonical)
    (hdirectory : w.disk.isDirectory (.ofText directory) = true)
    (hread : w.disk.read (.ofText (localePath directory canonical)) = .ok content)
    (hdecode : Text.decode content = .ok t) (hunwritable : w.unwritable = [])
    (texts : Dictionary Text) :
    (Job.outcome (Save.locale style directory code texts false) w).1 =
      .ok (localePath directory canonical) := by
  have hrequired : Job.outcome (Backup.requireDirectory directory) w = (.ok ⟨⟩, w) := by
    rw [Backup.requireDirectory, Files.requireDirectory, Job.outcome_bind,
      Files.outcome_isDirectory, hdirectory]
    rfl
  have hspelled : Job.outcome (requireLocale code) w = (.ok canonical, w) := by
    rw [requireLocale, hcode, Job.outcome_pure]
  have hname := Locale.isFileName_file hcode
  obtain ⟨d, hwrite⟩ := Disk.exists_write_of_read hread
    (Path.getLast?_names_inDirectory directory hname) hname.2.2.1
    (Text.encode (mergedText style canonical texts (Files.dropMark t)))
  have hwritten : ∀ trace, Job.outcome (Files.writeText (localePath directory canonical)
      (mergedText style canonical texts (Files.dropMark t))) { w with trace := trace } =
        (.ok ⟨⟩, { w with disk := d, trace := trace }) := fun trace =>
    @Files.outcome_writeText _ _ d { w with trace := trace } hunwritable hwrite
  rw [mergedText] at hwritten
  rw [Save.locale, Job.outcome_bind, hrequired]
  simp only
  rw [Job.outcome_bind, hspelled]
  simp only
  rw [Job.outcome_bind, outcome_existingLines hread hdecode]
  simp only
  rw [Job.outcome_bind, Job.outcome_recordAll]
  simp only
  rw [Job.outcome_bind, Files.writeLines, hwritten]
  rfl

end Phrasebook.Save
