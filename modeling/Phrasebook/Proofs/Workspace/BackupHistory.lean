import Phrasebook.Proofs.Workspace.BackupList

/-!
# What a history of saves leaves in the backups

A save with a backup writes the text that it finds under the time of the clock. The text stays there
through all later saves, unless one of them finds another text in the same second.
-/

namespace Phrasebook

namespace Backup

variable {file time time' : Text}

/-- Backups of a file at different times have different names. -/
theorem path_injective (h : path file time = path file time') : time = time' := by
  rw [path, path] at h
  exact (List.cons.inj (List.append_cancel_left (List.append_cancel_right h))).2

/-- No locale file has the name of a backup. -/
theorem path_ne_file (other : Text) : path file time ≠ Locale.file other :=
  fun h => Save.ne_backup other (file ++ '.' :: time) h.symm

end Backup

namespace Save

open Files (HasText)

variable {style : Locale.Style} {directory code canonical t time : Text} {texts : Dictionary Text}
  {w w' : World} {result : Except Fault Text} {found : Option Text}

/-- A world in which a directory can be worked on. -/
structure IsReady (directory : Text) (w : World) : Prop where
  /-- The names on the disk are names of files. -/
  names : w.disk.HasFileNames
  /-- The directory is there. -/
  directory : w.disk.isDirectory (.ofText directory) = true
  /-- The clock shows no slashes. -/
  times : ∀ time ∈ w.clock, '/' ∉ time

section Canonical

variable {backup : Bool} (hcode : Locale.canonical? code = some code)

include hcode

/-- Securing a file keeps the names of the disk proper. -/
theorem Secured.hasFileNames (hnow : '/' ∉ w.now)
    (h : Secured (localePath directory code) backup w found w') (hnames : w.disk.HasFileNames) :
    w'.disk.HasFileNames := by
  cases h with
  | absent => exact hnames
  | unbacked => exact hnames
  | backed htext hbackup hwrite =>
    obtain ⟨hlast, hname⟩ := Backup.isNamed_path directory (Locale.isFileName_file hcode) hnow
    exact hnames.write hwrite hlast hname

/-- A directory can be worked on after a save, whatever becomes of it. -/
theorem Saving.isReady (h : Saving style (localePath directory code) code texts backup w result w')
    (hready : IsReady directory w) : IsReady directory w' := by
  have hnow := World.not_mem_now hready.times
  have hname := Locale.isFileName_file hcode
  refine ⟨?_, (h.changesOnly hcode hnow).isDirectory_eq.trans hready.directory,
    fun time htime => hready.times time (h.clock_suffix.subset htime)⟩
  cases h with
  | unsecured hsame => rcases hsame with rfl | rfl <;> exact hready.names
  | refused hsecured =>
    rw [World.disk_noted]
    exact hsecured.hasFileNames hcode hnow hready.names
  | saved hsecured hallowed hwrite =>
    exact (hsecured.hasFileNames hcode hnow hready.names).write hwrite
      (Path.getLast?_names_inDirectory directory hname) hname

/-- The backups of a locale file are read as before when the file itself is written. -/
theorem read_backup_iff {d d' : Disk} {content : ByteArray} (htime : '/' ∉ time)
    (h : Disk.ChangesOnly (· = Locale.file code) d d') :
    d'.read (.ofText (Backup.path (localePath directory code) time)) = .ok content ↔
      d.read (.ofText (Backup.path (localePath directory code) time)) = .ok content := by
  obtain ⟨hlast, hname⟩ := Backup.isNamed_path directory (Locale.isFileName_file hcode) htime
  exact h.read_iff hlast hname.2.2.1 (Backup.path_ne_file code)

/-- Writing the file of a locale changes no other file. -/
theorem changesOnly_file {d d' : Disk} {content : ByteArray}
    (hwrite : d.write (.ofText (localePath directory code)) content = .ok d') :
    Disk.ChangesOnly (· = Locale.file code) d d' := by
  have hname := Locale.isFileName_file hcode
  exact .of_write hwrite (Path.getLast?_names_inDirectory directory hname) hname.2.2.1 rfl

/-- A text that is backed up stays so when a file is secured, unless another text is backed up at the
same time. -/
theorem Secured.keeps_backup (hnow : '/' ∉ w.now)
    (h : Secured (localePath directory code) backup w found w') (htime : '/' ∉ time)
    (hread : w.disk.read (.ofText (Backup.path (localePath directory code) time)) =
      .ok (Text.encode t))
    (hsame : w.now = time → ∀ t', HasText w.disk (localePath directory code) t' → t' = t) :
    w'.disk.read (.ofText (Backup.path (localePath directory code) time)) =
      .ok (Text.encode t) := by
  by_cases hclock : w.now = time
  · subst hclock
    cases h with
    | absent => exact hread
    | unbacked => exact hread
    | backed htext hbackup hwrite => exact hsame rfl _ htext ▸ Disk.read_write hwrite
  · obtain ⟨hlast, hname⟩ := Backup.isNamed_path directory (Locale.isFileName_file hcode) htime
    refine ((h.changesOnly hcode hnow).read_iff hlast hname.2.2.1 fun hpath => ?_).2 hread
    exact hclock (Backup.path_injective hpath).symm

/-- A text that is backed up stays so through a save, unless another text is backed up at the same
time. -/
theorem Saving.keeps_backup (hnow : '/' ∉ w.now)
    (h : Saving style (localePath directory code) code texts backup w result w')
    (htime : '/' ∉ time)
    (hread : w.disk.read (.ofText (Backup.path (localePath directory code) time)) =
      .ok (Text.encode t))
    (hsame : w.now = time → ∀ t', HasText w.disk (localePath directory code) t' → t' = t) :
    w'.disk.read (.ofText (Backup.path (localePath directory code) time)) =
      .ok (Text.encode t) := by
  cases h with
  | unsecured hsame => rcases hsame with rfl | rfl <;> exact hread
  | refused hsecured =>
    rw [World.disk_noted]
    exact hsecured.keeps_backup hcode hnow htime hread hsame
  | saved hsecured hallowed hwrite =>
    exact (read_backup_iff hcode htime (changesOnly_file hcode hwrite)).2
      (hsecured.keeps_backup hcode hnow htime hread hsame)

omit hcode in
/-- A file that has a text is there when it is secured, and the text is backed up when this is asked
for. -/
theorem Secured.of_hasText (h : Secured (localePath directory code) true w found w')
    (htext : HasText w.disk (localePath directory code) t) :
    w'.disk.read (.ofText (Backup.path (localePath directory code) w.now)) =
      .ok (Text.encode t) := by
  cases h with
  | absent hnone =>
    obtain ⟨content, t', hread, -⟩ := htext
    rw [Disk.isFile_iff.2 ⟨content, hread⟩] at hnone
    simp at hnone
  | unbacked _ hbackup => simp at hbackup
  | backed hfound hbackup hwrite => exact hfound.unique htext ▸ Disk.read_write hwrite

/-- A save that ends with a result has backed up the text that it found. -/
theorem Saving.backs_up (hnow : '/' ∉ w.now)
    (h : Saving style (localePath directory code) code texts true w result w') {path : Text}
    (hresult : result = .ok path) (htext : HasText w.disk (localePath directory code) t) :
    w'.disk.read (.ofText (Backup.path (localePath directory code) w.now)) =
      .ok (Text.encode t) := by
  cases h with
  | unsecured => simp at hresult
  | refused => simp at hresult
  | saved hsecured hallowed hwrite =>
    exact (read_backup_iff hcode hnow (changesOnly_file hcode hwrite)).2 (hsecured.of_hasText htext)

/-- A save that ends with a fault has left the file its text. -/
theorem Saving.hasText (hnow : '/' ∉ w.now)
    (h : Saving style (localePath directory code) code texts backup w result w') {fault : Fault}
    (hresult : result = .error fault) (htext : HasText w.disk (localePath directory code) t) :
    HasText w'.disk (localePath directory code) t := by
  cases h with
  | unsecured hsame => rcases hsame with rfl | rfl <;> exact htext
  | refused hsecured =>
    obtain ⟨content, t', hread, hrest⟩ := htext
    have hname := Locale.isFileName_file hcode
    refine ⟨content, t', ?_, hrest⟩
    exact ((hsecured.changesOnly hcode hnow).read_iff
      (Path.getLast?_names_inDirectory directory hname) hname.2.2.1
      (Backup.path_ne_file code).symm).2 hread
  | saved => simp at hresult

end Canonical

/-- A directory can be worked on after a run of saves. -/
theorem IsReady.each (hcode : Locale.canonical? code = some canonical) (backup : Bool)
    {saves : List (Dictionary Text)} (hready : IsReady directory w) :
    IsReady directory
      (Job.outcome (Job.each (Save.locale style directory code · backup) saves) w).2 := by
  refine Job.Keeps.each (I := IsReady directory) (fun texts _ w hw => ?_) w hready
  exact (saving_locale style texts backup hw.directory hcode).isReady (Locale.canonical?_canonical hcode) hw

/-- A text that is backed up stays so through a run of saves, unless one of them finds another text at
the same time. -/
theorem each_keeps_backup (hcode : Locale.canonical? code = some canonical) (htime : '/' ∉ time)
    {saves : List (Dictionary Text)} (hready : IsReady directory w)
    (hread : w.disk.read (.ofText (Backup.path (localePath directory canonical) time)) =
      .ok (Text.encode t))
    (hsame : ∀ before later after, saves = before ++ later :: after →
      ∀ w₁, (Job.outcome (Job.each (Save.locale style directory code · true) before) w).2 = w₁ →
        w₁.now = time → ∀ t', HasText w₁.disk (localePath directory canonical) t' → t' = t) :
    (Job.outcome (Job.each (Save.locale style directory code · true) saves) w).2.disk.read
        (.ofText (Backup.path (localePath directory canonical) time)) =
      .ok (Text.encode t) := by
  induction saves generalizing w with
  | nil => exact hread
  | cons texts saves ih =>
    have hcanonical := Locale.canonical?_canonical hcode
    have hsaving := saving_locale style texts true hready.directory hcode
    rw [Job.outcome_each_cons]
    refine ih (hsaving.isReady hcanonical hready)
      (hsaving.keeps_backup hcanonical (World.not_mem_now hready.times) htime hread ?_) ?_
    · exact hsame [] texts saves rfl w rfl
    · intro before later after hsplit w₁ hw₁
      refine hsame (texts :: before) later after (by rw [hsplit, List.cons_append]) w₁ ?_
      rwa [Job.outcome_each_cons]

/-- In a run of saves with backups, a save that ends with a fault leaves the text that it found in the
file, and one that ends with a result leaves it in a backup. The backup is listed after the run and
holds the text still, unless a later save has found another text in the same second. -/
theorem each_locale_backs_up (hcode : Locale.canonical? code = some canonical)
    (hready : IsReady directory w) (before after : List (Dictionary Text)) (texts : Dictionary Text)
    {w₁ : World}
    (hbefore : (Job.outcome (Job.each (Save.locale style directory code · true) before) w).2 = w₁)
    (htext : HasText w₁.disk (localePath directory canonical) t)
    (hsame : ∀ between later rest, after = between ++ later :: rest →
      ∀ w₂, (Job.outcome (Job.each (Save.locale style directory code · true)
          (before ++ texts :: between)) w).2 = w₂ →
        w₂.now = w₁.now → ∀ t', HasText w₂.disk (localePath directory canonical) t' → t' = t)
    (hafter : (Job.outcome (Job.each (Save.locale style directory code · true)
      (before ++ texts :: after)) w).2 = w') :
    (∀ fault, (Job.outcome (Save.locale style directory code texts true) w₁).1 = .error fault →
      HasText (Job.outcome (Save.locale style directory code texts true) w₁).2.disk
        (localePath directory canonical) t) ∧
    ∀ path, (Job.outcome (Save.locale style directory code texts true) w₁).1 = .ok path →
      ∃ backups, Job.outcome (Backup.all directory code) w' = (.ok backups, w') ∧
        Backup.path (localePath directory canonical) w₁.now ∈ backups ∧
        w'.disk.read (.ofText (Backup.path (localePath directory canonical) w₁.now)) =
          .ok (Text.encode t) := by
  have hcanonical := Locale.canonical?_canonical hcode
  have hready₁ : IsReady directory w₁ := hbefore ▸ hready.each hcode true
  have hnow := World.not_mem_now hready₁.times
  have hsaving := saving_locale style texts true hready₁.directory hcode
  refine ⟨fun fault hfault => hsaving.hasText hcanonical hnow hfault htext, fun path hpath => ?_⟩
  have hready' : IsReady directory w' := hafter ▸ hready.each hcode true
  have hread := each_keeps_backup hcode hnow (hsaving.isReady hcanonical hready₁)
    (hsaving.backs_up hcanonical hnow hpath htext)
    fun between later rest hsplit w₂ hw₂ => hsame between later rest hsplit w₂ (by
      rwa [Job.outcome_each_append, hbefore, Job.outcome_each_cons])
  rw [← hbefore, ← Job.outcome_each_cons, ← Job.outcome_each_append, hafter, hbefore] at hread
  refine ⟨_, Backup.outcome_all hready'.names hready'.directory (Backup.stepsOf_pattern hcode),
    (Backup.mem_filesNamed_pattern_iff hready'.names hcode).2 ⟨w₁.now, hnow, rfl, ?_⟩, hread⟩
  exact Disk.isFile_iff.2 ⟨_, hread⟩

/-- With a second between two saves, the text that the first one found is left in its backup. -/
theorem each_locale_backs_up_of_two_seconds :
    let t := "L[\"A\"] = \"a\"\n".toList
    let w : World := ⟨⟨[(["Loc".toList], .directory),
      (["Loc".toList, "deDE.lua".toList], .file (Text.encode t))], []⟩,
      ["20240102_030405".toList, "20240102_030406".toList], [], fun _ => .timeout [], [], []⟩
    let first : Dictionary Text := .ofList [("A".toList, "b".toList)]
    let second : Dictionary Text := .ofList [("A".toList, "c".toList)]
    let w' := (Job.outcome (Job.each (Save.locale .default "Loc".toList "dede".toList · true)
      [first, second]) w).2
    HasText w.disk (localePath "Loc".toList "deDE".toList) t ∧
      ∃ backups, Job.outcome (Backup.all "Loc".toList "dede".toList) w' = (.ok backups, w') ∧
        ∃ backup ∈ backups, w'.disk.read (.ofText backup) = .ok (Text.encode t) := by
  intro t w first second w'
  have hready : IsReady "Loc".toList w :=
    ⟨by decide +kernel, by decide +kernel, by decide +kernel⟩
  have htext : HasText w.disk (localePath "Loc".toList "deDE".toList) t :=
    ⟨Text.encode t, t, by decide +kernel, Text.decode_encode t, by decide⟩
  have hcode : Locale.canonical? "dede".toList = some "deDE".toList := by decide +kernel
  have hresult : (Job.outcome (Save.locale .default "Loc".toList "dede".toList first true) w).1 =
      .ok "Loc/deDE.lua".toList := by decide +kernel
  have hlater : (Job.outcome (Job.each (Save.locale .default "Loc".toList "dede".toList · true)
      [first]) w).2.now ≠ w.now := by decide +kernel
  obtain ⟨-, hbacked⟩ := each_locale_backs_up hcode hready [] [second] first rfl htext
    (fun between later rest hsplit w₂ hw₂ hclock => by
      cases between with
      | nil => exact absurd (hw₂ ▸ hclock) hlater
      | cons _ between => simp at hsplit) (Eq.refl w')
  obtain ⟨backups, hall, hmem, hread⟩ := hbacked _ hresult
  exact ⟨htext, backups, hall, _, hmem, hread⟩

/-- Two saves in one second write to the same backup, and the text that the first one found is left in
no backup. -/
theorem each_locale_loses_text_in_a_second :
    let t := "L[\"A\"] = \"a\"\n".toList
    let w : World := ⟨⟨[(["Loc".toList], .directory),
      (["Loc".toList, "deDE.lua".toList], .file (Text.encode t))], []⟩,
      ["20240102_030405".toList], [], fun _ => .timeout [], [], []⟩
    let w' := (Job.outcome (Job.each (Save.locale .default "Loc".toList "deDE".toList · true)
      [.ofList [("A".toList, "b".toList)], .ofList [("A".toList, "c".toList)]]) w).2
    HasText w.disk (localePath "Loc".toList "deDE".toList) t ∧
      ∃ backups, Job.outcome (Backup.all "Loc".toList "deDE".toList) w' = (.ok backups, w') ∧
        ∀ backup ∈ backups, w'.disk.read (.ofText backup) ≠ .ok (Text.encode t) := by
  intro t w w'
  have hready : IsReady "Loc".toList w :=
    ⟨by decide +kernel, by decide +kernel, by decide +kernel⟩
  have htext : HasText w.disk (localePath "Loc".toList "deDE".toList) t :=
    ⟨Text.encode t, t, by decide +kernel, Text.decode_encode t, by decide⟩
  have hcode : Locale.canonical? "deDE".toList = some "deDE".toList := by decide +kernel
  have hready' : IsReady "Loc".toList w' := hready.each hcode true
  refine ⟨htext, _, Backup.outcome_all hready'.names hready'.directory
    (Backup.stepsOf_pattern hcode), fun backup hbackup => ?_⟩
  have hlisted : w'.disk.filesNamed "Loc".toList (Backup.pattern "deDE".toList) =
      ["Loc/deDE.lua.20240102_030405.backup".toList] := by
    decide +kernel
  rw [hlisted, List.mem_singleton] at hbackup
  subst hbackup
  decide +kernel

end Save

end Phrasebook
