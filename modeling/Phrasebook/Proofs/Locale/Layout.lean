import Phrasebook.Proofs.Locale.Guard

/-!
# The layout of a file

The lines of a file fall into those before its region, the region, and those behind it. A layout
says why the region lies where it does: behind the first guard, up to the end of its block, or from
the first to the last assignment of a file without a guarded block.
-/

namespace Phrasebook.Locale

variable {table : Text}

/-- A file with a line that assigns a key consists of lines that assign none, of lines from the
first to the last one that assigns a key, and again of lines that assign none. -/
theorem exists_assigned_core {lines : List Text}
    (h : ∃ line ∈ lines, assignsKey table line = true) :
    ∃ front core back, lines = front ++ (core ++ back) ∧
      (∀ line ∈ front, assignsKey table line = false) ∧
      (∀ line ∈ back, assignsKey table line = false) ∧
      core.head?.any (assignsKey table) = true ∧ core.getLast?.any (assignsKey table) = true := by
  obtain ⟨line, hline, hassigns⟩ := h
  have hfirst : (lines.find? (assignsKey table)).isSome = true :=
    List.find?_isSome.2 ⟨line, hline, hassigns⟩
  obtain ⟨first, hfirst⟩ := Option.isSome_iff_exists.1 hfirst
  obtain ⟨hf, front, rest, rfl, hfront⟩ := List.find?_eq_some_iff_append.1 hfirst
  have hlast : ((first :: rest).reverse.find? (assignsKey table)).isSome = true :=
    List.find?_isSome.2 ⟨first, by simp, hf⟩
  obtain ⟨last, hlast⟩ := Option.isSome_iff_exists.1 hlast
  obtain ⟨hl, back, core, hsplit, hback⟩ := List.find?_eq_some_iff_append.1 hlast
  have hcore : first :: rest = core.reverse ++ [last] ++ back.reverse := by
    simpa using congrArg List.reverse hsplit
  refine ⟨front, core.reverse ++ [last], back.reverse, by rw [hcore], fun l hl' => ?_,
    fun l hl' => ?_, ?_, by simpa using hl⟩
  · simpa using hfront l hl'
  · simpa using hback l (by simpa using hl')
  · have hhead := congrArg List.head? hcore
    rw [List.head?_cons, List.head?_append_of_ne_nil _ (by simp)] at hhead
    simpa [← hhead] using hf

/-- The region of a file without a guard runs from its first to its last assignment. -/
theorem assignedRegion?_core {front core back : List Text}
    (hfront : ∀ line ∈ front, assignsKey table line = false)
    (hback : ∀ line ∈ back, assignsKey table line = false)
    (hhead : core.head?.any (assignsKey table) = true)
    (hlast : core.getLast?.any (assignsKey table) = true) :
    assignedRegion? table (front ++ (core ++ back)) =
      some ⟨front.length, front.length + core.length, false⟩ := by
  have hstart : (front ++ (core ++ back)).findIdx? (assignsKey table) = some front.length := by
    cases core with
    | nil => simp at hhead
    | cons line core =>
      rw [List.findIdx?_append, List.findIdx?_eq_none_iff.2 hfront]
      simp [List.findIdx?_cons, show assignsKey table line = true by simpa using hhead]
  have hstop : (front ++ (core ++ back)).reverse.findIdx (assignsKey table) = back.length := by
    cases core using List.reverseRecOn with
    | nil => simp at hlast
    | append_singleton core line =>
      have hline : assignsKey table line = true := by simpa using hlast
      have hback' : ∀ l ∈ back.reverse, assignsKey table l = false := by simpa using hback
      have hnone : back.reverse.findIdx (assignsKey table) = back.reverse.length :=
        List.findIdx_eq_length.2 hback'
      simp [List.findIdx_append, List.findIdx_cons, hnone, hline]
  simp only [assignedRegion?, hstart, hstop]
  simp only [List.length_append]
  congr 2
  omega

/-- Why the region of a file with the lines `front ++ (core ++ back)` is `core`. -/
inductive Layout (table : Text) : List Text → List Text → List Text → Bool → Prop where
  /-- The region stands between the first guard and the end of its block. -/
  | guard {before inside after : List Text} {guard fin : Text}
      (hbefore : ∀ line ∈ before, isGuard line = false) (hguard : isGuard guard = true)
      (hinside : ∀ line ∈ inside, isBlockEnd line = false) (hfin : isBlockEnd fin = true) :
      Layout table (before ++ [guard]) inside (fin :: after) true
  /-- The region runs from the first to the last assignment. -/
  | plain {front core back : List Text} (hblock : guardedBlock? (front ++ (core ++ back)) = none)
      (hfront : ∀ line ∈ front, assignsKey table line = false)
      (hback : ∀ line ∈ back, assignsKey table line = false)
      (hhead : core.head?.any (assignsKey table) = true)
      (hlast : core.getLast?.any (assignsKey table) = true) :
      Layout table front core back false

/-- A layout determines the region. -/
theorem Layout.region? {front core back : List Text} {guarded : Bool}
    (h : Layout table front core back guarded) :
    Locale.region? table (front ++ (core ++ back)) =
      some ⟨front.length, front.length + core.length, guarded⟩ := by
  cases h with
  | @guard before _ after guard fin hbefore hguard hinside hfin =>
    have hblock : guardedBlock? ((before ++ [guard]) ++ (core ++ fin :: after)) =
        some (before.length, before.length + 1 + core.length) :=
      guardedBlock?_eq_some_iff.2 ⟨before, guard, core, fin, after, by simp, hbefore, hguard,
        hinside, hfin, rfl, rfl⟩
    simp only [Locale.region?, hblock, List.length_append, List.length_singleton]
  | plain hblock hfront hback hhead hlast =>
    simp [Locale.region?, hblock, assignedRegion?_core hfront hback hhead hlast]

/-- A region cuts its lines out of a file. -/
theorem slice_layout (front core back : List Text) (guarded : Bool) :
    (Region.mk front.length (front.length + core.length) guarded).slice (front ++ (core ++ back)) =
      core := by
  rw [Region.slice, ← List.append_assoc, List.take_left' (by simp), List.drop_left' rfl]

/-- What is left behind a region. -/
theorem drop_layout (front core back : List Text) :
    (front ++ (core ++ back)).drop (front.length + core.length) = back := by
  rw [← List.append_assoc]
  exact List.drop_left' (by simp)

/-- The lines of a file around a region. -/
def Region.outside (region : Region) (lines : List Text) : List Text :=
  lines.take region.start ++ lines.drop region.stop

/-- What stands around a region. -/
theorem Layout.outside {front core back : List Text} {guarded : Bool} {region : Region}
    (h : Layout table front core back guarded)
    (hregion : Locale.region? table (front ++ (core ++ back)) = some region) :
    region.outside (front ++ (core ++ back)) = front ++ back := by
  obtain rfl := Option.some.inj (h.region?.symm.trans hregion)
  rw [Region.outside, List.take_left' rfl, drop_layout]

/-- Every region comes from a layout. -/
theorem exists_layout {lines : List Text} {region : Region}
    (h : region? table lines = some region) :
    ∃ front core back, lines = front ++ (core ++ back) ∧ region.slice lines = core ∧
      lines.drop region.stop = back ∧ Layout table front core back region.guarded := by
  cases hblock : guardedBlock? lines with
  | some block =>
    obtain ⟨start, stop⟩ := block
    obtain ⟨before, guard, inside, fin, after, rfl, hbefore, hguard, hinside, hfin, rfl, rfl⟩ :=
      guardedBlock?_eq_some_iff.1 hblock
    obtain rfl : _ = region := by simpa [region?, hblock] using h
    have hlayout : Layout table (before ++ [guard]) inside (fin :: after) true :=
      .guard hbefore hguard hinside hfin
    have hsplit : before ++ guard :: (inside ++ fin :: after) =
        (before ++ [guard]) ++ (inside ++ fin :: after) := by
      simp
    have hstart : before.length + 1 = (before ++ [guard]).length := by simp
    rw [hsplit, hstart]
    exact ⟨_, _, _, rfl, slice_layout _ _ _ _, drop_layout _ _ _, hlayout⟩
  | none =>
    have hassigned : assignedRegion? table lines = some region := by
      simpa [region?, hblock] using h
    have hex : ∃ line ∈ lines, assignsKey table line = true := by
      unfold assignedRegion? at hassigned
      cases hfirst : lines.findIdx? (assignsKey table) with
      | none => simp [hfirst] at hassigned
      | some first =>
        obtain ⟨hlt, hline, -⟩ := List.findIdx?_eq_some_iff_getElem.1 hfirst
        exact ⟨lines[first], List.getElem_mem hlt, hline⟩
    obtain ⟨front, core, back, rfl, hfront, hback, hhead, hlast⟩ := exists_assigned_core hex
    rw [assignedRegion?_core hfront hback hhead hlast] at hassigned
    obtain rfl := Option.some.inj hassigned
    exact ⟨front, core, back, rfl, slice_layout _ _ _ _, drop_layout _ _ _,
      .plain hblock hfront hback hhead hlast⟩

/-- A merge edits the region of a file and copies the lines around it. -/
theorem Layout.mergeLines {front core back : List Text} {guarded : Bool} {style : Style}
    (h : Layout style.table front core back guarded) (texts : KeyMap Text) :
    Locale.mergeLines style (front ++ (core ++ back)) texts =
      front ++ (mergeRegion style texts guarded core ++ back) := by
  have htake : (front ++ (core ++ back)).take front.length = front := List.take_left' rfl
  simp only [Locale.mergeLines, h.region?, slice_layout, htake, drop_layout, List.append_assoc]

/-- A file with a line that is not blank is not written anew. -/
theorem isFresh_eq_false {lines : List Text} {line : Text} (hline : line ∈ lines)
    (hblank : Text.isBlankText line = false) : isFresh (some lines) = false := by
  simp only [isFresh, List.all_eq_false]
  exact ⟨line, hline, by simp [hblank]⟩

end Phrasebook.Locale
