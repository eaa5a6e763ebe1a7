import Phrasebook.Proofs.Text.Lines

/-!
# Where joining undoes splitting

A content is made up of its lines again exactly when nothing stands behind its last line feed and its
lines all end alike. Lines that are joined are read back, and so is the way in which they end, unless a
line feed would take the carriage return of a line for its own.
-/

namespace Phrasebook.Text

/-- Every line feed of a content follows a carriage return. -/
def HasReturns (content : Text) : Prop :=
  ∀ front rest, content = front ++ '\n' :: rest → front.getLast? = some '\r'

/-- No line feed of a content follows a carriage return. -/
def HasNoReturns (content : Text) : Prop :=
  ∀ front rest, content = front ++ '\n' :: rest → front.getLast? ≠ some '\r'

/-! ### The ends of lines -/

/-- The ends of lines are those of what stands in front of the line feeds. -/
theorem mem_lineEnds_iff {content : Text} {newline : Newline} :
    newline ∈ lineEnds content ↔
      ∃ front rest, content = front ++ '\n' :: rest ∧ endOf front = newline := by
  suffices ∀ previous, newline ∈ lineEndsFrom previous content ↔
      ∃ front rest, content = front ++ '\n' :: rest ∧
        (if front.getLast?.or previous = some '\r' then .crlf else .lf) = newline by
    simpa [endOf, lineEnds] using this none
  induction content with
  | nil => simp [lineEndsFrom]
  | cons c t ih =>
    intro previous
    have hback : ∀ front : Text, (c :: front).getLast?.or previous = front.getLast?.or (some c) := by
      intro front
      rw [List.getLast?_cons]
      cases front.getLast? <;> rfl
    have hlater : newline ∈ lineEndsFrom (some c) t ↔
        ∃ front rest, t = front ++ '\n' :: rest ∧
          (if (c :: front).getLast?.or previous = some '\r' then .crlf else .lf) = newline := by
      simp only [ih, hback]
    by_cases hc : c = '\n'
    · rw [lineEndsFrom, if_pos hc, List.mem_cons, hlater]
      constructor
      · rintro (rfl | ⟨front, rest, rfl, hend⟩)
        · exact ⟨[], t, by rw [hc]; rfl, rfl⟩
        · exact ⟨c :: front, rest, rfl, hend⟩
      · rintro ⟨front, rest, hsplit, hend⟩
        cases front with
        | nil => exact Or.inl hend.symm
        | cons d front =>
          obtain ⟨rfl, rfl⟩ := List.cons.inj hsplit
          exact Or.inr ⟨front, rest, rfl, hend⟩
    · rw [lineEndsFrom, if_neg hc, hlater]
      constructor
      · rintro ⟨front, rest, rfl, hend⟩
        exact ⟨c :: front, rest, rfl, hend⟩
      · rintro ⟨front, rest, hsplit, hend⟩
        cases front with
        | nil => exact absurd (List.cons.inj hsplit).1 hc
        | cons d front =>
          obtain ⟨rfl, rfl⟩ := List.cons.inj hsplit
          exact ⟨front, rest, rfl, hend⟩

/-- All lines end with a carriage return exactly when every line feed follows one. -/
theorem hasReturns_iff {content : Text} :
    HasReturns content ↔ ∀ newline ∈ lineEnds content, newline = .crlf := by
  constructor
  · intro h newline hmem
    obtain ⟨front, rest, hsplit, rfl⟩ := mem_lineEnds_iff.1 hmem
    rw [endOf, if_pos (h front rest hsplit)]
  · intro h front rest hsplit
    by_contra hlast
    have hend := h _ (mem_lineEnds_iff.2 ⟨front, rest, hsplit, rfl⟩)
    simp [endOf, hlast] at hend

/-- All lines end without a carriage return exactly when no line feed follows one. -/
theorem hasNoReturns_iff {content : Text} :
    HasNoReturns content ↔ ∀ newline ∈ lineEnds content, newline = .lf := by
  constructor
  · intro h newline hmem
    obtain ⟨front, rest, hsplit, rfl⟩ := mem_lineEnds_iff.1 hmem
    rw [endOf, if_neg (h front rest hsplit)]
  · intro h front rest hsplit hlast
    have hend := h _ (mem_lineEnds_iff.2 ⟨front, rest, hsplit, rfl⟩)
    simp [endOf, hlast] at hend

/-- The newline of a content is the end of its first line. -/
theorem newlineOf_append {line : Text} (h : '\n' ∉ line) (rest : Text) :
    newlineOf (line ++ '\n' :: rest) = endOf line := by
  have hfeed : newlineOf ('\n' :: rest) = .lf := by cases rest <;> simp [newlineOf]
  induction line with
  | nil => exact hfeed
  | cons c line ih =>
    simp only [List.mem_cons, not_or] at h
    cases line with
    | nil => simp [newlineOf, endOf, Ne.symm h.1, hfeed]
    | cons d line =>
      have hd : d ≠ '\n' := by
        rintro rfl
        simp at h
      have htail := ih h.2
      rw [List.cons_append] at htail
      simp [newlineOf, Ne.symm h.1, hd, htail, endOf]

/-- The lines of a content end alike when all of them have the same end. -/
theorem isUniform_iff {content : Text} :
    IsUniform content ↔ HasReturns content ∨ HasNoReturns content := by
  rw [hasReturns_iff, hasNoReturns_iff]
  constructor
  · intro h
    cases hfirst : newlineOf content with
    | lf => exact Or.inr fun newline hmem => (h newline hmem).trans hfirst
    | crlf => exact Or.inl fun newline hmem => (h newline hmem).trans hfirst
  · intro h
    by_cases hfeed : '\n' ∈ content
    · obtain ⟨line, rest, rfl, hline⟩ := List.eq_append_cons_of_mem hfeed
      have hfirst : newlineOf (line ++ '\n' :: rest) ∈ lineEnds (line ++ '\n' :: rest) := by
        rw [newlineOf_append hline, lineEnds_append hline]
        exact List.mem_cons_self
      rcases h with h | h <;>
        exact fun newline hmem => (h newline hmem).trans (h _ hfirst).symm
    · intro newline hmem
      obtain ⟨front, rest, rfl, -⟩ := mem_lineEnds_iff.1 hmem
      simp at hfeed

/-! ### Contents that are made up of their lines -/

/-- A content is cut at its first line feed in one way only. -/
theorem append_newline_inj {line line' rest rest' : Text} (h : '\n' ∉ line) (h' : '\n' ∉ line')
    (hsame : line ++ '\n' :: rest = line' ++ '\n' :: rest') : line = line' ∧ rest = rest' := by
  have hpieces := congrArg (pieces '\n') hsame
  rw [pieces_append h, pieces_append h'] at hpieces
  obtain rfl := (List.cons.inj hpieces).1
  exact ⟨rfl, (List.cons.inj (List.append_cancel_left hsame)).2⟩

/-- A content that is made up of its lines and one end has nothing behind its last line feed, and this
end everywhere. -/
theorem of_joinLines_lines {content : Text} {newline : Newline}
    (h : joinLines (lines content) newline.text = content) :
    (content = [] ∨ content.getLast? = some '\n') ∧ ∀ e ∈ lineEnds content, e = newline := by
  induction content using line_induction with
  | last line hline =>
    rw [lines_of_not_mem hline] at h
    by_cases hempty : line = []
    · subst hempty
      exact ⟨Or.inl rfl, fun e he => absurd he List.not_mem_nil⟩
    · rw [if_neg hempty] at h
      have hnone : newline.text = [] := by simpa [joinLines] using h
      cases newline <;> simp [Newline.text] at hnone
  | step line rest hline ih =>
    have hdrop : '\n' ∉ dropReturn line :=
      not_mem_of_mem_lines (lines_append hline rest ▸ List.mem_cons_self)
    rw [lines_append hline] at h
    -- what is joined in front of the first line feed has to be the first line
    have hcut : endOf line = newline ∧ joinLines (lines rest) newline.text = rest := by
      cases newline with
      | lf =>
        have hjoined : dropReturn line ++ '\n' :: joinLines (lines rest) Newline.lf.text =
            line ++ '\n' :: rest := by
          simpa [joinLines, Newline.text] using h
        obtain ⟨hsame, hrest⟩ := append_newline_inj hdrop hline hjoined
        refine ⟨if_neg fun hlast => ?_, hrest⟩
        obtain ⟨front, rfl⟩ := List.getLast?_eq_some_iff.1 hlast
        simp [dropReturn] at hsame
      | crlf =>
        have hjoined : dropReturn line ++ ['\r'] ++ '\n' :: joinLines (lines rest)
            Newline.crlf.text = line ++ '\n' :: rest := by
          simpa [joinLines, Newline.text] using h
        obtain ⟨hsame, hrest⟩ := append_newline_inj (by simpa using hdrop) hline hjoined
        refine ⟨if_pos ?_, hrest⟩
        rw [← hsame, List.getLast?_concat]
    obtain ⟨hlast, hends⟩ := ih hcut.2
    rw [lineEnds_append hline, List.forall_mem_cons]
    refine ⟨Or.inr ?_, hcut.1, hends⟩
    rcases hlast with rfl | hlast
    · rw [List.getLast?_concat]
    · rw [List.getLast?_append, List.getLast?_cons, hlast]
      rfl

/-- A content is made up of its lines exactly when it has none, or when nothing stands behind its last
line feed and either all or none of its line feeds follow a carriage return. -/
theorem joinLines_lines_iff (content : Text) :
    joinLines (lines content) (newlineOf content).text = content ↔
      content = [] ∨
        content.getLast? = some '\n' ∧ (HasReturns content ∨ HasNoReturns content) := by
  constructor
  · intro h
    obtain ⟨hlast, hends⟩ := of_joinLines_lines h
    exact hlast.imp_right fun hlast => ⟨hlast, isUniform_iff.1 hends⟩
  · rintro (rfl | ⟨hlast, halike⟩)
    · rfl
    · exact joinLines_lines (isUniform_iff.2 halike) hlast

/-! ### Lines that are joined -/

section Joined

variable {ls : List Text} {newline : Newline} (hlines : ∀ line ∈ ls, '\n' ∉ line)
  (hends : newline = .lf → ∀ line ∈ ls, line.getLast? ≠ some '\r')

include hlines

include hends in
/-- Lines are read back when no line feed takes a carriage return of theirs. -/
theorem lines_joinLines_eq : lines (joinLines ls newline.text) = ls := by
  rw [lines_joinLines ls newline hlines]
  refine (List.map_congr_left fun line hline => ?_).trans (List.map_id ls)
  cases newline with
  | lf => exact if_neg (hends rfl line hline)
  | crlf => rfl

include hends in
/-- The newline of joined lines is the one that they were joined with. -/
theorem newlineOf_joinLines (hne : ls ≠ []) : newlineOf (joinLines ls newline.text) = newline := by
  obtain ⟨line, rest, rfl⟩ := List.exists_cons_of_ne_nil hne
  have hline := hlines line List.mem_cons_self
  cases newline with
  | lf =>
    have hjoined : joinLines (line :: rest) Newline.lf.text =
        line ++ '\n' :: joinLines rest Newline.lf.text := by
      simp [joinLines, Newline.text]
    rw [hjoined, newlineOf_append hline]
    exact if_neg (hends rfl line List.mem_cons_self)
  | crlf =>
    have hjoined : joinLines (line :: rest) Newline.crlf.text =
        (line ++ ['\r']) ++ '\n' :: joinLines rest Newline.crlf.text := by
      simp [joinLines, Newline.text]
    rw [hjoined, newlineOf_append (by simpa using hline)]
    exact if_pos List.getLast?_concat

end Joined

/-- Splitting and joining undo each other where they can: the contents that are made up of their lines
are told by their line feeds, and lines are read back with their newline whenever none of them has a
character that a newline would take. -/
theorem lines_and_joinLines_inverse :
    (∀ content : Text, joinLines (lines content) (newlineOf content).text = content ↔
      content = [] ∨
        content.getLast? = some '\n' ∧ (HasReturns content ∨ HasNoReturns content)) ∧
    ∀ (ls : List Text) (newline : Newline), (∀ line ∈ ls, '\n' ∉ line) →
      (newline = .lf → ∀ line ∈ ls, line.getLast? ≠ some '\r') →
      lines (joinLines ls newline.text) = ls ∧
        (ls ≠ [] → newlineOf (joinLines ls newline.text) = newline) :=
  ⟨joinLines_lines_iff, fun _ _ hlines hends =>
    ⟨lines_joinLines_eq hlines hends, newlineOf_joinLines hlines hends⟩⟩

/-- An empty line and a line with a carriage return at its end are read back behind carriage returns of
their own. -/
theorem lines_and_joinLines_inverse_of_doubled_returns :
    let ls := ["a\r".toList, [], "\rb".toList]
    (∀ line ∈ ls, '\n' ∉ line) ∧
      (Newline.crlf = .lf → ∀ line ∈ ls, line.getLast? ≠ some '\r') ∧
      joinLines ls Newline.crlf.text = "a\r\r\n\r\n\rb\r\n".toList ∧
      lines "a\r\r\n\r\n\rb\r\n".toList = ls ∧
      newlineOf "a\r\r\n\r\n\rb\r\n".toList = .crlf := by
  intro ls
  have hlines : ∀ line ∈ ls, '\n' ∉ line := by decide
  have hends : Newline.crlf = .lf → ∀ line ∈ ls, line.getLast? ≠ some '\r' := nofun
  have hjoined : joinLines ls Newline.crlf.text = "a\r\r\n\r\n\rb\r\n".toList := by decide
  obtain ⟨hread, hnewline⟩ := lines_and_joinLines_inverse.2 ls .crlf hlines hends
  rw [hjoined] at hread hnewline
  exact ⟨hlines, hends, hjoined, hread, hnewline (by decide)⟩

end Phrasebook.Text
