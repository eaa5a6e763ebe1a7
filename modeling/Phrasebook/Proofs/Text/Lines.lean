import Mathlib.Data.List.Basic
import Phrasebook.Text.Lines

/-!
# Splitting and joining lines

A content is cut at its first line feed, then what follows it is cut in the same way. A content all
of whose lines end alike is made up of its lines again, and lines that are joined are read back,
except that a carriage return at the end of a line is taken for a part of its end.
-/

namespace Phrasebook.Text

/-- A line without the carriage return at its end. -/
def dropReturn (line : Text) : Text :=
  if line.getLast? = some '\r' then line.dropLast else line

/-- How a line with a line feed behind it ends. -/
def endOf (line : Text) : Newline :=
  if line.getLast? = some '\r' then .crlf else .lf

/-- The ends of the lines of a content, where the given character stands in front of it. -/
def lineEndsFrom : Option Char → Text → List Newline
  | _, [] => []
  | previous, c :: t =>
    if c = '\n' then (if previous = some '\r' then .crlf else .lf) :: lineEndsFrom (some c) t
    else lineEndsFrom (some c) t

/-- The ends of the lines of a content. -/
def lineEnds (content : Text) : List Newline :=
  lineEndsFrom none content

/-- All lines of a content end alike. -/
def IsUniform (content : Text) : Prop :=
  ∀ newline ∈ lineEnds content, newline = newlineOf content

instance : DecidablePred IsUniform :=
  fun content => inferInstanceAs (Decidable (∀ newline ∈ lineEnds content, _))

/-- What is read of a line that was written with an end. -/
def Newline.readBack : Newline → Text → Text
  | .lf, line => dropReturn line
  | .crlf, line => line

/-- Every line is what is read back of it, up to a carriage return. -/
theorem Newline.exists_readBack (newline : Newline) (line : Text) :
    line = newline.readBack line ∨ line = newline.readBack line ++ ['\r'] := by
  cases newline with
  | crlf => exact Or.inl rfl
  | lf =>
    change line = dropReturn line ∨ line = dropReturn line ++ ['\r']
    unfold dropReturn
    split_ifs with h
    · obtain ⟨t, rfl⟩ := List.getLast?_eq_some_iff.1 h
      exact Or.inr (by simp)
    · exact Or.inl rfl

/-- A list of texts with one more behind it is split at that one or at one of the others. -/
theorem split_concat {ts before after : List Text} {last t : Text}
    (h : ts ++ [last] = before ++ t :: after) :
    (ts = before ∧ last = t ∧ after = []) ∨
      ∃ between, after = between ++ [last] ∧ ts = before ++ t :: between := by
  rcases List.eq_nil_or_concat after with rfl | ⟨between, other, rfl⟩
  · obtain ⟨hbefore, hlast⟩ := List.append_inj' h rfl
    exact Or.inl ⟨hbefore, (List.cons.inj hlast).1, rfl⟩
  · rw [List.concat_eq_append] at h ⊢
    rw [← List.cons_append, ← List.append_assoc] at h
    obtain ⟨hts, hlast⟩ := List.append_inj' h rfl
    obtain rfl := (List.cons.inj hlast).1
    exact Or.inr ⟨between, rfl, hts⟩

/-- Every content is a line without an end, or starts with a line and its end. -/
theorem line_induction {P : Text → Prop} (last : ∀ line, '\n' ∉ line → P line)
    (step : ∀ line rest, '\n' ∉ line → P rest → P (line ++ '\n' :: rest)) (content : Text) :
    P content := by
  by_cases h : '\n' ∈ content
  · obtain ⟨line, rest, hsplit, hline⟩ := List.eq_append_cons_of_mem h
    rw [hsplit]
    exact step line rest hline (line_induction last step rest)
  · exact last content h
termination_by content.length
decreasing_by
  rw [hsplit, List.length_append, List.length_cons]
  omega

/-- A line keeps its characters when returns are dropped. -/
theorem dropReturns_of_not_mem {line : Text} (h : '\n' ∉ line) : dropReturns line = line := by
  fun_induction dropReturns line with
  | case1 => rfl
  | case2 => rfl
  | case3 c d t hcd => simp_all
  | case4 c d t hcd ih => simp_all

/-- Where returns are dropped, the one at the end of the first line goes. -/
theorem dropReturns_append {line : Text} (h : '\n' ∉ line) (rest : Text) :
    dropReturns (line ++ '\n' :: rest) = dropReturn line ++ '\n' :: dropReturns rest := by
  induction line with
  | nil =>
    cases rest with
    | nil => rfl
    | cons c t => simp [dropReturns, dropReturn]
  | cons c line ih =>
    simp only [List.mem_cons, not_or] at h
    cases line with
    | nil =>
      have hrest : dropReturns ('\n' :: rest) = '\n' :: dropReturns rest := ih (by simp)
      by_cases hc : c = '\r'
      · simp [dropReturns, dropReturn, hc, hrest]
      · simp [dropReturns, dropReturn, hc, hrest]
    | cons d line =>
      have hd : d ≠ '\n' := by
        rintro rfl
        simp at h
      have htail := ih h.2
      rw [List.cons_append] at htail
      rw [List.cons_append, List.cons_append, dropReturns, if_neg (by simp [hd]), htail]
      simp only [dropReturn, List.getLast?_cons_cons, List.dropLast_cons_cons]
      split <;> rfl

/-- A line is a single piece. -/
theorem pieces_of_not_mem {c : Char} {line : Text} (h : c ∉ line) : pieces c line = [line] := by
  induction line with
  | nil => rfl
  | cons d line ih =>
    simp only [List.mem_cons, not_or] at h
    simp [pieces, Ne.symm h.1, ih h.2]

/-- The first piece ends at the first separator. -/
theorem pieces_append {c : Char} {line : Text} (h : c ∉ line) (rest : Text) :
    pieces c (line ++ c :: rest) = line :: pieces c rest := by
  induction line with
  | nil => simp [pieces]
  | cons d line ih =>
    simp only [List.mem_cons, not_or] at h
    simp [pieces, Ne.symm h.1, ih h.2]

/-- There is always a piece. -/
theorem pieces_ne_nil (c : Char) (t : Text) : pieces c t ≠ [] := by
  cases t with
  | nil => simp [pieces]
  | cons d t =>
    simp only [pieces]
    split_ifs
    · simp
    · split <;> simp

/-- A content without line feeds has one line, or none when it is empty. -/
theorem lines_of_not_mem {line : Text} (h : '\n' ∉ line) :
    lines line = if line = [] then [] else [line] := by
  rw [lines, dropReturns_of_not_mem h, pieces_of_not_mem h]
  by_cases hl : line = [] <;> simp [hl]

/-- The first line of a content ends at its first line feed. -/
theorem lines_append {line : Text} (h : '\n' ∉ line) (rest : Text) :
    lines (line ++ '\n' :: rest) = dropReturn line :: lines rest := by
  have hline : '\n' ∉ dropReturn line := by
    unfold dropReturn
    split_ifs
    · exact fun hmem => h (List.dropLast_subset _ hmem)
    · exact h
  rw [lines, lines, dropReturns_append h, pieces_append hline]
  have hne := pieces_ne_nil '\n' (dropReturns rest)
  rw [List.getLast?_cons_of_ne_nil hne, List.dropLast_cons_of_ne_nil hne]
  split_ifs <;> rfl

/-- No line has a line feed. -/
theorem not_mem_of_mem_lines {content line : Text} (h : line ∈ lines content) : '\n' ∉ line := by
  induction content using line_induction with
  | last l hl =>
    rw [lines_of_not_mem hl] at h
    split_ifs at h
    · simp at h
    · rw [List.mem_singleton.1 h]
      exact hl
  | step l rest hl ih =>
    rw [lines_append hl, List.mem_cons] at h
    rcases h with rfl | h
    · unfold dropReturn
      split_ifs
      · exact fun hmem => hl (List.dropLast_subset _ hmem)
      · exact hl
    · exact ih h

/-- The content in front of lines that are joined is read by itself when it ends with a line
feed. -/
theorem lines_append_joinLines {front : Text} (hfront : front = [] ∨ front.getLast? = some '\n')
    (ls : List Text) (newline : Newline) (h : ∀ line ∈ ls, '\n' ∉ line) :
    lines (front ++ joinLines ls newline.text) = lines front ++ ls.map newline.readBack := by
  induction front using line_induction with
  | last l hl =>
    obtain rfl : l = [] := hfront.resolve_right fun hlast => hl (List.mem_of_getLast? hlast)
    rw [List.nil_append, show lines [] = [] from rfl, List.nil_append]
    clear hfront hl
    induction ls with
    | nil => rfl
    | cons line ls ih =>
      have hline := h line (by simp)
      have htail := ih fun l hl => h l (by simp [hl])
      have hjoin : joinLines (line :: ls) newline.text =
          line ++ newline.text ++ joinLines ls newline.text := rfl
      cases newline with
      | lf =>
        have hcut : line ++ Newline.lf.text ++ joinLines ls Newline.lf.text =
            line ++ '\n' :: joinLines ls Newline.lf.text := by
          simp [Newline.text]
        rw [hjoin, hcut, lines_append hline, htail]
        rfl
      | crlf =>
        have hcut : line ++ Newline.crlf.text ++ joinLines ls Newline.crlf.text =
            (line ++ ['\r']) ++ '\n' :: joinLines ls Newline.crlf.text := by
          simp [Newline.text]
        rw [hjoin, hcut, lines_append (by simpa using hline), htail]
        simp [dropReturn, Newline.readBack]
  | step l rest hl ih =>
    have hrest : rest = [] ∨ rest.getLast? = some '\n' := by
      cases rest with
      | nil => exact Or.inl rfl
      | cons c t =>
        refine Or.inr ?_
        simpa using hfront
    rw [List.append_assoc, List.cons_append, lines_append hl, ih hrest, lines_append hl,
      List.cons_append]

/-- Lines that are joined are read back, up to returns at their ends. -/
theorem lines_joinLines (ls : List Text) (newline : Newline) (h : ∀ line ∈ ls, '\n' ∉ line) :
    lines (joinLines ls newline.text) = ls.map newline.readBack :=
  lines_append_joinLines (Or.inl rfl) ls newline h

/-- The ends of lines behind a line feed are those of a content of its own. -/
theorem lineEndsFrom_newline (t : Text) : lineEndsFrom (some '\n') t = lineEnds t := by
  cases t with
  | nil => rfl
  | cons c t => simp [lineEnds, lineEndsFrom]

/-- The first line of a content has the first of its ends. -/
theorem lineEnds_append {line : Text} (h : '\n' ∉ line) (rest : Text) :
    lineEnds (line ++ '\n' :: rest) = endOf line :: lineEnds rest := by
  suffices ∀ previous, lineEndsFrom previous (line ++ '\n' :: rest) =
      (if line.getLast?.or previous = some '\r' then .crlf else .lf) :: lineEnds rest by
    simpa [endOf, lineEnds] using this none
  induction line with
  | nil =>
    intro previous
    rw [List.nil_append, lineEndsFrom, if_pos rfl, lineEndsFrom_newline]
    rfl
  | cons c line ih =>
    intro previous
    simp only [List.mem_cons, not_or] at h
    rw [List.cons_append, lineEndsFrom, if_neg (Ne.symm h.1), ih h.2]
    cases hl : line.getLast? with
    | none => simp [List.getLast?_eq_none_iff.1 hl]
    | some d => simp [List.getLast?_cons, hl]

/-- A line and its end are the line as it was read and the end that it had. -/
theorem dropReturn_append_endOf (line : Text) :
    dropReturn line ++ (endOf line).text = line ++ ['\n'] := by
  unfold dropReturn endOf
  split_ifs with h
  · obtain ⟨t, rfl⟩ := List.getLast?_eq_some_iff.1 h
    simp [Newline.text]
  · rfl

/-- A content whose lines all end alike, with an end behind its last line, is made up of its
lines. -/
theorem joinLines_lines {content : Text} (huniform : IsUniform content)
    (hlast : content.getLast? = some '\n') :
    joinLines (lines content) (newlineOf content).text = content := by
  suffices ∀ newline, (∀ e ∈ lineEnds content, e = newline) →
      content = [] ∨ content.getLast? = some '\n' →
        joinLines (lines content) newline.text = content from
    this _ huniform (Or.inr hlast)
  clear huniform hlast
  intro newline
  induction content using line_induction with
  | last l hl =>
    intro _ hlast
    obtain rfl : l = [] := hlast.resolve_right fun h => hl (List.mem_of_getLast? h)
    rfl
  | step l rest hl ih =>
    intro hends hlast
    rw [lineEnds_append hl] at hends
    have hend : endOf l = newline := hends _ (by simp)
    have hrest : rest = [] ∨ rest.getLast? = some '\n' := by
      cases rest with
      | nil => exact Or.inl rfl
      | cons c t => exact Or.inr (by simpa using hlast)
    have hjoin : joinLines (dropReturn l :: lines rest) newline.text =
        dropReturn l ++ newline.text ++ joinLines (lines rest) newline.text := rfl
    rw [lines_append hl, hjoin, ih (fun e he => hends e (by simp [he])) hrest, ← hend,
      dropReturn_append_endOf]
    simp

end Phrasebook.Text
