import Phrasebook.Text.Basic
import Phrasebook.Text.FoldTable

/-!
# Case folding

Full case folding: two texts that differ only in case have the same folded form. A character may
fold to several, so folding can lengthen a text.
-/

namespace Phrasebook.Text

/-- Whether a run of foldings covers a code point. -/
def FoldRun.covers (run : FoldRun) (n : Nat) : Bool :=
  run.first ≤ n && n ≤ run.last && (n - run.first) % run.step == 0

/-- The folding of a character beyond ASCII. -/
def foldWide (c : Char) : Text :=
  match foldRuns.find? (·.covers c.toNat) with
  | some run => [Char.ofNat (c.toNat + run.shift).toNat]
  | none =>
    match foldExpansions.lookup c.toNat with
    | some expansion => expansion.map Char.ofNat
    | none => [c]

/-- The folding of a character: ASCII letters in lower case, others by the tables. -/
def foldChar (c : Char) : Text :=
  if c.toNat < 0x80 then [c.toLower] else foldWide c

/-- The folded form of a text. -/
def fold (t : Text) : Text :=
  t.flatMap foldChar

end Phrasebook.Text
