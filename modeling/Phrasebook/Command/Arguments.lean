import Phrasebook.Text.Digit

/-!
# Words of a command line

The words of a command line are options and plain words. A long option may be shortened as long as
it stays the only one, and may have its value behind an equals sign; short options may be written
together behind one hyphen. Two hyphens make all later words plain. Plain words fill the slots of a
command in order.
-/

namespace Phrasebook.Command

/-- What an option asks for. -/
inductive Switch where
  /-- Explain the command line and do nothing. -/
  | help
  /-- Show all records. -/
  | verbose
  /-- Use another settings file. -/
  | settings
  /-- Write no backups. -/
  | noBackup
  /-- Overwrite a file. -/
  | force
  deriving DecidableEq, Repr

/-- Whether an option has a value. -/
def Switch.takesValue : Switch → Bool
  | .settings => true
  | _ => false

/-- Why a command line asks for no work. -/
inductive Stop where
  /-- It asks for an explanation. -/
  | help
  /-- It is not understood. -/
  | misuse
  deriving DecidableEq, Repr

/-- The names of options. -/
abbrev OptionNames := List (Text × Switch)

/-- A place for plain words. -/
inductive Slot where
  /-- For one word. -/
  | one
  /-- For one word that may be missing. -/
  | optional
  /-- For one word and all words behind it. -/
  | rest
  deriving DecidableEq, Repr

/-- What a word is. -/
inductive Mark where
  /-- A plain word. -/
  | plain (word : Text)
  /-- The two hyphens. -/
  | stop
  /-- An option under one of its names, with the value that is attached to it. -/
  | option (switch : Switch) (name : Text) (attached : Option Text) (word : Text)
  /-- An option that is not known. -/
  | unknown (word : Text)
  deriving DecidableEq, Repr

namespace Mark

/-- The word of a mark. -/
def word : Mark → Text
  | .plain word => word
  | .stop => ['-', '-']
  | .option _ _ _ word => word
  | .unknown word => word

/-- Whether a mark is an option. -/
def isOption : Mark → Bool
  | .option .. => true
  | .unknown _ => true
  | _ => false

end Mark

/-- A word up to its first equals sign, and what is behind it, if it has one. -/
def splitEquals (word : Text) : Text × Option Text :=
  let name := word.takeWhile (· != '=')
  (name, (word.drop name.length).tail?)

/-- The options that a word can be short for. -/
def candidates (names : OptionNames) (word : Text) : List Mark :=
  let (start, value) := splitEquals word
  if Text.startsWith word ['-', '-'] then
    (names.filter fun entry => Text.startsWith entry.1 start).map fun entry =>
      .option entry.2 entry.1 value word
  else
    names.filterMap fun entry =>
      if entry.1 = word.take 2 then some (.option entry.2 entry.1 (some (word.drop 2)) word)
      else if Text.startsWith entry.1 word then some (.option entry.2 entry.1 none word)
      else none

/-- Whether a word writes a negative number. -/
def isNegative (word : Text) : Bool :=
  match word with
  | '-' :: t =>
    let whole := t.takeWhile Text.isDigit
    match t.drop whole.length with
    | [] => !whole.isEmpty
    | '.' :: fraction => !fraction.isEmpty && fraction.all Text.isDigit
    | _ => false
  | _ => false

/-- The option whose full name a word is, or starts with before an equals sign. Only a long name
has its value behind the sign. -/
def exactOption? (names : OptionNames) (word : Text) : Option Mark :=
  match names.lookup word, splitEquals word with
  | some switch, _ => some (.option switch word none word)
  | none, ('-' :: '-' :: name, some value) =>
    let name := '-' :: '-' :: name
    (names.lookup name).map fun switch => .option switch name (some value) word
  | none, _ => none

/-- What a word is. -/
def markOf (names : OptionNames) (word : Text) : Except Stop Mark :=
  match word with
  | '-' :: _ :: _ =>
    match exactOption? names word, candidates names word with
    | some mark, _ => .ok mark
    | none, [mark] => .ok mark
    | none, _ :: _ :: _ => .error .misuse
    | none, [] =>
      if isNegative word || word.contains ' ' then .ok (.plain word) else .ok (.unknown word)
  | _ => .ok (.plain word)

/-- What the words of a command line are. -/
def marksOf (names : OptionNames) : List Text → Except Stop (List Mark)
  | [] => .ok []
  | word :: words =>
    if word = ['-', '-'] then .ok (.stop :: words.map .plain)
    else do return (← markOf names word) :: (← marksOf names words)

/-- An option with its value. -/
abbrev Setting := Switch × Option Text

/-- What one word of options says: the options with their values, and words that have no place. -/
structure Cluster where
  /-- The options. -/
  settings : List Setting
  /-- The words that have no place. -/
  extras : List Text
  deriving DecidableEq, Repr

/-- The options that are written together behind one hyphen, of which the first one is known
already. The last one may have an attached value. From an option that is not known on, the rest is
a word without a place. -/
def cluster (names : OptionNames) (switch : Switch) (isShort : Bool) :
    Text → Except Stop Cluster
  | [] => if switch.takesValue then .ok ⟨[(switch, some [])], []⟩ else .error .misuse
  | c :: t =>
    if switch.takesValue then .ok ⟨[(switch, some (c :: t))], []⟩
    else if !isShort || c = '-' || c = '=' then .error .misuse
    else
      match names.lookup ['-', c], t with
      | none, t => .ok ⟨[(switch, none)], ['-' :: c :: t]⟩
      | some next, [] => .ok ⟨[(switch, none), (next, none)], []⟩
      | some next, t => do
        let found ← cluster names next true t
        return { found with settings := (switch, none) :: found.settings }

/-- What an option says together with the marks behind it, and the marks that are left. Only the
last one of several options can take its value from the next word. -/
def settingsOf (names : OptionNames) (switch : Switch) (name : Text) (attached : Option Text)
    (rest : List Mark) : Except Stop (Cluster × List Mark) := do
  let found ←
    match attached with
    | some value => cluster names switch (name[1]? != some '-') value
    | none => pure ⟨[(switch, none)], []⟩
  match found.settings.getLast?, rest with
  | some (last, none), .plain word :: rest' =>
    if last.takesValue then
      return ({ found with settings := found.settings.dropLast ++ [(last, some word)] }, rest')
    else return (found, rest)
  | some (last, none), _ => if last.takesValue then throw .misuse else return (found, rest)
  | _, _ => return (found, rest)

/-- Marks without the two hyphens in front. -/
def dropStops : List Mark → List Mark
  | .stop :: rest => dropStops rest
  | rest => rest

/-- The words that fill a slot, and the marks behind them. -/
def fillSlot (slot : Slot) (marks : List Mark) : Option (List Text × List Mark) :=
  match slot, dropStops marks with
  | .one, .plain word :: rest => some ([word], dropStops rest)
  | .one, _ => none
  | .optional, .plain word :: rest => some ([word], dropStops rest)
  | .optional, rest => some ([], rest)
  | .rest, .plain _ :: _ => some (marks.map Mark.word, [])
  | .rest, _ => none

/-- What fills the slots one after another, the slots that are left, and the marks behind. -/
def fillSlots : List Slot → List Mark → List (List Text) × List Slot × List Mark
  | [], marks => ([], [], marks)
  | slot :: slots, marks =>
    match fillSlot slot marks with
    | none => ([], slot :: slots, marks)
    | some (words, rest) =>
      let (more, left) := fillSlots slots rest
      (words :: more, left)

/-- What is known of a command line. -/
structure Arguments where
  /-- The options. -/
  settings : List Setting
  /-- The words in each slot. -/
  values : List (List Text)
  /-- The words that have no place. -/
  extras : List Text
  deriving DecidableEq, Repr

namespace Arguments

/-- The arguments with more options. An option that asks for an explanation ends the work. -/
def addSettings (a : Arguments) (settings : List Setting) : Except Stop Arguments :=
  if settings.any (·.1 == .help) then .error .help
  else .ok { a with settings := a.settings ++ settings }

/-- The arguments with more words in slots. -/
def addValues (a : Arguments) (values : List (List Text)) : Arguments :=
  { a with values := a.values ++ values }

/-- The arguments with words that have no place. -/
def addExtras (a : Arguments) (words : List Text) : Arguments :=
  { a with extras := a.extras ++ words }

/-- Whether an option is among the arguments. -/
def has (a : Arguments) (switch : Switch) : Bool :=
  a.settings.any (·.1 == switch)

/-- The last value of an option. -/
def value? (a : Arguments) (switch : Switch) : Option Text :=
  (a.settings.reverse.lookup switch).join

/-- Take in marks up to the end. Words fill slots as far as they can before each option; once no
option is left, words without a slot have no place. -/
def takeMarks (names : OptionNames) :
    Nat → List Slot → Arguments → List Mark → Except Stop Arguments
  | 0, _, a, _ => .ok a
  | fuel + 1, slots, a, marks =>
    match marks with
    | .unknown word :: rest => takeMarks names fuel slots (a.addExtras [word]) rest
    | .option switch name attached _ :: rest => do
      let (found, rest) ← settingsOf names switch name attached rest
      takeMarks names fuel slots (← (a.addExtras found.extras).addSettings found.settings) rest
    | marks =>
      let (values, slots, rest) := fillSlots slots marks
      let a := a.addValues values
      if !rest.any Mark.isOption then
        if slots.all (· == .optional) then .ok (a.addExtras (rest.map Mark.word))
        else .error .misuse
      else if rest.length < marks.length then takeMarks names fuel slots a rest
      else
        let skipped := rest.takeWhile fun mark => !mark.isOption
        takeMarks names fuel slots (a.addExtras (skipped.map Mark.word))
          (rest.drop skipped.length)

/-- The arguments that the words of a command line are. -/
def ofWords (names : OptionNames) (slots : List Slot) (words : List Text) :
    Except Stop Arguments := do
  let marks ← marksOf names words
  takeMarks names (2 * marks.length + 1) slots ⟨[], [], []⟩ marks

end Arguments

end Phrasebook.Command
