import Phrasebook.Format.Specifier

/-!
# What is known about a key

For each key the scan of source files keeps flags, a count of its references and the places where
they stand. Lists of places have no repetitions and stop growing at a cap, so the places seen first
are the ones kept.
-/

namespace Phrasebook.Glue

/-- A place where a key is referenced. -/
structure Place where
  /-- The file. -/
  path : Text
  /-- The line, counted from 1; 0 stands for the file as a whole. -/
  line : Int
  deriving DecidableEq, Repr

/-- Whether a place is a file as a whole. -/
def Place.isFile (p : Place) : Bool :=
  p.line == 0

/-- Whether a list of places takes in another one. -/
def hasRoom (cap : Int) (places : List Place) (place : Place) : Bool :=
  places.length < cap && !places.contains place

/-- A list of places with one more, unless it is known or the cap is reached. -/
def addPlace (cap : Int) (places : List Place) (place : Place) : List Place :=
  if hasRoom cap places place then places ++ [place] else places

/-- The first places up to a cap. A negative cap drops that many places at the end. -/
def truncate (cap : Int) (places : List Place) : List Place :=
  match cap with
  | .ofNat n => places.take n
  | .negSucc n => places.take (places.length - (n + 1))

/-- What is known about a key. -/
structure Info where
  /-- The key in the spelling that was seen first. -/
  key : Text
  /-- Whether some reference joins strings. -/
  isJoined : Bool
  /-- Whether some reference is an argument of a template function. -/
  isTemplate : Bool
  /-- The number of references. -/
  count : Nat
  /-- Places of the references that join strings, and files of the others. -/
  places : List Place
  /-- Places of the references that are arguments of template functions. -/
  templatePlaces : List Place
  /-- The format specifiers of the key's text. -/
  specifiers : List Format.Specifier
  /-- The cap on the places of each kind. -/
  cap : Int
  deriving DecidableEq, Repr

namespace Info

/-- What is known about a key that was not referenced yet. -/
def new (key : Text) (cap : Int) : Info :=
  ⟨key, false, false, 0, [], [], [], cap⟩

/-- The number of arguments that the key's text takes. -/
def argumentCount (info : Info) : Nat :=
  Format.argumentCount info.specifiers

/-- Take in a place. -/
def addPlace (info : Info) (place : Place) : Info :=
  { info with places := Glue.addPlace info.cap info.places place }

/-- Take in a place of a template argument. -/
def addTemplatePlace (info : Info) (place : Place) : Info :=
  { info with templatePlaces := Glue.addPlace info.cap info.templatePlaces place }

/-- What two records for the same key know together. The first one decides the spelling, the cap
and, when it has any, the specifiers. -/
def merge (info other : Info) : Info where
  key := info.key
  isJoined := info.isJoined || other.isJoined
  isTemplate := info.isTemplate || other.isTemplate
  count := info.count + other.count
  places := other.places.foldl (Glue.addPlace info.cap) info.places
  templatePlaces := other.templatePlaces.foldl (Glue.addPlace info.cap) info.templatePlaces
  specifiers := if info.specifiers.isEmpty then other.specifiers else info.specifiers
  cap := info.cap

/-- A record as it is taken over under another cap. -/
def recapped (info : Info) (cap : Int) : Info :=
  { info with
    cap := cap
    places := truncate cap info.places
    templatePlaces := truncate cap info.templatePlaces }

end Info

end Phrasebook.Glue
