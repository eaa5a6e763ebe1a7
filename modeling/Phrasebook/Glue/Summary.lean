import Phrasebook.Glue.Info
import Phrasebook.Glue.Reference
import Phrasebook.Key.Set

/-!
# Summaries of source files

A summary has a record for each key that the scanned files look up, and the set of keys that locale
files use in computed values. Summaries of files are merged into one for a directory: flags are
joined, counts added, and places kept up to the cap.
-/

namespace Phrasebook.Glue

/-- The cap on places when none is given. -/
def defaultCap : Int :=
  100

/-- What the scan of source files found. -/
structure Summary where
  /-- The cap on the places of each key. -/
  cap : Int
  /-- The records of the keys that are looked up. -/
  infos : KeyMap Info
  /-- The keys that locale files use in computed values. -/
  referenced : KeySet

namespace Summary

/-- The summary of no file. -/
def empty (cap : Int) : Summary :=
  ⟨cap, ∅, ∅⟩

instance : Inhabited Summary :=
  ⟨empty defaultCap⟩

/-- The record of a key. -/
def get? (s : Summary) (key : Text) : Option Info :=
  s.infos.get? key

/-- The record of a key, or a fresh one. -/
def getOrNew (s : Summary) (key : Text) : Info :=
  (s.get? key).getD (.new key s.cap)

/-- The summary with the record of a key changed; a missing record is made first. -/
def update (s : Summary) (key : Text) (change : Info → Info) : Summary :=
  { s with infos := s.infos.insert key (change (s.getOrNew key)) }

/-- All records in the order of their keys. -/
def all (s : Summary) : List Info :=
  s.infos.values

/-- The records of the keys with a reference that joins strings. -/
def joined (s : Summary) : List Info :=
  s.all.filter (·.isJoined)

/-- The records of the keys without a reference that joins strings. -/
def plain (s : Summary) : List Info :=
  s.all.filter fun info => !info.isJoined

/-- The records of the keys that are arguments of template functions. -/
def templates (s : Summary) : List Info :=
  s.all.filter (·.isTemplate)

/-- The number of all references. -/
def total (s : Summary) : Nat :=
  (s.all.map (·.count)).foldl (· + ·) 0

/-- Take over the record of another summary. -/
def mergeInfo (s : Summary) (info : Info) : Summary :=
  { s with
    infos := s.infos.insert info.key
      (match s.get? info.key with
        | none => info.recapped s.cap
        | some known => known.merge info) }

/-- A summary together with what another one found. -/
def merge (s other : Summary) : Summary :=
  let merged := other.all.foldl mergeInfo s
  { merged with referenced := merged.referenced.insertAll other.referenced.keys }

/-- The summary of several; the first one decides the cap. -/
def mergeAll (summaries : List Summary) : Summary :=
  summaries.foldl merge (empty ((summaries.head?.map (·.cap)).getD defaultCap))

/-- Every key that the scanned files use. -/
def keys (s : Summary) : KeySet :=
  (KeySet.ofList s.infos.keys).insertAll s.referenced.keys

/-- Whether a key has a record in the summary. -/
def contains (s : Summary) (key : Text) : Bool :=
  s.infos.contains key

/-- The summary with specifiers attached to the keys that it knows. -/
def attach (s : Summary) (specifiers : KeyMap (List Format.Specifier)) : Summary :=
  { s with
    infos := specifiers.entries.foldl
      (fun infos entry => infos.modify entry.1 fun info => { info with specifiers := entry.2 })
      s.infos }

/-- The number of keys that specifiers can be attached to. -/
def attachable (s : Summary) (specifiers : KeyMap (List Format.Specifier)) : Nat :=
  specifiers.keys.countP s.contains

/-- The summary with keys that locale files use in computed values. -/
def addReferenced (s : Summary) (keys : List Text) : Summary :=
  { s with referenced := s.referenced.insertAll keys }

/-- A record with one more reference, found on a line of a file. The first reference of a key in
a file stands for the file as a whole, unless it joins strings or is a template argument. -/
def addReference (path : Text) (line : Nat) (isFirst : Bool) (reference : Reference)
    (info : Info) : Info :=
  let place : Place := ⟨path, line⟩
  let info := { info with count := info.count + 1 }
  let info := if reference.isJoined then { info.addPlace place with isJoined := true } else info
  let info :=
    if reference.isTemplate then { info.addTemplatePlace place with isTemplate := true } else info
  if isFirst && !reference.isJoined && !reference.isTemplate then info.addPlace ⟨path, 0⟩ else info

/-- The summary of a file with one more reference of it. -/
def addFound (path : Text) (s : Summary) (found : Nat × Reference) : Summary :=
  s.update found.2.key
    (addReference path found.1 (!s.contains found.2.key) found.2)

/-- The references of a file, each with the number of its line. -/
def findAll (patterns : Patterns) (lines : List Text) : List (Nat × Reference) :=
  (lines.zipIdx 1).flatMap fun (line, number) =>
    (references patterns line).map fun reference => (number, reference)

/-- The summary of the lines of a file. -/
def ofLines (patterns : Patterns) (cap : Int) (path : Text) (lines : List Text) : Summary :=
  (findAll patterns lines).foldl (addFound path) (empty cap)

end Summary

end Phrasebook.Glue
