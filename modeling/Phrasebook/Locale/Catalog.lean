import Phrasebook.Text.Fold

/-!
# The locale catalog

The locales that a client offers and the base locales that they share. Each base locale has one
file of machine translations and one language name for the translation service. English is what
the others are translated from and has no such file.
-/

namespace Phrasebook

/-- A locale of the client. -/
structure Locale where
  /-- The code, such as `deDE`. -/
  code : Text
  /-- The name shown to people. -/
  displayName : Text
  /-- The place in the catalog, from 0. -/
  order : Nat
  /-- The base locale that it belongs to. -/
  base : Text
  /-- The name of its language for the translation service. -/
  language : Text
  deriving DecidableEq, Repr

namespace Locale

/-- All locales in catalog order. -/
def catalog : List Locale :=
  [⟨"enUS".toList, "English (US)".toList, 0, "en".toList, "en".toList⟩,
   ⟨"enGB".toList, "English (GB)".toList, 1, "en".toList, "en".toList⟩,
   ⟨"enTW".toList, "English (TW)".toList, 2, "en".toList, "en".toList⟩,
   ⟨"enCN".toList, "English (CN)".toList, 3, "en".toList, "en".toList⟩,
   ⟨"deDE".toList, "German".toList, 4, "de".toList, "de".toList⟩,
   ⟨"esES".toList, "Spanish (ES)".toList, 5, "es".toList, "es".toList⟩,
   ⟨"esMX".toList, "Spanish (MX)".toList, 6, "es".toList, "es".toList⟩,
   ⟨"frFR".toList, "French".toList, 7, "fr".toList, "fr".toList⟩,
   ⟨"itIT".toList, "Italian".toList, 8, "it".toList, "it".toList⟩,
   ⟨"koKR".toList, "Korean".toList, 9, "ko".toList, "ko".toList⟩,
   ⟨"ptBR".toList, "Portuguese (BR)".toList, 10, "pt".toList, "pt".toList⟩,
   ⟨"ptPT".toList, "Portuguese (PT)".toList, 11, "pt".toList, "pt".toList⟩,
   ⟨"ruRU".toList, "Russian".toList, 12, "ru".toList, "ru".toList⟩,
   ⟨"zhCN".toList, "Chinese (Simplified)".toList, 13, "zh".toList, "zh-CN".toList⟩,
   ⟨"zhTW".toList, "Chinese (Traditional)".toList, 14, "zh-TW".toList, "zh-TW".toList⟩]

/-- The code of the locale that the others are translated from. -/
def source : Text :=
  "enUS".toList

/-- The locale with a code, in whatever case. -/
def find? (code : Text) : Option Locale :=
  catalog.find? fun locale => Text.fold locale.code = Text.fold code

/-- Whether a code names a locale of the catalog. -/
def isKnown (code : Text) : Bool :=
  (find? code).isSome

/-- The spelling that the catalog gives to a code. -/
def canonical? (code : Text) : Option Text :=
  (find? code).map (·.code)

/-- Whether a code is that of an English locale, known or not. -/
def isEnglish (code : Text) : Bool :=
  Text.startsWith (Text.fold code) "en".toList

/-- The base locale of a code. -/
def base? (code : Text) : Option Text :=
  (find? code).map (·.base)

/-- The last part of the name of the machine translations of a code; none for an unknown code. -/
def machineSuffix (code : Text) : Text :=
  match base? code with
  | some base => base ++ "-GT".toList
  | none => []

/-- The base locales that have machine translations, in catalog order. -/
def machineBases : List Text :=
  ((catalog.filter fun locale => !isEnglish locale.code).map (·.base)).eraseDups

/-- The name of the language of a base locale for the translation service. -/
def language? (base : Text) : Option Text :=
  (catalog.find? (·.base = base)).map (·.language)

/-- The codes of the locales of a base locale. -/
def codesOf (base : Text) : List Text :=
  (catalog.filter (·.base = base)).map (·.code)

/-- The file of the machine translations of a base locale. The two Chinese bases have the code of
their locale in its name. -/
def machineFile (base : Text) : Text :=
  if base = "zh".toList then "zhCN-GT.lua".toList
  else if base = "zh-TW".toList then "zhTW-GT.lua".toList
  else base ++ "-GT.lua".toList

/-- The file of a locale. -/
def file (code : Text) : Text :=
  code ++ ".lua".toList

end Locale

end Phrasebook
