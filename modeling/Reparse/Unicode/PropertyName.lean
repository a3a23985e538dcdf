import Reparse.Unicode.Age
import Reparse.Unicode.GeneralCategory
import Reparse.Unicode.Property
import Reparse.Unicode.Script
import Reparse.Unicode.Segmentation

/-!
# Sets of characters by the names of properties

A set of characters can be asked for by one name, of a property that characters have or lack, of a
general category or of a script (`namedCharacters`), or by a property and one of its values
(`valuedCharacters`). A name may be wrong in two ways: it belongs to no property, or to no value for
which there are characters to tell.
-/

namespace Reparse

/-- What is wrong with the name of a set of characters. -/
inductive PropertyFault where
  | unknownProperty
  | unknownValue
  deriving DecidableEq, Repr

/-- Names of properties for which the library holds no characters. -/
def otherProperties : List String :=
  ["nv", "numericvalue", "bmg", "bidimirroringglyph", "bpb", "bidipairedbracket", "cf",
    "casefolding", "dm", "decompositionmapping", "equideo", "equivalentunifiedideograph", "fcnfkc",
    "fcnfkcclosure", "lc", "lowercasemapping", "nfkccf", "nfkccasefold", "nfkcscf",
    "nfkcsimplecasefold", "scf", "simplecasefolding", "sfc", "slc", "simplelowercasemapping",
    "stc", "simpletitlecasemapping", "suc", "simpleuppercasemapping", "tc", "titlecasemapping",
    "uc", "uppercasemapping", "isc", "isocomment", "jsn", "jamoshortname", "na", "name", "na1",
    "unicode1name", "namealias", "blk", "block", "bc", "bidiclass", "bpt", "bidipairedbrackettype",
    "ccc", "canonicalcombiningclass", "dt", "decompositiontype", "ea", "eastasianwidth", "hst",
    "hangulsyllabletype", "incb", "indicconjunctbreak", "inpc", "indicpositionalcategory", "insc",
    "indicsyllabiccategory", "jg", "joininggroup", "jt", "joiningtype", "lb", "linebreak", "nfcqc",
    "nfcquickcheck", "nfdqc", "nfdquickcheck", "nfkcqc", "nfkcquickcheck", "nfkdqc",
    "nfkdquickcheck", "nt", "numerictype", "vo", "verticalorientation", "bidim", "bidimirrored",
    "ce", "compositionexclusion", "compex", "fullcompositionexclusion", "cwkcf",
    "changeswhennfkccasefolded", "xonfc", "expandsonnfc", "xonfd", "expandsonnfd", "xonfkc",
    "expandsonnfkc", "xonfkd", "expandsonnfkd", "cjkaccountingnumeric", "kaccountingnumeric",
    "cjkothernumeric", "kothernumeric", "cjkprimarynumeric", "kprimarynumeric",
    "cjkcompatibilityvariant", "kcompatibilityvariant", "cjkiicore", "kiicore", "cjkirggsource",
    "kirggsource", "cjkirghsource", "kirghsource", "cjkirgjsource", "kirgjsource",
    "cjkirgkpsource", "kirgkpsource", "cjkirgksource", "kirgksource", "cjkirgmsource",
    "kirgmsource", "cjkirgssource", "kirgssource", "cjkirgtsource", "kirgtsource",
    "cjkirguksource", "kirguksource", "cjkirgusource", "kirgusource", "cjkirgvsource",
    "kirgvsource", "cjkrsunicode", "krsunicode", "unicoderadicalstroke", "urs", "cjkmandarin",
    "kmandarin", "cjktotalstrokes", "ktotalstrokes", "cjkunihancore2020", "kunihancore2020",
    "kehcat", "kehdesc", "kehhg", "kehifao", "kehjsesh", "kehnomirror", "kehnorotate"]

/-- The properties whose values are sets of characters. -/
inductive ValuedProperty where
  | generalCategory
  | script
  | scriptExtensions
  | age
  | graphemeBreak
  | wordBreak
  | sentenceBreak
  deriving DecidableEq, Repr

/-- The property of many values that goes by a name. -/
def valuedProperty? (name : String) : Option ValuedProperty :=
  if ["gc", "generalcategory", "category"].contains name then some .generalCategory
  else if ["sc", "script"].contains name then some .script
  else if ["scx", "scriptextensions"].contains name then some .scriptExtensions
  else if name == "age" then some .age
  else if ["gcb", "graphemeclusterbreak"].contains name then some .graphemeBreak
  else if ["wb", "wordbreak"].contains name then some .wordBreak
  else if ["sb", "sentencebreak"].contains name then some .sentenceBreak
  else none

/-- The characters with a value of a property. -/
def ValuedProperty.characters? (value : String) : ValuedProperty → Option CodeSet
  | generalCategory => (generalCategory? value).join
  | script => (script? value).join
  | scriptExtensions => (scriptExtension? value).join
  | age => age? value
  | graphemeBreak => (NamedSet.find? graphemeBreaks value).map NamedSet.codes
  | wordBreak => (NamedSet.find? wordBreaks value).map NamedSet.codes
  | sentenceBreak => (NamedSet.find? sentenceBreaks value).map NamedSet.codes

/-- Whether a name belongs to a property whose values are not sets that the library holds. -/
def isOtherProperty (name : String) : Bool :=
  otherProperties.contains name || (valuedProperty? name).isSome

/-- The characters that a name means as a general category or a script. -/
def categoryOrScript (name : String) : Except PropertyFault CodeSet :=
  match (generalCategory? name).or (script? name) with
  | none => .error .unknownProperty
  | some none => .error .unknownValue
  | some (some characters) => .ok characters

/-- The characters that one name means. Three names are short both for a property and for a general
category, and mean the category. -/
def namedCharacters (name : String) : Except PropertyFault CodeSet :=
  let name := looseName name
  if ["cf", "sc", "lc"].contains name then categoryOrScript name
  else
    match NamedSet.find? characterProperties name with
    | some property => .ok property.codes
    | none =>
      if isOtherProperty name then .error .unknownProperty else categoryOrScript name

/-- The characters with a value of a property, both given by name. -/
def valuedCharacters (property value : String) : Except PropertyFault CodeSet :=
  let property := looseName property
  match valuedProperty? property with
  | some valued =>
    match valued.characters? (looseName value) with
    | some characters => .ok characters
    | none => .error .unknownValue
  | none =>
    match NamedSet.find? characterProperties property with
    | some _ => .error .unknownValue
    | none =>
      if otherProperties.contains property then .error .unknownValue else .error .unknownProperty

/-- The characters that have a property. -/
def propertyCharacters (name : String) : CodeSet :=
  ((NamedSet.find? characterProperties name).map NamedSet.codes).getD CodeSet.empty

/-- The decimal digits. -/
def digitCharacters : CodeSet := categoryUnion ["nd"]

/-- The characters of white space. -/
def spaceCharacters : CodeSet := propertyCharacters "whitespace"

/-- The letters and other alphabetic characters. -/
def alphabeticCharacters : CodeSet := propertyCharacters "alphabetic"

/-- The characters of numbers. -/
def numericCharacters : CodeSet := categoryUnion ["nd", "nl", "no"]

/-- The characters of words: alphabetic characters, marks, decimal digits, punctuation that
connects, and the characters that control joining. -/
def wordCharacters : CodeSet :=
  CodeSet.unions
    [alphabeticCharacters, categoryUnion ["mn", "mc", "me", "nd", "pc"],
      propertyCharacters "joincontrol"]

end Reparse
