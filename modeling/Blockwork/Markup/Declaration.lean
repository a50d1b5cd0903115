/-
The XML declaration: the version, then the encoding and the standalone setting if they are given, in that
order. A blank stands before each of them.
-/
import Blockwork.Markup.Encoding
import Blockwork.Markup.Name
import Blockwork.Markup.Value

namespace Blockwork.Markup

inductive Setting
  | version
  | encoding
  | standalone
  deriving DecidableEq

namespace Setting

/-- the first letter of a setting's name, which tells it from the others, and the letters behind it -/
def word : Setting → Char × String
  | version => ('v', "ersion")
  | encoding => ('e', "ncoding")
  | standalone => ('s', "tandalone")

/-- the settings that may come behind the last one -/
def behind : Option Setting → List Setting
  | none => [version]
  | some version => [encoding, standalone]
  | some encoding => [standalone]
  | some standalone => []

end Setting

/-- where in the declaration the reader stands -/
inductive DeclarationPlace
  /-- among blanks behind the last setting, or before the first -/
  | blank (last : Option Setting)
  /-- in a setting's name, behind its first letter -/
  | name (setting : Setting) (rest : List Char)
  /-- among blanks before the equals sign -/
  | named (setting : Setting)
  | value (setting : Setting) (value : Value)
  /-- right behind a value -/
  | valued (setting : Setting)
  deriving DecidableEq

/-- a declaration as far as it has been read -/
structure Declaration where
  version : Version
  encoding : Option Encoding
  place : DeclarationPlace
  deriving DecidableEq

namespace Declaration

/-- behind the blank that starts a declaration -/
def start : Declaration := ⟨.v10, none, .blank none⟩

/-- what a token makes of a declaration: it goes on, or it is complete -/
inductive Step
  | more (declaration : Declaration)
  | done (version : Version) (encoding : Option Encoding)

def set? (d : Declaration) (setting : Setting) (value : String) : Option Declaration :=
  let d := { d with place := .valued setting }
  match setting with
  | .version =>
    match value with
    | "1.0" => some { d with version := .v10 }
    | "1.1" => some { d with version := .v11 }
    | _ => none
  | .encoding => (Encoding.ofName? value.toList).map fun e => { d with encoding := some e }
  | .standalone => if value == "yes" || value == "no" then some d else none

/-- the place behind a setting's name. A prefix of the name is passed over, for its first letter is
already read. -/
def behindName? (d : Declaration) (setting : Setting) (rest : List Char) (place : DeclarationPlace) :
    Option Step :=
  match QName.ofChars? rest.reverse with
  | some q => if q.name = setting.word.2 then some (.more { d with place }) else none
  | none => none

def step? (d : Declaration) (t : Token) : Option Step :=
  match d.place with
  | .blank last =>
    match t with
    | .char c =>
      if isSpace c then some (.more d)
      else
        ((Setting.behind last).find? fun setting => setting.word.1 = c).map fun setting =>
          .more { d with place := .name setting [] }
    | .instructionEnd => if last.isSome then some (.done d.version d.encoding) else none
    | _ => none
  | .name setting rest =>
    match t with
    | .char c =>
      if isSpace c then d.behindName? setting rest (.named setting)
      else some (.more { d with place := .name setting (c :: rest) })
    | .equals => d.behindName? setting rest (.value setting .before)
    | _ => none
  | .named setting =>
    match t with
    | .char c => if isSpace c then some (.more d) else none
    | .equals => some (.more { d with place := .value setting .before })
    | _ => none
  | .value setting value =>
    match value.step? d.version [] t with
    | some (.more value) => some (.more { d with place := .value setting value })
    | some (.done content) => (d.set? setting content).map .more
    | none => none
  | .valued setting =>
    match t with
    | .char c => if isSpace c then some (.more { d with place := .blank (some setting) }) else none
    | .instructionEnd => some (.done d.version d.encoding)
    | _ => none

end Declaration

end Blockwork.Markup
