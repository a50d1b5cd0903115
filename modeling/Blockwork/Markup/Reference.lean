/-
References: `&amp;` and its four fellows, characters given by number, and the entities that a document
declares. Any other reference stands for nothing.
-/
import Blockwork.Markup.Char
import Blockwork.Text.Digit

namespace Blockwork.Markup

def decimalDigit? (c : Char) : Option Nat :=
  if c.isDigit then some (c.toNat - '0'.toNat) else none

/-- the number written with one or more digits of a base -/
def readNumber? (base : Nat) (digit? : Char → Option Nat) (cs : List Char) : Option Nat :=
  if cs.isEmpty then none
  else cs.foldl (fun n c => do pure (base * (← n) + (← digit? c))) (some 0)

/-- digits without the plus sign that may stand in front of them -/
def unsigned (cs : List Char) : List Char :=
  match cs with
  | '+' :: digits => digits
  | digits => digits

/-- the character with a number, if a document of the version may refer to it -/
def numbered? (version : Version) (n : Nat) : Option Char :=
  if h : n.isValidChar then
    let c := Char.ofNatAux n h
    if version.allowsReference c then some c else none
  else none

/-- the character given by number: in decimal, or with an `x` in front in hexadecimal -/
def numeral? (version : Version) (cs : List Char) : Option Char :=
  match cs with
  | 'x' :: digits => (readNumber? 16 Text.hexValue? (unsigned digits)).bind (numbered? version)
  | digits => (readNumber? 10 decimalDigit? (unsigned digits)).bind (numbered? version)

/-- the character that a reference stands for without any declaration, given what is written between
`&` and `;` -/
def referred? (version : Version) (name : List Char) : Option Char :=
  match name with
  | ['l', 't'] => some '<'
  | ['g', 't'] => some '>'
  | ['a', 'm', 'p'] => some '&'
  | ['a', 'p', 'o', 's'] => some '\''
  | ['q', 'u', 'o', 't'] => some '"'
  | '#' :: digits => numeral? version digits
  | _ => none

/-- the name of an entity. Parameter entities, which only a document type declaration refers to, have
names of their own. -/
structure EntityName where
  parameter : Bool
  name : List Char
  deriving DecidableEq

/-- the declared entities, each with the text it stands for -/
abbrev Entities := List (EntityName × List Char)

namespace Entities

/-- declare an entity; the first declaration of a name counts -/
def declare (entities : Entities) (name : EntityName) (text : List Char) : Entities :=
  entities ++ [(name, text)]

def find? (entities : Entities) (name : EntityName) : Option (List Char) :=
  (List.find? (fun entry => entry.1 = name) entities).map Prod.snd

end Entities

/-- what a reference stands for -/
inductive Referent
  | char (c : Char)
  | entity (text : List Char)
  deriving DecidableEq

def referent? (version : Version) (entities : Entities) (name : List Char) : Option Referent :=
  match referred? version name with
  | some c => some (.char c)
  | none => (entities.find? ⟨false, name⟩).map .entity

/-- whether a reference that has come so far goes on with a character -/
def extendsReference (name : List Char) (c : Char) : Bool :=
  if name.isEmpty then isNameStart c || c = '#' else isNameChar c

end Blockwork.Markup
