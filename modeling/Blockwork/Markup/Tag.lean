/-
Start tags: a name, and attributes with a blank before each of them.
-/
import Blockwork.Markup.Name
import Blockwork.Markup.Value

namespace Blockwork.Markup

/-- a start tag: the name of the element, and its attributes with their values, last first while the
tag is being read -/
structure Tag where
  name : QName
  attributes : List (QName × String)
  deriving DecidableEq

/-- where in a start tag the reader stands; characters are kept last first -/
inductive TagPlace
  | name (letters : List Char)
  /-- among blanks before an attribute -/
  | blank (tag : Tag)
  | attributeName (tag : Tag) (letters : List Char)
  /-- among blanks before the equals sign -/
  | attributeNamed (tag : Tag) (name : QName)
  | value (tag : Tag) (name : QName) (value : Value)
  /-- right behind a value -/
  | valued (tag : Tag)
  deriving DecidableEq

namespace TagPlace

/-- what a token makes of a start tag: it goes on, or it is complete, and `closed` says whether the
element ends with it -/
inductive Step
  | more (place : TagPlace)
  | done (tag : Tag) (closed : Bool)

/-- a token behind a complete part of the tag, where a blank stands for `place` -/
def between? (tag : Tag) (place : TagPlace) : Token → Option Step
  | .tagEnd => some (.done { tag with attributes := tag.attributes.reverse } false)
  | .emptyTagEnd => some (.done { tag with attributes := tag.attributes.reverse } true)
  | .char c => if isSpace c then some (.more place) else none
  | _ => none

def step? (version : Version) (entities : Entities) (place : TagPlace) (t : Token) : Option Step :=
  match place with
  | .name letters =>
    let behind : Option Step := do
      let tag : Tag := ⟨← QName.ofElement? letters.reverse, []⟩
      between? tag (.blank tag) t
    match t with
    | .char c => if isSpace c then behind else some (.more (.name (c :: letters)))
    | _ => behind
  | .blank tag =>
    match t with
    | .char c => if isNameStart c then some (.more (.attributeName tag [c])) else between? tag place t
    | _ => between? tag place t
  | .attributeName tag letters =>
    match t with
    | .char c =>
      if isSpace c then (QName.ofChars? letters.reverse).map fun q => .more (.attributeNamed tag q)
      else some (.more (.attributeName tag (c :: letters)))
    | .equals => (QName.ofChars? letters.reverse).map fun q => .more (.value tag q .before)
    | _ => none
  | .attributeNamed tag q =>
    match t with
    | .char c => if isSpace c then some (.more place) else none
    | .equals => some (.more (.value tag q .before))
    | _ => none
  | .value tag q v =>
    match v.step? version entities t with
    | some (.more v) => some (.more (.value tag q v))
    | some (.done content) => some (.more (.valued { tag with attributes := (q, content) :: tag.attributes }))
    | none => none
  | .valued tag => between? tag (.blank tag) t

end TagPlace

end Blockwork.Markup
