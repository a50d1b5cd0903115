/-
Reading a document token by token into a tree. The text of an entity that stands between tags is not text
of the document: it is given back to be read in place of the reference, so that it may hold tags, whole
or in part.
-/
import Blockwork.Markup.Declaration
import Blockwork.Markup.Doctype
import Blockwork.Markup.Node

namespace Blockwork.Markup

/-- where in a document the reader stands; characters are kept last first -/
inductive Place
  | start
  /-- between pieces of markup -/
  | content
  /-- in a reference between pieces of markup -/
  | reference (name : List Char)
  /-- in the name of a processing instruction; `first` when the document starts with it -/
  | instruction (first : Bool) (name : List Char)
  | instructionData
  | declaration (declaration : Declaration)
  | comment
  | verbatim (content : List Char)
  | tag (place : TagPlace)
  /-- in the name of an end tag, and among blanks behind it -/
  | endTag (name : List Char)
  | endTagNamed (name : QName)
  | doctype (place : DoctypePlace)
  deriving DecidableEq

/-- the state of reading: `text` is the piece of text since the last markup, last character first, and
`blank` says whether it would be left out as blank -/
structure Reader where
  place : Place
  version : Version
  encoding : Option Encoding
  hasDoctype : Bool
  entities : Entities
  tree : Builder
  text : List Char
  blank : Bool

namespace Reader

def start : Reader := ⟨.start, .v10, none, false, [], .start, [], true⟩

def moveTo (r : Reader) (place : Place) : Reader := { r with place }

/-- put the piece of text into the tree, unless it is blank -/
def flush (r : Reader) : Reader :=
  let tree := if r.text.isEmpty || r.blank then r.tree else r.tree.add (.text (String.ofList r.text.reverse))
  { r with tree, text := [], blank := true }

/-- a mark that stands for its characters in the text -/
def mark? (r : Reader) (t : Token) : Option Reader :=
  if r.tree.isOutside then none
  else some { r with text := t.spelling.reverseAux r.text, blank := false }

/-- a character between pieces of markup; outside the elements only blanks stand -/
def char? (r : Reader) (c : Char) : Option Reader :=
  if r.tree.isOutside then (if isSpace c then some r else none)
  else if r.version.allows c then some { r with text := c :: r.text, blank := r.blank && isSpace c }
  else none

/-- go to a place that there is only inside the elements -/
def inner? (r : Reader) (place : Place) : Option Reader :=
  if r.tree.isOutside then none else some (r.moveTo place)

/-- a token between pieces of markup. One document type declaration may stand before the elements. -/
def content? (r : Reader) (t : Token) : Option Reader :=
  match t with
  | .char c => r.char? c
  | .ampersand => r.inner? (.reference [])
  | .tagStart => some (r.flush.moveTo (.tag (.name [])))
  | .endTagStart => r.flush.inner? (.endTag [])
  | .commentStart => some (r.flush.moveTo .comment)
  | .instructionStart => some (r.flush.moveTo (.instruction false []))
  | .verbatimStart => r.flush.inner? (.verbatim [])
  | .doctypeStart =>
    if r.tree.isOutside && r.tree.root.isNone && !r.hasDoctype then
      some { r with hasDoctype := true, place := .doctype .between }
    else none
  | .verbatimEnd => none
  | .declarationStart => none
  | .tagEnd => r.mark? t
  | .emptyTagEnd => r.mark? t
  | .commentEnd => r.mark? t
  | .instructionEnd => r.mark? t
  | .equals => r.mark? t
  | .doubleQuote => r.mark? t
  | .singleQuote => r.mark? t
  | .semicolon => r.mark? t

/-- the reader behind a reference between pieces of markup. A piece of text that only has blanks so far
remains blank; where there is no text so far, what the text of an entity adds to it counts, blank or not. -/
def behindReference (r : Reader) : Reader :=
  { r with place := .content, blank := r.blank && !r.text.isEmpty && r.text.all isSpace }

/-- the end of a reference between pieces of markup, and the text to be read in its place -/
def refer? (r : Reader) (name : List Char) : Option (Reader × List Char) :=
  match referent? r.version r.entities name with
  | some (.char c) => some ({ r with text := c :: r.text }.behindReference, [])
  | some (.entity text) => some (r.behindReference, text)
  | none => none

/-- whether a processing instruction may have a name: it is not empty, and not `xml` in any case -/
def instructionAllowed (name : List Char) : Bool :=
  !name.isEmpty && name.map Char.toLower != "xml".toList

/-- a token in the name of a processing instruction -/
def instruction? (r : Reader) (first : Bool) (name : List Char) (t : Token) : Option Reader :=
  match t with
  | .char c =>
    if isSpace c then
      if first && name.reverse == "xml".toList then some (r.moveTo (.declaration .start))
      else if instructionAllowed name.reverse then some (r.moveTo .instructionData)
      else none
    else if (if name.isEmpty then isNameStart c else isNameChar c) then
      some (r.moveTo (.instruction first (c :: name)))
    else none
  | .instructionEnd =>
    if instructionAllowed name.reverse then some { r with place := .content, tree := r.tree.add .aside } else none
  | _ => none

/-- whether a document may hold a token where it is passed over or taken as it is -/
def allowsInside (version : Version) : Token → Bool
  | .char c => version.allowsReference c
  | _ => true

/-- a token in a part that ends with the given mark and leaves nothing but an aside -/
def aside? (r : Reader) (last t : Token) : Option Reader :=
  if t = last then some { r with place := .content, tree := r.tree.add .aside }
  else if allowsInside r.version t then some r
  else none

/-- a token in a verbatim section. When it is not blank, a blank piece of text right behind it counts. -/
def verbatim? (r : Reader) (content : List Char) (t : Token) : Option Reader :=
  match t with
  | .verbatimEnd => some { r with place := .content, tree := r.tree.add (.text (String.ofList content.reverse)) }
  | .char c =>
    if r.version.allowsReference c then
      some { r with place := .verbatim (c :: content), blank := r.blank && isSpace c }
    else none
  | _ => none

def tag? (r : Reader) (place : TagPlace) (t : Token) : Option Reader :=
  match place.step? r.version r.entities t with
  | some (.more place) => some (r.moveTo (.tag place))
  | some (.done tag closed) => do
    let tree ← r.tree.push? tag
    let tree ← if closed then tree.pop? tag.name else some tree
    pure { r with place := .content, tree }
  | none => none

def close? (r : Reader) (name : QName) : Option Reader :=
  (r.tree.pop? name).map fun tree => { r with place := .content, tree }

def endTag? (r : Reader) (name : List Char) (t : Token) : Option Reader :=
  match t with
  | .tagEnd => (QName.ofElement? name.reverse).bind r.close?
  | .char c =>
    if isSpace c then (QName.ofElement? name.reverse).map fun q => r.moveTo (.endTagNamed q)
    else some (r.moveTo (.endTag (c :: name)))
  | _ => none

/-- a token behind the name of an end tag -/
def endTagNamed? (r : Reader) (name : QName) (t : Token) : Option Reader :=
  match t with
  | .tagEnd => r.close? name
  | .char c => if isSpace c then some r else none
  | _ => none

def declaration? (r : Reader) (d : Declaration) (t : Token) : Option Reader :=
  match d.step? t with
  | some (.more d) => some (r.moveTo (.declaration d))
  | some (.done version encoding) => some { r with place := .content, version, encoding }
  | none => none

/-- a token in a document type declaration, and the text to be read next -/
def doctype? (r : Reader) (place : DoctypePlace) (t : Token) : Option (Reader × List Char) :=
  match place.step? r.version r.entities t with
  | some (.more place) => some (r.moveTo (.doctype place), [])
  | some (.declare name text) =>
    some ({ r with place := .doctype .rest, entities := r.entities.declare name text }, [])
  | some (.expand text) => some (r.moveTo (.doctype .between), text)
  | some .done => some (r.moveTo .content, [])
  | none => none

def alone (r : Reader) : Reader × List Char := (r, [])

/-- take in one token, and give the text to be read before the next one -/
def step? (r : Reader) (t : Token) : Option (Reader × List Char) :=
  match r.place with
  | .start =>
    if t = .instructionStart then some (r.moveTo (.instruction true []), [])
    else ((r.moveTo .content).content? t).map alone
  | .content => (r.content? t).map alone
  | .reference name =>
    match t with
    | .char c => if extendsReference name c then some (r.moveTo (.reference (c :: name)), []) else none
    | .semicolon => r.refer? name.reverse
    | _ => none
  | .instruction first name => (r.instruction? first name t).map alone
  | .instructionData => (r.aside? .instructionEnd t).map alone
  | .declaration d => (r.declaration? d t).map alone
  | .comment => (r.aside? .commentEnd t).map alone
  | .verbatim content => (r.verbatim? content t).map alone
  | .tag place => (r.tag? place t).map alone
  | .endTag name => (r.endTag? name t).map alone
  | .endTagNamed name => (r.endTagNamed? name t).map alone
  | .doctype place => r.doctype? place t

def run? (r : Reader) : List Token → Option (Reader × List Char)
  | [] => some (r, [])
  | t :: ts => do
    let (r, text) ← r.step? t
    let (r, more) ← r.run? ts
    pure (r, text ++ more)

/-- the root of a document that is read to its end -/
def finish? (r : Reader) : Option Node :=
  if r.place = .content then r.tree.finish? else none

end Reader

end Blockwork.Markup
