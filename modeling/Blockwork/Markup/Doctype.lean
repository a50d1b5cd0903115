/-
Document type declarations. Of all that they may hold, the declarations of entities are read: what an
entity stands for is either a text in quotes or kept elsewhere, and then it stands for nothing. The rest is
passed over, whatever its form, as long as it starts as such a declaration does. A reference to a parameter
entity is replaced by its text, which is then read as if it had stood there.
-/
import Blockwork.Markup.Token
import Blockwork.Markup.Reference

namespace Blockwork.Markup

/-- an entity whose text is being read: its name, the quote the text ends with, and the text, last
character first -/
structure EntityText where
  name : EntityName
  quote : Token
  text : List Char
  deriving DecidableEq

/-- where in a document type declaration the reader stands; names are kept last character first -/
inductive DoctypePlace
  /-- outside the declarations inside -/
  | between
  | quoted (quote : Token)
  | comment
  /-- in the word that a declaration starts with -/
  | word (letters : List Char)
  /-- among blanks before the name of an entity, and of a parameter entity -/
  | beforeName
  | beforeParameterName
  | name (name : EntityName)
  /-- among blanks before what an entity stands for -/
  | beforeText (name : EntityName)
  | text (entity : EntityText)
  /-- in the text of an entity: behind `&`, in a number behind `&#`, in a name behind `%` -/
  | ampersand (entity : EntityText)
  | number (entity : EntityText) (digits : List Char)
  | parameter (entity : EntityText) (letters : List Char)
  /-- in a reference to a parameter entity outside the declarations -/
  | reference (letters : List Char)
  /-- in a part of a declaration that is passed over -/
  | rest
  deriving DecidableEq

namespace DoctypePlace

/-- what a token makes of a document type declaration -/
inductive Step
  | more (place : DoctypePlace)
  /-- an entity is declared, and the rest of its declaration passed over -/
  | declare (name : EntityName) (text : List Char)
  /-- the text is read next, outside the declarations -/
  | expand (text : List Char)
  | done

/-- a token outside the declarations -/
def between? : Token → Option Step
  | .tagEnd => some .done
  | .declarationStart => some (.more (.word []))
  | .commentStart => some (.more .comment)
  | .doubleQuote => some (.more (.quoted .doubleQuote))
  | .singleQuote => some (.more (.quoted .singleQuote))
  | .verbatimStart => none
  | .verbatimEnd => none
  | .char c => if c = '%' then some (.more (.reference [])) else some (.more .between)
  | _ => some (.more .between)

/-- the place behind the word of a declaration -/
def behindWord? (letters : List Char) : Option DoctypePlace :=
  match String.ofList letters.reverse with
  | "ENTITY" => some .beforeName
  | "NOTATION" => some .rest
  | "ELEMENT" => some .rest
  | "ATTLIST" => some .rest
  | _ => none

def name? (entity : EntityName) (c : Char) : Option Step :=
  if isSpace c then some (.more (.beforeText { entity with name := entity.name.reverse }))
  else if isNameChar c then some (.more (.name { entity with name := c :: entity.name }))
  else none

/-- a character before what an entity stands for; `S` and `P` start the words that say it is kept
elsewhere -/
def beforeText? (entity : EntityName) : Token → Option Step
  | .char c =>
    if isSpace c then some (.more (.beforeText entity))
    else if c = 'S' || c = 'P' then some (.declare entity [])
    else none
  | .doubleQuote => some (.more (.text ⟨entity, .doubleQuote, []⟩))
  | .singleQuote => some (.more (.text ⟨entity, .singleQuote, []⟩))
  | _ => none

/-- a token in the text of an entity -/
def text? (version : Version) (entity : EntityText) (t : Token) : Option Step :=
  if t = entity.quote then some (.declare entity.name entity.text.reverse)
  else
    match t with
    | .doubleQuote => some (.more (.text { entity with text := '"' :: entity.text }))
    | .singleQuote => some (.more (.text { entity with text := '\'' :: entity.text }))
    | .ampersand => some (.more (.ampersand entity))
    | .char c =>
      if c = '&' then some (.more (.ampersand entity))
      else if c = '%' then some (.more (.parameter entity []))
      else if version.allowsReference c then some (.more (.text { entity with text := c :: entity.text }))
      else none
    | _ => none

/-- a token behind `&` in the text of an entity: a reference by number is replaced at once, any other
one stands as it is written -/
def ampersand? (version : Version) (entity : EntityText) : Token → Option Step
  | .char c =>
    if c = '#' then some (.more (.number entity []))
    else if version.allowsReference c then
      some (.more (.text { entity with text := c :: '&' :: entity.text }))
    else none
  | _ => none

def isSemicolon (t : Token) : Bool :=
  t = .semicolon || t = .char ';'

/-- a token in a reference by number in the text of an entity -/
def number? (version : Version) (entity : EntityText) (digits : List Char) (t : Token) : Option Step :=
  if isSemicolon t then
    (numeral? version digits.reverse).map fun c => .more (.text { entity with text := c :: entity.text })
  else
    match t with
    | .char c => if version.allowsReference c then some (.more (.number entity (c :: digits))) else none
    | _ => none

/-- a token in a reference to a parameter entity: `place` with a character more, or at its end the
step that its text leads to -/
def parameter? (entities : Entities) (letters : List Char) (place : List Char → DoctypePlace)
    (step : List Char → Step) (t : Token) : Option Step :=
  if isSemicolon t then (entities.find? ⟨true, letters.reverse⟩).map step
  else
    match t with
    | .char c => if isNameChar c then some (.more (place (c :: letters))) else none
    | _ => none

def step? (version : Version) (entities : Entities) (place : DoctypePlace) (t : Token) : Option Step :=
  match place with
  | .between => between? t
  | .quoted quote => if t = quote then some (.more .between) else some (.more place)
  | .comment => if t = .commentEnd then some (.more .between) else some (.more place)
  | .word letters =>
    match t with
    | .char c =>
      if isSpace c then (behindWord? letters).map .more
      else if c.isUpper then some (.more (.word (c :: letters)))
      else none
    | _ => none
  | .beforeName =>
    match t with
    | .char c =>
      if isSpace c then some (.more place)
      else if c = '%' then some (.more .beforeParameterName)
      else if isNameStart c then some (.more (.name ⟨false, [c]⟩))
      else none
    | _ => none
  | .beforeParameterName =>
    match t with
    | .char c =>
      if isSpace c then some (.more place)
      else if isNameStart c then some (.more (.name ⟨true, [c]⟩))
      else none
    | _ => none
  | .name entity =>
    match t with
    | .char c => name? entity c
    | _ => none
  | .beforeText entity => beforeText? entity t
  | .text entity => text? version entity t
  | .ampersand entity => ampersand? version entity t
  | .number entity digits => number? version entity digits t
  | .parameter entity letters =>
    parameter? entities letters (.parameter entity)
      (fun text => .more (.text { entity with text := text.reverseAux entity.text })) t
  | .reference letters => parameter? entities letters .reference .expand t
  | .rest => if t = .tagEnd then some (.more .between) else some (.more place)

end DoctypePlace

end Blockwork.Markup
