/-
Quoted values: those of attributes and of the settings in an XML declaration. References in them are
replaced at once, and the text of an entity is taken as it is, without a second look for references or
tags in it.
-/
import Blockwork.Markup.Token
import Blockwork.Markup.Reference

namespace Blockwork.Markup

/-- a value as far as it has been read; characters are kept last first -/
inductive Value
  /-- before the quote -/
  | before
  | inside (quote : Token) (content : List Char)
  /-- in a reference inside the value -/
  | reference (quote : Token) (content name : List Char)
  deriving DecidableEq

namespace Value

/-- what a token makes of a value: it goes on, or it is complete -/
inductive Step
  | more (value : Value)
  | done (content : String)

/-- a token between the quotes: the quote that started the value ends it, and a tag or a processing
instruction cannot start in it; every other mark stands for its characters -/
def inside? (version : Version) (quote : Token) (content : List Char) (t : Token) : Option Step :=
  if t = quote then some (.done (String.ofList content.reverse))
  else
    match t with
    | .tagStart => none
    | .instructionStart => none
    | .ampersand => some (.more (.reference quote content []))
    | .char c => if version.allows c then some (.more (.inside quote (c :: content))) else none
    | t => some (.more (.inside quote (t.spelling.reverseAux content)))

/-- the value behind a reference in it -/
def behindReference (quote : Token) (content : List Char) : Referent → Value
  | .char c => .inside quote (c :: content)
  | .entity text => .inside quote (text.reverseAux content)

def step? (version : Version) (entities : Entities) (value : Value) (t : Token) : Option Step :=
  match value with
  | .before =>
    match t with
    | .char c => if isSpace c then some (.more .before) else none
    | .doubleQuote => some (.more (.inside t []))
    | .singleQuote => some (.more (.inside t []))
    | _ => none
  | .inside quote content => inside? version quote content t
  | .reference quote content name =>
    match t with
    | .char c =>
      if extendsReference name c then some (.more (.reference quote content (c :: name))) else none
    | .semicolon =>
      (referent? version entities name.reverse).map fun r => .more (behindReference quote content r)
    | _ => none

end Value

end Blockwork.Markup
