/-
Names with a namespace prefix.
-/
import Blockwork.Markup.Char

namespace Blockwork.Markup

/-- a name with the namespace prefix in front of its colon; an empty prefix when there is none -/
structure QName where
  space : String
  name : String
  deriving DecidableEq

namespace QName

/-- a name as written: it starts with a name character other than a colon, and has at most one colon,
which stands between two parts -/
def ofChars? (cs : List Char) : Option QName :=
  match cs with
  | [] => none
  | c :: _ =>
    if c = ':' || !isNameStart c || !cs.all isNameChar then none
    else
      let first := cs.takeWhile (· != ':')
      match cs.drop first.length with
      | [] => some ⟨"", String.ofList first⟩
      | _ :: second =>
        if second.isEmpty || second.contains ':' then none
        else some ⟨String.ofList first, String.ofList second⟩

/-- the name of an element, which may not have one of the two reserved prefixes -/
def ofElement? (cs : List Char) : Option QName :=
  (ofChars? cs).filter fun q => q.space != "xml" && q.space != "xmlns"

end QName

end Blockwork.Markup
