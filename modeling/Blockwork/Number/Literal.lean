/-
Number literals of the targets: how each language writes a number that a block holds. Zero has no sign,
whole numbers have no point, and the special numbers have a spelling of their own. A Dart integer
literal has to fit into 64 bits, so a larger whole number is written as a fraction there.
-/
import Blockwork.Language
import Blockwork.Number.Decimal

namespace Blockwork.Language

def nanLiteral : Language → String
  | javascript => "NaN"
  | dart => "double.nan"
  | python => "float('nan')"

def infinityLiteral (negative : Bool) : Language → String
  | javascript => if negative then "-Infinity" else "Infinity"
  | dart => if negative then "double.negativeInfinity" else "double.infinity"
  | python => if negative then "float('-inf')" else "float('inf')"

/-- whether a whole number this large is written with a fraction -/
def marksFraction (language : Language) (x : Binary64) : Bool :=
  match language with
  | dart => x.isWhole && x.magnitudeAtLeast (twoTo 63)
  | javascript => false
  | python => false

def numberLiteral (language : Language) (x : Binary64) : String :=
  match x with
  | .nan => language.nanLiteral
  | .infinite negative => language.infinityLiteral negative
  | .finite negative m p =>
    if m = 0 then "0"
    else
      (if negative then "-" else "") ++ String.ofList (Decimal.render m p) ++
        (if language.marksFraction x then ".0" else "")

end Blockwork.Language
