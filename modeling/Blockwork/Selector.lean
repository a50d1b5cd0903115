/-
Selectors: the operator or choice that a block carries as a token. Each family of tokens is a type of
its own; a token outside the family, or none at all, is an error that names the block's kind.
-/
import Blockwork.Error

namespace Blockwork

/-- read a token of a block of the given kind; a missing token is reported as an empty one -/
def select {α : Type} (kind : Kind) (ofToken? : String → Option α) (token : Option String) : Except GenError α :=
  match token.bind ofToken? with
  | some choice => .ok choice
  | none => .error (.unknownSelector kind (token.getD ""))

/-- the five arithmetic operators -/
inductive Arithmetic
  | add
  | minus
  | multiply
  | divide
  | power
  deriving DecidableEq

namespace Arithmetic

/-- the choice that a token names -/
def ofToken? : String → Option Arithmetic
  | "ADD" => some add
  | "MINUS" => some minus
  | "MULTIPLY" => some multiply
  | "DIVIDE" => some divide
  | "POWER" => some power
  | _ => none

/-- the sign between the operands, the same in every target; power has none -/
def symbol? : Arithmetic → Option String
  | add => some "+"
  | minus => some "-"
  | multiply => some "*"
  | divide => some "/"
  | power => none

/-- the choice set on a block, or the cause that there is none -/
def read (token : Option String) : Except GenError Arithmetic :=
  select .arithmetic ofToken? token

end Arithmetic

/-- functions of one number -/
inductive Single
  | abs
  | root
  | ln
  | log10
  | exp
  | pow10
  | round
  | roundUp
  | roundDown
  | sin
  | cos
  | tan
  | neg
  | asin
  | acos
  | atan
  deriving DecidableEq

namespace Single

def ofToken? : String → Option Single
  | "ABS" => some abs
  | "ROOT" => some root
  | "LN" => some ln
  | "LOG10" => some log10
  | "EXP" => some exp
  | "POW10" => some pow10
  | "ROUND" => some round
  | "ROUNDUP" => some roundUp
  | "ROUNDDOWN" => some roundDown
  | "SIN" => some sin
  | "COS" => some cos
  | "TAN" => some tan
  | "NEG" => some neg
  | "ASIN" => some asin
  | "ACOS" => some acos
  | "ATAN" => some atan
  | _ => none

/-- three kinds of block share these functions, so the kind is given -/
def read (kind : Kind) (token : Option String) : Except GenError Single :=
  select kind ofToken? token

end Single

/-- functions of a list of numbers -/
inductive Aggregate
  | sum
  | min
  | max
  | average
  | median
  | mode
  | deviation
  | random
  deriving DecidableEq

namespace Aggregate

def ofToken? : String → Option Aggregate
  | "SUM" => some sum
  | "MIN" => some min
  | "MAX" => some max
  | "AVERAGE" => some average
  | "MEDIAN" => some median
  | "MODE" => some mode
  | "STD_DEV" => some deviation
  | "RANDOM" => some random
  | _ => none

def read (token : Option String) : Except GenError Aggregate :=
  select .onList ofToken? token

end Aggregate

/-- one of the two ends of a text -/
inductive End
  | first
  | last
  deriving DecidableEq

namespace End

def ofToken? : String → Option End
  | "FIRST" => some first
  | "LAST" => some last
  | _ => none

/-- two kinds of block have an end to choose, so the kind is given -/
def read (kind : Kind) (token : Option String) : Except GenError End :=
  select kind ofToken? token

end End

inductive LetterCase
  | upper
  | lower
  | title
  deriving DecidableEq

namespace LetterCase

def ofToken? : String → Option LetterCase
  | "UPPERCASE" => some upper
  | "LOWERCASE" => some lower
  | "TITLECASE" => some title
  | _ => none

def read (token : Option String) : Except GenError LetterCase :=
  select .changeCase ofToken? token

end LetterCase

/-- the side at which white space is removed -/
inductive Side
  | left
  | right
  | both
  deriving DecidableEq

namespace Side

def ofToken? : String → Option Side
  | "LEFT" => some left
  | "RIGHT" => some right
  | "BOTH" => some both
  | _ => none

def read (token : Option String) : Except GenError Side :=
  select .trim ofToken? token

end Side

/-- whether a loop runs while its condition holds or until it does -/
inductive LoopMode
  | whileTrue
  | untilTrue
  deriving DecidableEq

namespace LoopMode

def ofToken? : String → Option LoopMode
  | "WHILE" => some whileTrue
  | "UNTIL" => some untilTrue
  | _ => none

def read (token : Option String) : Except GenError LoopMode :=
  select .whileUntil ofToken? token

end LoopMode

/-- the two ways out of a loop's round -/
inductive Jump
  | leave
  | skip
  deriving DecidableEq

namespace Jump

def ofToken? : String → Option Jump
  | "BREAK" => some leave
  | "CONTINUE" => some skip
  | _ => none

def read (token : Option String) : Except GenError Jump :=
  select .flow ofToken? token

/-- the keyword, the same in every target -/
def keyword : Jump → String
  | leave => "break"
  | skip => "continue"

end Jump

end Blockwork
