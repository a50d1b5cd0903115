/-
Block kinds: the twenty-nine kinds of block a workspace may hold, the identifiers they are written
with, the family each belongs to, and whether a block of the kind is a statement or a value.
-/
namespace Blockwork

/-- the drawer of the toolbox a kind is found in -/
inductive Family
  | math
  | text
  | control
  | procedure
  | variable
  deriving DecidableEq

/-- the kinds of block that programs are made of -/
inductive Kind
  | number
  | arithmetic
  | change
  | single
  | round
  | trig
  | onList
  | modulo
  | randomFraction
  | randomInteger
  | text
  | join
  | length
  | isEmpty
  | endString
  | indexOf
  | charAt
  | changeCase
  | trim
  | print
  | choice
  | whileUntil
  | count
  | forEach
  | flow
  | procedureResult
  | procedure
  | variableGet
  | variableSet
  deriving DecidableEq

namespace Kind

/-- every kind, in the order in which a template table is checked -/
def all : List Kind :=
  [.number, .arithmetic, .change, .single, .round, .trig, .onList, .modulo, .randomFraction,
   .randomInteger, .text, .join, .length, .isEmpty, .endString, .indexOf, .charAt, .changeCase, .trim,
   .print, .choice, .whileUntil, .count, .forEach, .flow, .procedureResult, .procedure, .variableGet,
   .variableSet]

def name : Kind → String
  | number => "math_number"
  | arithmetic => "math_arithmetic"
  | change => "math_change"
  | single => "math_single"
  | round => "math_round"
  | trig => "math_trig"
  | onList => "math_on_list"
  | modulo => "math_modulo"
  | randomFraction => "math_random_float"
  | randomInteger => "math_random_int"
  | text => "text"
  | join => "text_join"
  | length => "text_length"
  | isEmpty => "text_isEmpty"
  | endString => "text_endString"
  | indexOf => "text_indexOf"
  | charAt => "text_charAt"
  | changeCase => "text_changeCase"
  | trim => "text_trim"
  | print => "text_print"
  | choice => "controls_if"
  | whileUntil => "controls_whileUntil"
  | count => "controls_for"
  | forEach => "controls_forEach"
  | flow => "controls_flow_statements"
  | procedureResult => "procedures_defreturn"
  | procedure => "procedures_defnoreturn"
  | variableGet => "variables_get"
  | variableSet => "variables_set"

def ofName? (name : String) : Option Kind :=
  all.find? fun kind => kind.name == name

def family : Kind → Family
  | number => .math
  | arithmetic => .math
  | change => .math
  | single => .math
  | round => .math
  | trig => .math
  | onList => .math
  | modulo => .math
  | randomFraction => .math
  | randomInteger => .math
  | text => .text
  | join => .text
  | length => .text
  | isEmpty => .text
  | endString => .text
  | indexOf => .text
  | charAt => .text
  | changeCase => .text
  | trim => .text
  | print => .text
  | choice => .control
  | whileUntil => .control
  | count => .control
  | forEach => .control
  | flow => .control
  | procedureResult => .procedure
  | procedure => .procedure
  | variableGet => .variable
  | variableSet => .variable

/-- statement kinds produce whole lines; all others produce an expression -/
def isStatement : Kind → Bool
  | change => true
  | print => true
  | choice => true
  | whileUntil => true
  | count => true
  | forEach => true
  | flow => true
  | procedureResult => true
  | procedure => true
  | variableSet => true
  | _ => false

end Kind

end Blockwork
