/-
What arithmetic blocks denote.

A formula is an arithmetic expression of the block language, whatever the target: numbers, variables, a random
fraction, the operators and the functions of one number, to any depth. `Block.formula?` is the formula that a
block denotes if it and everything plugged into it is arithmetic; an operand that is left out is zero.
`Formula.tree` is the expression that a target has to have for it.
-/
import Blockwork.Proofs.Grammar
import Blockwork.Proofs.Numerals
import Blockwork.Proofs.Perform

namespace Blockwork

open Grammar

/-! ## Formulas -/

/-- an arithmetic expression of the block language -/
inductive Formula
  | number (value : Binary64)
  | variable (user : String)
  | randomFraction
  | arithmetic (op : Arithmetic) (left right : Formula)
  | modulo (left right : Formula)
  | single (op : Single) (operand : Formula)

namespace Formula

/-- the operand in a slot; zero when nothing is plugged in -/
def operand? (operands : List (Nat × Option Formula)) (slot : Nat) : Option Formula :=
  (Slots.get? slot operands).getD (some (.number (.zero false)))

/-- the formula of a construct, given those of what is plugged in -/
def ofForm? (operands : List (Nat × Option Formula)) : Form → Option Formula
  | .number literal => some (.number (Binary64.parsePrefix literal))
  | .get user => some (.variable user)
  | .randomFraction => some .randomFraction
  | .arithmetic op => do some (.arithmetic op (← operand? operands 0) (← operand? operands 1))
  | .modulo => do some (.modulo (← operand? operands 0) (← operand? operands 1))
  | .single op => do some (.single op (← operand? operands 0))
  | _ => none

end Formula

namespace Block

mutual

/-- the formula that a block denotes, if it and all that is plugged into it is arithmetic -/
def formula? : Block → Option Formula
  | mk head values _ _ =>
    match head.form with
    | .ok form => Formula.ofForm? (formulas? values) form
    | .error _ => none

def formulas? : List (Nat × Block) → List (Nat × Option Formula)
  | [] => []
  | (slot, block) :: rest => (slot, formula? block) :: formulas? rest

end

theorem formulas?_eq_map (entries : List (Nat × Block)) :
    formulas? entries = entries.map fun entry => (entry.1, formula? entry.2) := by
  induction entries with
  | nil => rfl
  | cons entry rest ih => simp [formulas?, ih]

end Block

/-! ## The trees that the targets have to have -/

namespace Language

/-- the tree of a number; a negative one is a unary minus on its magnitude -/
def numberTree (language : Language) (x : Binary64) : Tree :=
  match x with
  | .nan =>
    match language with
    | javascript => .name "NaN".toList
    | dart => path "double" ["nan"]
    | python => .call (.name "float".toList) [.literal "nan".toList]
  | .infinite negative =>
    match language with
    | javascript => if negative then .negate (.name "Infinity".toList) else .name "Infinity".toList
    | dart => if negative then path "double" ["negativeInfinity"] else path "double" ["infinity"]
    | python => .call (.name "float".toList) [.literal (if negative then "-inf".toList else "inf".toList)]
  | .finite negative m p =>
    if m = 0 then .number "0".toList
    else if negative then .negate (.number (language.magnitude m p))
    else .number (language.magnitude m p)

def randomTree : Language → Tree
  | javascript => .call (path "Math" ["random"]) []
  | dart => .call (.member (.call (path "Math" ["Random"]) []) "nextDouble".toList) []
  | python => .call (path "random" ["random"]) []

def library : Language → String
  | javascript => "Math"
  | dart => "Math"
  | python => "math"

/-- the tree of an operator on two operands; only Python has a sign for the power -/
def arithmeticTree (language : Language) (op : Arithmetic) (x y : Tree) : Tree :=
  match op with
  | .add => .binary .plus x y
  | .minus => .binary .minus x y
  | .multiply => .binary .times x y
  | .divide => .binary .divide x y
  | .power =>
    match language with
    | python => .binary .power x y
    | _ => .call (path language.library ["pow"]) [x, y]

def apply (language : Language) (function : String) (x : Tree) : Tree :=
  .call (path language.library [function]) [x]

def piName : Language → String
  | javascript => "PI"
  | _ => "pi"

def pi (language : Language) : Tree :=
  path language.library [language.piName]

def halfTurn : Language → Tree
  | python => .number "180.0".toList
  | _ => .number "180".toList

def ofDegrees (language : Language) (function : String) (x : Tree) : Tree :=
  language.apply function (.binary .times (.binary .divide x language.halfTurn) language.pi)

def toDegrees (language : Language) (function : String) (x : Tree) : Tree :=
  .binary .times (.binary .divide (language.apply function x) language.pi) (.number "180".toList)

def method (name : String) (x : Tree) : Tree :=
  .call (.member x name.toList) []

/-- the tree of a function of one number -/
def singleTree (language : Language) (op : Single) (x : Tree) : Tree :=
  match op, language with
  | .neg, _ => .negate x
  | .root, _ => language.apply "sqrt" x
  | .ln, _ => language.apply "log" x
  | .exp, _ => language.apply "exp" x
  | .pow10, _ => .call (path language.library ["pow"]) [.number "10".toList, x]
  | .sin, _ => language.ofDegrees "sin" x
  | .cos, _ => language.ofDegrees "cos" x
  | .tan, _ => language.ofDegrees "tan" x
  | .asin, _ => language.toDegrees "asin" x
  | .acos, _ => language.toDegrees "acos" x
  | .atan, _ => language.toDegrees "atan" x
  | .log10, javascript => .binary .divide (language.apply "log" x) (language.apply "log" (.number "10".toList))
  | .log10, dart => .binary .divide (language.apply "log" x) (path "Math" ["ln10"])
  | .log10, python => language.apply "log10" x
  | .abs, javascript => language.apply "abs" x
  | .abs, dart => method "abs" x
  | .abs, python => language.apply "fabs" x
  | .round, javascript => language.apply "round" x
  | .round, dart => method "round" x
  | .round, python => .call (.name "round".toList) [x]
  | .roundUp, dart => method "ceil" x
  | .roundUp, _ => language.apply "ceil" x
  | .roundDown, dart => method "floor" x
  | .roundDown, _ => language.apply "floor" x

end Language

/-- the expression that a target has to have for a formula, its variables named by `identifier` -/
def Formula.tree (language : Language) (identifier : String → String) : Formula → Tree
  | .number x => language.numberTree x
  | .variable user => .name (identifier user).toList
  | .randomFraction => language.randomTree
  | .arithmetic op left right =>
    language.arithmeticTree op (left.tree language identifier) (right.tree language identifier)
  | .modulo left right => .binary .remainder (left.tree language identifier) (right.tree language identifier)
  | .single op operand => language.singleTree op (operand.tree language identifier)

end Blockwork
