/-
Templates: how a target writes a construct. A template is data. Its steps are carried out in order, and
most of them leave a text: the code of an operand, the body of a branch, an issued name. Its shape then
says how the texts are laid out. What a target can do is all visible in its templates.
-/
import Blockwork.Template.Piece

namespace Blockwork

/-- a line that makes a library available, hoisted once -/
structure Library where
  key : String
  source : String
  deriving DecidableEq

/-- a function hoisted once: the text around its name in the first line, and the lines below -/
structure Helper where
  key : String
  before : String
  after : String
  body : List String
  deriving DecidableEq

def Helper.source (helper : Helper) (name : String) : String :=
  Text.joinWith "\n" ((helper.before ++ name ++ helper.after) :: helper.body)

/-- one step of a template -/
inductive Step
  /-- the code of a value slot, `bare` where its place needs no brackets around an operator; `absent`
  when nothing is plugged in -/
  | value (slot : Nat) (bare : Bool) (absent : String)
  /-- the indented chain of a statement slot; a statement that does nothing when it is empty -/
  | branch (slot : Nat)
  /-- the indented chain of a statement slot; an empty text when it is empty -/
  | body (slot : Nat)
  /-- the identifier of a user's variable -/
  | userVariable (name : String)
  /-- the identifier of a user's procedure -/
  | userProcedure (name : String)
  /-- a fresh identifier -/
  | fresh (base : String)
  /-- a fresh identifier, declared at the top of the program -/
  | temporary (base : String)
  /-- the identifier of a helper -/
  | helper (helper : Helper)
  /-- make a library available; leaves no text -/
  | require (library : Library)
  /-- hoist a definition, its identifier being an earlier text; leaves no text -/
  | hoist (key : String) (name : Nat) (source : List Piece)
  deriving DecidableEq

/-- pieces in a row; a loose layout has an operator outside all brackets, and is put into brackets
where its place asks for it -/
structure Layout where
  isLoose : Bool
  pieces : List Piece
  deriving DecidableEq

namespace Layout

def tight (pieces : List Piece) : Layout := ⟨false, pieces⟩

def loose (pieces : List Piece) : Layout := ⟨true, pieces⟩

/-- the code of a layout, for a place that needs brackets around an operator or not -/
def render (texts : List String) (bare : Bool) (layout : Layout) : String :=
  let code := Piece.renderAll texts layout.pieces
  if layout.isLoose then parenthesize code bare else code

end Layout

/-- how the texts are laid out: in one way, or in a way that depends on the order of two of them when
both are plain numerals -/
inductive Shape
  | always (layout : Layout)
  | ordered (first second : Nat) (rising falling unknown : Layout)
  deriving DecidableEq

namespace Shape

/-- the layout that applies to the texts -/
def layout (texts : List String) : Shape → Layout
  | always layout => layout
  | ordered first second rising falling unknown =>
    match numericLiteral? (Piece.textAt texts first), numericLiteral? (Piece.textAt texts second) with
    | some x, some y => if x.le y then rising else falling
    | _, _ => unknown

end Shape

/-- how one construct is written -/
structure Template where
  steps : List Step
  shape : Shape
  deriving DecidableEq

namespace Template

/-- a template whose code never needs brackets -/
def tight (steps : List Step) (pieces : List Piece) : Template :=
  ⟨steps, .always (.tight pieces)⟩

/-- a template whose code has an operator outside all brackets -/
def loose (steps : List Step) (pieces : List Piece) : Template :=
  ⟨steps, .always (.loose pieces)⟩

/-- the code of a template once its steps have left their texts -/
def render (template : Template) (texts : List String) (bare : Bool) : String :=
  (template.shape.layout texts).render texts bare

/-- a number operand; zero when absent -/
def number (slot : Nat) (bare : Bool) : Step := .value slot bare "0"

/-- a text operand; the empty literal when absent -/
def string (slot : Nat) (bare : Bool) : Step := .value slot bare "''"

/-- a list operand; the empty list when absent -/
def list (slot : Nat) (bare : Bool) : Step := .value slot bare "[]"

/-- the steps of a choice: each condition with its branch, then the last branch if there is one -/
def choiceSteps (falsity : String) (elseifs : Nat) (otherwise : Bool) : List Step :=
  ((List.range (elseifs + 1)).flatMap fun n => [.value n true falsity, .branch n]) ++
    if otherwise then [.branch (elseifs + 1)] else []

/-- places with a separator between neighbours -/
def separated (separator : List Piece) (places : List (List Piece)) : List Piece :=
  match places with
  | [] => []
  | [place] => place
  | place :: rest => place ++ separator ++ separated separator rest

end Template

end Blockwork
