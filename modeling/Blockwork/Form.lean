/-
Forms: a block's own data read as the construct it stands for. Reading settles the operator or choice
of the block and nothing else, before any slot is visited and in the same way for every target, so a
workspace that one target refuses is refused by all.
-/
import Blockwork.Block.Basic
import Blockwork.Number.Power
import Blockwork.Selector

namespace Blockwork

/-- a construct of the block language, without its operands -/
inductive Form
  | number (literal : String)
  | arithmetic (op : Arithmetic)
  | change (name : String)
  | single (op : Single)
  | onList (op : Aggregate)
  | modulo
  | randomFraction
  | randomInteger
  | text (content : String)
  | join (items : Nat)
  | length
  | isEmpty
  | endString (part : End)
  | indexOf (part : End)
  | charAt
  | changeCase (style : LetterCase)
  | trim (side : Side)
  | print
  | choice (elseifs : Nat) (otherwise : Bool)
  | loop (mode : LoopMode)
  | count (name : String)
  | forEach (name : String)
  | jump (way : Jump)
  | procedure (name : String)
  | get (name : String)
  | set (name : String)
  deriving DecidableEq

namespace Form

def read (kind : Kind) (head : Head) : Except GenError Form :=
  match kind with
  | .number => .ok (.number ((head.title? 0).getD ""))
  | .arithmetic => .arithmetic <$> Arithmetic.read (head.label? 1)
  | .change => .ok (.change ((head.title? 1).getD ""))
  | .single => .single <$> Single.read .single (head.label? 0)
  | .round => .single <$> Single.read .round (head.label? 0)
  | .trig => .single <$> Single.read .trig (head.label? 0)
  | .onList => .onList <$> Aggregate.read (head.title? 0)
  | .modulo => .ok .modulo
  | .randomFraction => .ok .randomFraction
  | .randomInteger => .ok .randomInteger
  | .text => .ok (.text ((head.title? 1).getD ""))
  | .join => .ok (.join head.items)
  | .length => .ok .length
  | .isEmpty => .ok .isEmpty
  | .endString => .endString <$> End.read .endString (head.label? 0)
  | .indexOf => .indexOf <$> End.read .indexOf (head.title? 1)
  | .charAt => .ok .charAt
  | .changeCase => .changeCase <$> LetterCase.read (head.label? 0)
  | .trim => .trim <$> Side.read (head.title? 1)
  | .print => .ok .print
  | .choice => .ok (.choice head.elseifs (0 < head.otherwise))
  | .whileUntil => .loop <$> LoopMode.read (head.title? 1)
  | .count => .ok (.count ((head.variableName? 0).getD "i"))
  | .forEach => .ok (.forEach ((head.variableName? 0).getD "item"))
  | .flow => .jump <$> Jump.read (head.title? 0)
  | .procedureResult => .ok (.procedure ((head.title? 0).getD "procedure"))
  | .procedure => .ok (.procedure ((head.title? 0).getD "procedure"))
  | .variableGet => .ok (.get ((head.title? 0).getD ""))
  | .variableSet => .ok (.set ((head.title? 0).getD ""))

/-- the bytes that a construct sets aside before it visits a slot: twenty-four for each item of a list.
Two items or fewer are not listed. -/
def room : Form → Nat
  | join items => if 2 < items then 24 * items else 0
  | _ => 0

/-- no more bytes than this, less one, can be set aside -/
def roomLimit : Nat := twoTo 63

/-- the construct that a block stands for, if there is room for its list -/
def readWithin (kind : Kind) (head : Head) : Except (Stop GenError) Form := do
  let form ← Stop.refusing (read kind head)
  if form.room < roomLimit then pure form else .error .overflow

end Form

end Blockwork
