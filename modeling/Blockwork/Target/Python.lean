/-
Python templates. Minus signs and method calls need no guard, except that a power binds tighter than a
minus sign in front of it.
-/
import Blockwork.Form
import Blockwork.Number.Literal
import Blockwork.Template.Basic

namespace Blockwork.Target.Python

open Template

/-! ## Libraries and helpers -/

def math : Library where
  key := "import_math"
  source := "import math"

def random : Library where
  key := "import_random"
  source := "import random"

/-- regular expressions -/
def re : Library where
  key := "import_re"
  source := "import re"

/-- the class of all numbers -/
def numbers : Library where
  key := "from_numbers_import_number"
  source := "from numbers import Number"

def mean : Helper where
  key := "math_mean"
  before := "def "
  after := "(myList):"
  body :=
    ["  if not myList: return 0",
     "  return float(sum(myList)) / len(myList)"]

def median : Helper where
  key := "math_median"
  before := "def "
  after := "(myList):"
  body :=
    ["  localList = sorted(e for e in myList if isinstance(e, Number))",
     "  if not localList: return 0",
     "  if len(localList) % 2 == 0:",
     "    return (localList[len(localList) // 2 - 1] + localList[len(localList) // 2]) / 2.0",
     "  else:",
     "    return localList[(len(localList) - 1) // 2]"]

def modes : Helper where
  key := "math_modes"
  before := "def "
  after := "(some_list):"
  body :=
    ["  modes = []",
     "  # [item, count] pairs instead of a dict so unhashable items can be counted.",
     "  counts = []",
     "  maxCount = 1",
     "  for item in some_list:",
     "    found = False",
     "    for count in counts:",
     "      if count[0] == item:",
     "        count[1] += 1",
     "        maxCount = max(maxCount, count[1])",
     "        found = True",
     "    if not found:",
     "      counts.append([item, 1])",
     "  for counted_item, item_count in counts:",
     "    if item_count == maxCount:",
     "      modes.append(counted_item)",
     "  return modes"]

def deviation : Helper where
  key := "math_standard_deviation"
  before := "def "
  after := "(myList):"
  body :=
    ["  numbers = [e for e in myList if isinstance(e, Number)]",
     "  n = len(numbers)",
     "  if n == 0: return None",
     "  mean = float(sum(numbers)) / n",
     "  variance = sum((x - mean) ** 2 for x in numbers) / n",
     "  return math.sqrt(variance)"]

def titleCase : Helper where
  key := "text_toTitleCase"
  before := "def "
  after := "(text):"
  body :=
    ["  return re.sub(r'\\S+', lambda m: m.group(0)[:1].upper() + m.group(0)[1:].lower(), text)"]

/-! ## Templates -/

/-- an operator between two numbers -/
def arithmetic (op : Arithmetic) : Template :=
  match op.symbol? with
  | some symbol => loose [number 0 false, number 1 false] [0, " ", symbol, " ", 1]
  | none => loose [number 0 false, number 1 false] [.guardMinus 0, " ** ", 1]

/-- a function of one number -/
def single : Single → Template
  | .abs => tight [number 0 true, .require math] ["math.fabs(", 0, ")"]
  | .root => tight [number 0 true, .require math] ["math.sqrt(", 0, ")"]
  | .ln => tight [number 0 true, .require math] ["math.log(", 0, ")"]
  | .log10 => tight [number 0 true, .require math] ["math.log10(", 0, ")"]
  | .exp => tight [number 0 true, .require math] ["math.exp(", 0, ")"]
  | .pow10 => tight [number 0 true, .require math] ["math.pow(10, ", 0, ")"]
  | .round => tight [number 0 true] ["round(", 0, ")"]
  | .roundUp => tight [number 0 true, .require math] ["math.ceil(", 0, ")"]
  | .roundDown => tight [number 0 true, .require math] ["math.floor(", 0, ")"]
  | .sin => tight [number 0 false, .require math] ["math.sin(", 0, " / 180.0 * math.pi)"]
  | .cos => tight [number 0 false, .require math] ["math.cos(", 0, " / 180.0 * math.pi)"]
  | .tan => tight [number 0 false, .require math] ["math.tan(", 0, " / 180.0 * math.pi)"]
  | .neg => loose [number 0 false] ["-", 0]
  | .asin => loose [number 0 true, .require math] ["math.asin(", 0, ") / math.pi * 180"]
  | .acos => loose [number 0 true, .require math] ["math.acos(", 0, ") / math.pi * 180"]
  | .atan => loose [number 0 true, .require math] ["math.atan(", 0, ") / math.pi * 180"]

/-- a summary of a list: a function on it, or a helper called on it -/
def onList : Aggregate → Template
  | .sum => tight [list 0 true] ["sum(", 0, ")"]
  | .min => tight [list 0 true] ["min(", 0, ")"]
  | .max => tight [list 0 true] ["max(", 0, ")"]
  | .average => tight [list 0 true, .helper mean] [1, "(", 0, ")"]
  | .median => tight [list 0 true, .require numbers, .helper median] [1, "(", 0, ")"]
  | .mode => tight [list 0 true, .helper modes] [1, "(", 0, ")"]
  | .deviation => tight [list 0 true, .require math, .require numbers, .helper deviation] [1, "(", 0, ")"]
  | .random => tight [list 0 true, .require random] ["random.choice(", 0, ")"]

/-- a random whole number between two bounds, given the lower one first -/
def between (low high : Piece) : List Piece :=
  ["math.floor(random.random() * (", high, " - ", low, " + 1) + ", low, ")"]

/-- bounds that are plain numerals are put in order here, others when the program runs -/
def randomInteger : Template :=
  ⟨[.require math, .require random, number 0 false, number 1 false],
    .ordered 0 1 (.tight (between 0 1)) (.tight (between 1 0))
      (.loose (.flatten [between 0 1, [" if ", 0, " < ", 1, " else "], between 1 0]))⟩

/-- texts joined into one; two are added, more are listed -/
def join : Nat → Template
  | 0 => tight [] ["''"]
  | 1 => tight [string 0 true] ["str(", 0, ")"]
  | 2 => loose [string 0 true, string 1 true] ["str(", 0, ") + str(", 1, ")"]
  | items =>
    tight ((List.range items).map fun slot => string slot true)
      (.flatten [["''.join(["], separated [", "] ((List.range items).map fun i => ["str(", .hole i, ")"]), ["])"]])

/-- characters from one end of a text; the last ones need the text twice, so it is bound where it is
first used -/
def endString : End → Template
  | .first => tight [number 0 true, string 1 false] [1, "[:", 0, "]"]
  | .last =>
    tight [number 0 false, string 1 true, .fresh "temp_text"]
      ["(", 2, " := ", 1, ")[max(0, len(", 2, ") - ", 0, "):]"]

def indexOf (part : End) : Template :=
  let method := match part with
    | .first => "find"
    | .last => "rfind"
  loose [string 0 true, string 1 false] [1, ".", method, "(", 0, ") + 1"]

def changeCase : LetterCase → Template
  | .upper => tight [string 0 false] [0, ".upper()"]
  | .lower => tight [string 0 false] [0, ".lower()"]
  | .title => tight [.require re, .helper titleCase, string 0 true] [0, "(", 1, ")"]

def trim : Side → Template
  | .left => tight [string 0 false] [0, ".lstrip()"]
  | .right => tight [string 0 false] [0, ".rstrip()"]
  | .both => tight [string 0 false] [0, ".strip()"]

/-- one condition of a choice with its branch -/
def conditionPieces (n : Nat) : List Piece :=
  [if n = 0 then "if " else "elif ", .hole (2 * n), ":\n", .hole (2 * n + 1)]

/-- conditions tried in order, the first that holds decides -/
def choice (elseifs : Nat) (otherwise : Bool) : Template :=
  tight (choiceSteps Language.python.falseLiteral elseifs otherwise)
    (.flatten [(List.range (elseifs + 1)).flatMap conditionPieces,
      if otherwise then ["else:\n", .hole (2 * (elseifs + 1))] else []])

def loop (mode : LoopMode) : Template :=
  let steps := [.value 0 true Language.python.falseLiteral, .branch 0]
  match mode with
  | .whileTrue => tight steps ["while ", 0, ":\n", 1]
  | .untilTrue => tight steps ["while not ", .guardWord 0, ":\n", 1]

/-- the template of every construct -/
def template : Form → Template
  | .number literal => tight [] [Language.python.numberLiteral (Binary64.parsePrefix literal)]
  | .arithmetic op => arithmetic op
  | .change name =>
    tight [.require numbers, number 0 false, .userVariable name]
      [1, " = (", 1, " if isinstance(", 1, ", Number) else 0) + ", 0, "\n"]
  | .single op => single op
  | .onList op => onList op
  | .modulo => loose [number 0 false, number 1 false] [0, " % ", 1]
  | .randomFraction => tight [.require random] ["random.random()"]
  | .randomInteger => randomInteger
  | .text content => tight [] [Language.python.quote content]
  | .join items => join items
  | .length => tight [string 0 true] ["len(", 0, ")"]
  | .isEmpty => loose [string 0 true] ["not len(", 0, ")"]
  | .endString part => endString part
  | .indexOf part => indexOf part
  | .charAt => tight [.value 0 false "1", list 1 false] [1, "[", .indexBeforeClamped 0, "]"]
  | .changeCase style => changeCase style
  | .trim side => trim side
  | .print => tight [string 0 true] ["print(", 0, ")\n"]
  | .choice elseifs otherwise => choice elseifs otherwise
  | .loop mode => loop mode
  | .count name =>
    tight [.userVariable name, number 0 true, number 1 false, .branch 0]
      ["for ", 0, " in range(", .rangeStart 1, .boundAbove 2, "):\n", 3]
  | .forEach name =>
    tight [.userVariable name, list 0 true, .branch 0] ["for ", 0, " in ", 1, ":\n", 2]
  | .jump way => tight [] [way.keyword, "\n"]
  | .procedure name =>
    tight [.userProcedure name, .body 0, .value 0 true ""]
      ["def ", 0, "():\n", .procedureBody 1 2 "\n" Language.python.noop]
  | .get name => tight [.userVariable name] [0]
  | .set name => tight [number 0 true, .userVariable name] [1, " = ", 0, "\n"]

end Blockwork.Target.Python
