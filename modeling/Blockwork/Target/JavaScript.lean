/-
JavaScript templates.
-/
import Blockwork.Number.Literal
import Blockwork.Target.Brace

namespace Blockwork.Target.JavaScript

open Template

/-! ## Helpers -/

def mean : Helper where
  key := "math_mean"
  before := "function "
  after := "(myList) \x7b"
  body :=
    ["  if (!myList.length) return 0;",
     "  return myList.reduce(function(x, y) \x7breturn x + y;\x7d, 0) / myList.length;",
     "\x7d"]

/-- the middle of the numbers in a list -/
def median : Helper where
  key := "math_median"
  before := "function "
  after := "(myList) \x7b"
  body :=
    ["  var localList = myList.filter(function (x) \x7breturn typeof x == 'number';\x7d);",
     "  if (!localList.length) return 0;",
     "  localList.sort(function(a, b) \x7breturn a - b;\x7d);",
     "  if (localList.length % 2 == 0) \x7b",
     "    return (localList[localList.length / 2 - 1] + localList[localList.length / 2]) / 2;",
     "  \x7d else \x7b",
     "    return localList[(localList.length - 1) / 2];",
     "  \x7d",
     "\x7d"]

/-- the most frequent items of a list -/
def modes : Helper where
  key := "math_modes"
  before := "function "
  after := "(values) \x7b"
  body :=
    ["  var modes = [];",
     "  var counts = [];",
     "  var maxCount = 0;",
     "  for (var i = 0; i < values.length; i++) \x7b",
     "    var value = values[i];",
     "    var found = false;",
     "    var thisCount;",
     "    for (var j = 0; j < counts.length; j++) \x7b",
     "      if (counts[j][0] === value) \x7b",
     "        thisCount = ++counts[j][1];",
     "        found = true;",
     "        break;",
     "      \x7d",
     "    \x7d",
     "    if (!found) \x7b",
     "      counts.push([value, 1]);",
     "      thisCount = 1;",
     "    \x7d",
     "    maxCount = Math.max(thisCount, maxCount);",
     "  \x7d",
     "  for (var j = 0; j < counts.length; j++) \x7b",
     "    if (counts[j][1] == maxCount) \x7b",
     "      modes.push(counts[j][0]);",
     "    \x7d",
     "  \x7d",
     "  return modes;",
     "\x7d"]

/-- the standard deviation of the numbers in a list -/
def deviation : Helper where
  key := "math_standard_deviation"
  before := "function "
  after := "(myList) \x7b"
  body :=
    ["  var numbers = myList.filter(function (x) \x7breturn typeof x == 'number';\x7d);",
     "  var n = numbers.length;",
     "  if (!n) return null;",
     "  var mean = numbers.reduce(function(x, y) \x7breturn x + y;\x7d) / n;",
     "  var variance = 0;",
     "  for (var j = 0; j < n; j++) \x7b",
     "    variance += Math.pow(numbers[j] - mean, 2);",
     "  \x7d",
     "  variance = variance / n;",
     "  return Math.sqrt(variance);",
     "\x7d"]

/-- an item of a list chosen at random -/
def randomItem : Helper where
  key := "math_random_item"
  before := "function "
  after := "(list) \x7b"
  body :=
    ["  var x = Math.floor(Math.random() * list.length);",
     "  return list[x];",
     "\x7d"]

def titleCase : Helper where
  key := "text_toTitleCase"
  before := "function "
  after := "(str) \x7b"
  body :=
    ["  return str.replace(/\\S+/g,",
     "      function(txt) \x7breturn txt[0].toUpperCase() + txt.substring(1).toLowerCase();\x7d);",
     "\x7d"]

/-! ## Templates -/

/-- an operator between two numbers; power is a call -/
def arithmetic (op : Arithmetic) : Template :=
  match op.symbol? with
  | some symbol => loose [number 0 false, number 1 false] [0, " ", symbol, " ", 1]
  | none => tight [number 0 true, number 1 true] ["Math.pow(", 0, ", ", 1, ")"]

/-- whether the operand of a function stands beside an operator -/
def besideOperator : Single → Bool
  | .sin => true
  | .cos => true
  | .tan => true
  | .neg => true
  | _ => false

/-- a function of one number; two minus signs in a row would be a decrement -/
def singleLayout : Single → Layout
  | .abs => .tight ["Math.abs(", 0, ")"]
  | .root => .tight ["Math.sqrt(", 0, ")"]
  | .ln => .tight ["Math.log(", 0, ")"]
  | .log10 => .loose ["Math.log(", 0, ") / Math.log(10)"]
  | .exp => .tight ["Math.exp(", 0, ")"]
  | .pow10 => .tight ["Math.pow(10, ", 0, ")"]
  | .round => .tight ["Math.round(", 0, ")"]
  | .roundUp => .tight ["Math.ceil(", 0, ")"]
  | .roundDown => .tight ["Math.floor(", 0, ")"]
  | .sin => .tight ["Math.sin(", 0, " / 180 * Math.PI)"]
  | .cos => .tight ["Math.cos(", 0, " / 180 * Math.PI)"]
  | .tan => .tight ["Math.tan(", 0, " / 180 * Math.PI)"]
  | .neg => .loose ["-", .guardMinus 0]
  | .asin => .loose ["Math.asin(", 0, ") / Math.PI * 180"]
  | .acos => .loose ["Math.acos(", 0, ") / Math.PI * 180"]
  | .atan => .loose ["Math.atan(", 0, ") / Math.PI * 180"]

/-- a function of one number; the operand is bare where a call encloses it -/
def single (op : Single) : Template :=
  ⟨[number 0 (!besideOperator op)], .always (singleLayout op)⟩

/-- a helper called on a list -/
def onListBy (helper : Helper) : Template :=
  tight [list 0 true, .helper helper] [1, "(", 0, ")"]

/-- a summary of a list: a method of the list, a library function, or a helper called on it -/
def onList : Aggregate → Template
  | .sum => tight [list 0 false] [0, ".reduce(function(x, y) \x7breturn x + y;\x7d, 0)"]
  | .min => tight [list 0 true] ["Math.min.apply(null, ", 0, ")"]
  | .max => tight [list 0 true] ["Math.max.apply(null, ", 0, ")"]
  | .average => onListBy mean
  | .median => onListBy median
  | .mode => onListBy modes
  | .deviation => onListBy deviation
  | .random => onListBy randomItem

/-- a random whole number between two bounds, given the lower one first -/
def between (low high : Piece) : List Piece :=
  ["Math.floor(Math.random() * (", high, " - ", low, " + 1) + ", low, ")"]

/-- bounds that are plain numerals are put in order here, others when the program runs -/
def randomInteger : Template :=
  ⟨[number 0 false, number 1 false],
    .ordered 0 1 (.tight (between 0 1)) (.tight (between 1 0))
      (.loose (.flatten [[0, " < ", 1, " ? "], between 0 1, [" : "], between 1 0]))⟩

/-- texts joined into one; two are added, more are listed -/
def join : Nat → Template
  | 0 => tight [] ["''"]
  | 1 => tight [string 0 true] ["String(", 0, ")"]
  | 2 => loose [string 0 true, string 1 true] ["String(", 0, ") + String(", 1, ")"]
  | items =>
    tight ((List.range items).map fun slot => string slot true)
      (.flatten [["["], separated [", "] ((List.range items).map fun i => [.hole i]), ["].join('')"]])

/-- characters from one end of a text; the last ones need the text twice, so it is kept in a temporary -/
def endString : End → Template
  | .first => tight [number 0 true, string 1 false] [1, ".substring(0, ", 0, ")"]
  | .last =>
    tight [number 0 false, string 1 true, .temporary "temp_text"]
      ["[", 2, " = ", 1, ", ", 2, ".substring(", 2, ".length - ", 0, ")][1]"]

/-- the place of a text in another, counted from one; zero when it is not there -/
def indexOf (part : End) : Template :=
  let method := match part with
    | .first => "indexOf"
    | .last => "lastIndexOf"
  loose [string 0 true, string 1 false] [1, ".", method, "(", 0, ") + 1"]

def changeCase : LetterCase → Template
  | .upper => tight [string 0 false] [0, ".toUpperCase()"]
  | .lower => tight [string 0 false] [0, ".toLowerCase()"]
  | .title => tight [.helper titleCase, string 0 true] [0, "(", 1, ")"]

def trim : Side → Template
  | .left => tight [string 0 false] [0, ".replace(/^[\\s\\xa0]+/, '')"]
  | .right => tight [string 0 false] [0, ".replace(/[\\s\\xa0]+$/, '')"]
  | .both => tight [string 0 false] [0, ".trim()"]

/-- the template of every construct -/
def template : Form → Template
  | .number literal => tight [] [Language.javascript.numberLiteral (Binary64.parsePrefix literal)]
  | .arithmetic op => arithmetic op
  | .change name =>
    tight [number 0 false, .userVariable name]
      [1, " = (typeof ", 1, " == 'number' ? ", 1, " : 0) + ", 0, ";\n"]
  | .single op => single op
  | .onList op => onList op
  | .modulo => loose [number 0 false, number 1 false] [0, " % ", 1]
  | .randomFraction => tight [] ["Math.random()"]
  | .randomInteger => randomInteger
  | .text content => tight [] [Language.javascript.quote content]
  | .join items => join items
  | .length => tight [string 0 false] [0, ".length"]
  | .isEmpty => loose [string 0 false] ["!", 0, ".length"]
  | .endString part => endString part
  | .indexOf part => indexOf part
  | .charAt => tight [.value 0 false "1", list 1 false] [1, "[", .indexBefore 0, "]"]
  | .changeCase style => changeCase style
  | .trim side => trim side
  | .print => tight [string 0 true] ["console.log(", 0, ");\n"]
  | .choice elseifs otherwise => Brace.choice .javascript elseifs otherwise
  | .loop mode => Brace.loop .javascript mode
  | .count name => Brace.count name
  | .forEach name => Brace.forEach "of" name
  | .jump way => Brace.jump way
  | .procedure name =>
    tight (Brace.procedureSteps name) ["function ", 0, "() \x7b\n", Brace.procedureBody .javascript, "\x7d\n"]
  | .get name => Brace.get name
  | .set name => Brace.set name

end Blockwork.Target.JavaScript
