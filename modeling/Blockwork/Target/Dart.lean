/-
Dart templates. The mathematics library is imported under the name `Math`. A method call binds tighter
than a minus sign, so a receiver that is not a name, a number or a literal is put into brackets. There
are no statements outside functions: procedures become functions beside the helpers.
-/
import Blockwork.Number.Literal
import Blockwork.Target.Brace

namespace Blockwork.Target.Dart

open Template

/-! ## Libraries and helpers -/

def math : Library where
  key := "import_dart_math"
  source := "import 'dart:math' as Math;"

def mean : Helper where
  key := "math_mean"
  before := "num "
  after := "(List myList) \x7b"
  body :=
    ["  if (myList.isEmpty) return 0;",
     "  return myList.fold<num>(0, (x, y) => x + y) / myList.length;",
     "\x7d"]

def median : Helper where
  key := "math_median"
  before := "num "
  after := "(List myList) \x7b"
  body :=
    ["  List localList = List.from(myList)..removeWhere((a) => a is! num);",
     "  if (localList.isEmpty) return 0;",
     "  localList.sort((a, b) => a.compareTo(b));",
     "  int index = localList.length ~/ 2;",
     "  if (localList.length % 2 == 1) \x7b",
     "    return localList[index];",
     "  \x7d else \x7b",
     "    return (localList[index - 1] + localList[index]) / 2;",
     "  \x7d",
     "\x7d"]

def modes : Helper where
  key := "math_modes"
  before := "List "
  after := "(List values) \x7b"
  body :=
    ["  List modes = [];",
     "  List counts = [];",
     "  int maxCount = 0;",
     "  for (int i = 0; i < values.length; i++) \x7b",
     "    var value = values[i];",
     "    bool found = false;",
     "    int thisCount = 0;",
     "    for (int j = 0; j < counts.length; j++) \x7b",
     "      if (counts[j][0] == value) \x7b",
     "        thisCount = ++counts[j][1];",
     "        found = true;",
     "        break;",
     "      \x7d",
     "    \x7d",
     "    if (!found) \x7b",
     "      counts.add([value, 1]);",
     "      thisCount = 1;",
     "    \x7d",
     "    maxCount = Math.max(thisCount, maxCount);",
     "  \x7d",
     "  for (int j = 0; j < counts.length; j++) \x7b",
     "    if (counts[j][1] == maxCount) \x7b",
     "      modes.add(counts[j][0]);",
     "    \x7d",
     "  \x7d",
     "  return modes;",
     "\x7d"]

def deviation : Helper where
  key := "math_standard_deviation"
  before := "num? "
  after := "(List myList) \x7b"
  body :=
    ["  List numbers = List.from(myList)..removeWhere((a) => a is! num);",
     "  if (numbers.isEmpty) return null;",
     "  num n = numbers.length;",
     "  num mean = numbers.fold<num>(0, (x, y) => x + y) / n;",
     "  num variance = 0;",
     "  for (int j = 0; j < n; j++) \x7b",
     "    variance += Math.pow(numbers[j] - mean, 2);",
     "  \x7d",
     "  variance = variance / n;",
     "  return Math.sqrt(variance);",
     "\x7d"]

def randomItem : Helper where
  key := "math_random_item"
  before := "dynamic "
  after := "(List myList) \x7b"
  body :=
    ["  int x = Math.Random().nextInt(myList.length);",
     "  return myList[x];",
     "\x7d"]

def titleCase : Helper where
  key := "text_toTitleCase"
  before := "String "
  after := "(String str) \x7b"
  body :=
    ["  RegExp exp = RegExp(r'\\S+');",
     "  return str.replaceAllMapped(exp, (Match m) \x7b",
     "    String word = m.group(0)!;",
     "    return word.substring(0, 1).toUpperCase() + word.substring(1).toLowerCase();",
     "  \x7d);",
     "\x7d"]

/-! ## Templates -/

/-- an operator between two numbers; power is a call -/
def arithmetic (op : Arithmetic) : Template :=
  match op.symbol? with
  | some symbol => loose [number 0 false, number 1 false] [0, " ", symbol, " ", 1]
  | none => tight [.require math, number 0 true, number 1 true] ["Math.pow(", 0, ", ", 1, ")"]

/-- a function of one number: a method of the number, or a function of the library -/
def single : Single → Template
  | .abs => tight [number 0 true] [.receiver 0, ".abs()"]
  | .round => tight [number 0 true] [.receiver 0, ".round()"]
  | .roundUp => tight [number 0 true] [.receiver 0, ".ceil()"]
  | .roundDown => tight [number 0 true] [.receiver 0, ".floor()"]
  | .neg => loose [number 0 false] ["-", .guardMinus 0]
  | .root => tight [number 0 true, .require math] ["Math.sqrt(", 0, ")"]
  | .ln => tight [number 0 true, .require math] ["Math.log(", 0, ")"]
  | .log10 => loose [number 0 true, .require math] ["Math.log(", 0, ") / Math.ln10"]
  | .exp => tight [number 0 true, .require math] ["Math.exp(", 0, ")"]
  | .pow10 => tight [number 0 true, .require math] ["Math.pow(10, ", 0, ")"]
  | .sin => tight [number 0 false, .require math] ["Math.sin(", 0, " / 180 * Math.pi)"]
  | .cos => tight [number 0 false, .require math] ["Math.cos(", 0, " / 180 * Math.pi)"]
  | .tan => tight [number 0 false, .require math] ["Math.tan(", 0, " / 180 * Math.pi)"]
  | .asin => loose [number 0 true, .require math] ["Math.asin(", 0, ") / Math.pi * 180"]
  | .acos => loose [number 0 true, .require math] ["Math.acos(", 0, ") / Math.pi * 180"]
  | .atan => loose [number 0 true, .require math] ["Math.atan(", 0, ") / Math.pi * 180"]

/-- a summary of a list: a method of the list, or a helper called on it -/
def onList : Aggregate → Template
  | .sum => tight [list 0 true] [.receiver 0, ".fold<num>(0, (x, y) => x + y)"]
  | .min => tight [list 0 true, .require math] [.receiver 0, ".reduce(Math.min)"]
  | .max => tight [list 0 true, .require math] [.receiver 0, ".reduce(Math.max)"]
  | .average => tight [list 0 true, .helper mean] [1, "(", 0, ")"]
  | .median => tight [list 0 true, .helper median] [1, "(", 0, ")"]
  | .mode => tight [list 0 true, .require math, .helper modes] [1, "(", 0, ")"]
  | .deviation => tight [list 0 true, .require math, .helper deviation] [1, "(", 0, ")"]
  | .random => tight [list 0 true, .require math, .helper randomItem] [1, "(", 0, ")"]

/-- a random whole number between two bounds, given the lower one first -/
def between (low high : Piece) : List Piece :=
  ["(Math.Random().nextDouble() * (", high, " - ", low, " + 1) + ", low, ").floor()"]

/-- bounds that are plain numerals are put in order here, others when the program runs -/
def randomInteger : Template :=
  ⟨[.require math, number 0 false, number 1 false],
    .ordered 0 1 (.tight (between 0 1)) (.tight (between 1 0))
      (.loose (.flatten [[0, " < ", 1, " ? "], between 0 1, [" : "], between 1 0]))⟩

/-- texts joined into one; two are added, more are listed -/
def join : Nat → Template
  | 0 => tight [] ["''"]
  | 1 => tight [string 0 true] [.receiver 0, ".toString()"]
  | 2 => loose [string 0 true, string 1 true] [.receiver 0, ".toString() + ", .receiver 1, ".toString()"]
  | items =>
    tight ((List.range items).map fun slot => string slot true)
      (.flatten [["["], separated [", "] ((List.range items).map fun i => [.hole i]), ["].join('')"]])

/-- characters from one end of a text; the last ones need the text twice, so it is kept in a temporary -/
def endString : End → Template
  | .first => tight [number 0 true, string 1 true] [.receiver 1, ".substring(0, ", 0, ")"]
  | .last =>
    tight [number 0 false, string 1 true, .temporary "temp_text"]
      ["[", 2, " = ", 1, ", ", 2, ".substring(", 2, ".length - ", 0, ")][1]"]

def indexOf (part : End) : Template :=
  let method := match part with
    | .first => "indexOf"
    | .last => "lastIndexOf"
  loose [string 0 true, string 1 true] [.receiver 1, ".", method, "(", 0, ") + 1"]

def changeCase : LetterCase → Template
  | .upper => tight [string 0 true] [.receiver 0, ".toUpperCase()"]
  | .lower => tight [string 0 true] [.receiver 0, ".toLowerCase()"]
  | .title => tight [string 0 true, .helper titleCase] [1, "(", 0, ")"]

def trim : Side → Template
  | .left => tight [string 0 true] [.receiver 0, ".trimLeft()"]
  | .right => tight [string 0 true] [.receiver 0, ".trimRight()"]
  | .both => tight [string 0 true] [.receiver 0, ".trim()"]

/-- a procedure leaves no code where it stands: it is hoisted as a function -/
def procedure (name : String) : Template :=
  tight (Brace.procedureSteps name ++
    [.hoist "procedure_" 0 ["dynamic ", 0, "() \x7b\n", Brace.procedureBody .dart, "\x7d"]]) []

/-- the template of every construct -/
def template : Form → Template
  | .number literal => tight [] [Language.dart.numberLiteral (Binary64.parsePrefix literal)]
  | .arithmetic op => arithmetic op
  | .change name =>
    tight [number 0 false, .userVariable name] [1, " = (", 1, " is num ? ", 1, " : 0) + ", 0, ";\n"]
  | .single op => single op
  | .onList op => onList op
  | .modulo => loose [number 0 false, number 1 false] [0, " % ", 1]
  | .randomFraction => tight [.require math] ["Math.Random().nextDouble()"]
  | .randomInteger => randomInteger
  | .text content => tight [] [Language.dart.quote content]
  | .join items => join items
  | .length => tight [string 0 true] [.receiver 0, ".length"]
  | .isEmpty => tight [string 0 true] [.receiver 0, ".isEmpty"]
  | .endString part => endString part
  | .indexOf part => indexOf part
  | .charAt => tight [.value 0 false "1", list 1 true] [.receiver 1, "[", .indexBefore 0, "]"]
  | .changeCase style => changeCase style
  | .trim side => trim side
  | .print => tight [string 0 true] ["print(", 0, ");\n"]
  | .choice elseifs otherwise => Brace.choice .dart elseifs otherwise
  | .loop mode => Brace.loop .dart mode
  | .count name => Brace.count name
  | .forEach name => Brace.forEach "in" name
  | .jump way => Brace.jump way
  | .procedure name => procedure name
  | .get name => Brace.get name
  | .set name => Brace.set name

end Blockwork.Target.Dart
