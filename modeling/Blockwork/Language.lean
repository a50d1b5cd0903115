/-
Target languages: how each is named on the command line and in files, the words it keeps for itself,
and the few spellings that every template of the language shares.
-/
import Blockwork.Text.Quote

namespace Blockwork

inductive Language
  | javascript
  | dart
  | python
  deriving DecidableEq

namespace Language

/-- the languages in the order in which a bundle lists them -/
def all : List Language := [.javascript, .dart, .python]

def name : Language → String
  | javascript => "javascript"
  | dart => "dart"
  | python => "python"

/-- the file name extension, without the point -/
def extension : Language → String
  | javascript => "js"
  | dart => "dart"
  | python => "py"

def programFile (language : Language) : String :=
  "program." ++ language.extension

/-- the language asked for when none is named -/
def standard : Language := .javascript

/-- the language of a name already in lower case; two have a short form -/
def ofLowerName? : String → Option Language
  | "js" => some .javascript
  | "javascript" => some .javascript
  | "dart" => some .dart
  | "py" => some .python
  | "python" => some .python
  | _ => none

/-- a name with its ASCII capitals made small -/
def lowerName (name : String) : String :=
  String.ofList (name.toList.map Char.toLower)

def ofName? (name : String) : Option Language :=
  ofLowerName? (lowerName name)

/-- what is said of a name that belongs to no language -/
def unknownName (name : String) : String :=
  "Unknown language '" ++ lowerName name ++ "' (expected javascript, dart or python)."

def falseLiteral : Language → String
  | python => "False"
  | javascript => "false"
  | dart => "false"

/-- the statement that fills an empty body -/
def noop : Language → String
  | python => "pass"
  | javascript => ";"
  | dart => ";"

def expressionStatement (language : Language) (code : String) : String :=
  match language with
  | python => code ++ "\n"
  | javascript => code ++ ";\n"
  | dart => code ++ ";\n"

/-- whether the variables of a program are declared in one line at its top -/
def declaresVariables : Language → Bool
  | python => false
  | javascript => true
  | dart => true

/-- whether `$` inside a string literal starts an interpolation -/
def interpolates : Language → Bool
  | dart => true
  | javascript => false
  | python => false

def quote (language : Language) (text : String) : String :=
  String.ofList (Text.quoteChars language.interpolates text.toList)

/-- words that no generated name may be in JavaScript: keywords, and globals that the templates use -/
def javascriptWords : List String :=
  ["break", "case", "catch", "class", "const", "continue", "debugger", "default", "delete", "do", "else",
   "export", "extends", "finally", "for", "function", "if", "import", "in", "instanceof", "new", "return",
   "super", "switch", "this", "throw", "try", "typeof", "var", "void", "while", "with", "yield", "enum",
   "await", "implements", "interface", "let", "package", "private", "protected", "public", "static",
   "null", "true", "false", "undefined", "NaN", "Infinity", "arguments", "Array", "Math", "Number",
   "String", "Object", "console", "eval", "window"]

def dartWords : List String :=
  ["assert", "break", "case", "catch", "class", "const", "continue", "default", "do", "else", "enum",
   "extends", "false", "final", "finally", "for", "if", "in", "is", "new", "null", "rethrow", "return",
   "super", "switch", "this", "throw", "true", "try", "var", "void", "while", "with", "abstract", "as",
   "covariant", "deferred", "dynamic", "export", "external", "factory", "Function", "get", "implements",
   "import", "interface", "late", "library", "mixin", "operator", "part", "required", "set", "static",
   "typedef", "async", "await", "yield", "Math", "List", "String", "num", "int", "double", "bool", "print",
   "main"]

def pythonWords : List String :=
  ["and", "as", "assert", "async", "await", "break", "class", "continue", "def", "del", "elif", "else",
   "except", "False", "finally", "for", "from", "global", "if", "import", "in", "is", "lambda", "None",
   "nonlocal", "not", "or", "pass", "raise", "return", "True", "try", "while", "with", "yield", "abs",
   "float", "int", "len", "list", "map", "math", "max", "min", "print", "random", "range", "re", "round",
   "sorted", "str", "sum", "Number"]

/-- the words a language keeps for itself -/
def reservedWords : Language → List String
  | javascript => javascriptWords
  | dart => dartWords
  | python => pythonWords

end Language

end Blockwork
