/-
Statement templates shared by the targets that delimit bodies with braces. Both declare every variable of
the user once at the top of the program, so assignments and loops never declare one.
-/
import Blockwork.Form
import Blockwork.Template.Basic

namespace Blockwork.Target.Brace

open Template

/-- one condition of a choice with its branch -/
def conditionPieces (n : Nat) : List Piece :=
  let condition : List Piece := ["if (", .hole (2 * n), ") \x7b\n", .hole (2 * n + 1), "\x7d"]
  if n = 0 then condition else " else " :: condition

/-- conditions tried in order, the first that holds decides -/
def choice (language : Language) (elseifs : Nat) (otherwise : Bool) : Template :=
  tight (choiceSteps language.falseLiteral elseifs otherwise)
    (.flatten [(List.range (elseifs + 1)).flatMap conditionPieces,
      if otherwise then [" else \x7b\n", .hole (2 * (elseifs + 1)), "\x7d"] else [], ["\n"]])

def loop (language : Language) (mode : LoopMode) : Template :=
  let steps := [.value 0 true language.falseLiteral, .branch 0]
  match mode with
  | .whileTrue => tight steps ["while (", 0, ") \x7b\n", 1, "\x7d\n"]
  | .untilTrue => tight steps ["while (!", .guardWord 0, ") \x7b\n", 1, "\x7d\n"]

/-- a counting loop; its test leaves the end out, so the end it includes moves up by one -/
def count (name : String) : Template :=
  tight [.userVariable name, number 0 true, number 1 false, .branch 0]
    ["for (", 0, " = ", 1, "; ", 0, " < ", .boundAbove 2, "; ", 0, "++) \x7b\n", 3, "\x7d\n"]

def forEach (keyword : String) (name : String) : Template :=
  tight [.userVariable name, list 0 true, .branch 0]
    ["for (", 0, " ", keyword, " ", 1, ") \x7b\n", 2, "\x7d\n"]

def jump (way : Jump) : Template :=
  tight [] [way.keyword, ";\n"]

/-- the steps of a procedure: its name, its statements and its result -/
def procedureSteps (name : String) : List Step :=
  [.userProcedure name, .body 0, .value 0 true ""]

def procedureBody (language : Language) : Piece :=
  .procedureBody 1 2 ";\n" language.noop

def get (name : String) : Template :=
  tight [.userVariable name] [0]

def set (name : String) : Template :=
  tight [number 0 true, .userVariable name] [1, " = ", 0, ";\n"]

end Blockwork.Target.Brace
