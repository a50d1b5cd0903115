/-
String literals: a text between single quotes, with the characters that would end the literal, end
its line or start an interpolation written as two-character escapes.
-/
namespace Blockwork.Text

/-- how one character is written inside a literal; `dollar` asks for an escaped `$` as well -/
def escapeChar (dollar : Bool) (c : Char) : List Char :=
  match c with
  | '\\' => ['\\', '\\']
  | '\'' => ['\\', '\'']
  | '\n' => ['\\', 'n']
  | '\r' => ['\\', 'r']
  | '\t' => ['\\', 't']
  | '$' => if dollar then ['\\', '$'] else ['$']
  | c => [c]

def quoteChars (dollar : Bool) (cs : List Char) : List Char :=
  '\'' :: (cs.flatMap (escapeChar dollar) ++ ['\''])

/-- what may follow the opening quote of a complete literal: plain characters and escapes, then the
closing quote as the very last character; an escape does not reach over a line end -/
def closesAtEnd : List Char → Bool
  | [] => false
  | ['\''] => true
  | '\'' :: _ => false
  | '\\' :: c :: cs => c != '\n' && closesAtEnd cs
  | '\\' :: [] => false
  | _ :: cs => closesAtEnd cs

/-- one complete literal and nothing else -/
def isLiteral : List Char → Bool
  | '\'' :: cs => closesAtEnd cs
  | _ => false

end Blockwork.Text
