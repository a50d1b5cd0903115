/-
Lines of a text, their indentation, and joining with a separator. A line ends at a line feed; one
carriage return right before the line feed belongs to the line end. Indentation leaves blank lines
blank, so the text of a nested body can be indented again at every level.
-/
namespace Blockwork.Text

/-- the lines of a text, without their line ends; a last line that is not ended is kept if it is not empty -/
def lines : List Char → List (List Char)
  | [] => []
  | '\n' :: cs => [] :: lines cs
  | '\r' :: '\n' :: cs => [] :: lines cs
  | c :: cs =>
    match lines cs with
    | [] => [[c]]
    | l :: ls => (c :: l) :: ls

/-- one line with `lead` in front, ended by a line feed; an empty line gets no `lead` -/
def indentLine (lead line : List Char) : List Char :=
  if line.isEmpty then ['\n'] else lead ++ line ++ ['\n']

/-- every line of a text with `lead` in front -/
def indentChars (lead cs : List Char) : List Char :=
  (lines cs).flatMap (indentLine lead)

/-- every line of `code` with `lead` in front, each ended by a line feed -/
def prefixLines (code lead : String) : String :=
  String.ofList (indentChars lead.toList code.toList)

def indentation : String := "  "

/-- the texts one after the other, with `separator` between neighbours -/
def joinWith (separator : String) : List String → String
  | [] => ""
  | [text] => text
  | text :: rest => text ++ separator ++ joinWith separator rest

/-- a text without the line feeds at its end -/
def dropFinalNewlines (code : String) : String :=
  String.ofList (code.toList.reverse.dropWhile (· == '\n')).reverse

end Blockwork.Text
