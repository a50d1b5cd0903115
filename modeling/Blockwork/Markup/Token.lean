/-
A document cut into tokens, one character at a time. A token is a mark (`<`, `-->`, a quote, …) or a
single character of anything else. What a mark is depends on what is open around it: inside a comment only
its end is one, and inside a document type declaration the marks of tags are plain characters. The scanner
knows no more of a document's structure than that.
-/
import Blockwork.Markup.Char

namespace Blockwork.Markup

/-- what a document is cut into -/
inductive Token
  | char (c : Char)
  | tagStart
  | endTagStart
  | tagEnd
  | emptyTagEnd
  | commentStart
  | commentEnd
  | verbatimStart
  | verbatimEnd
  | instructionStart
  | instructionEnd
  | doctypeStart
  /-- the start of a declaration inside a document type declaration -/
  | declarationStart
  | equals
  | doubleQuote
  | singleQuote
  | ampersand
  | semicolon
  deriving DecidableEq

def Token.spelling : Token → List Char
  | char c => [c]
  | tagStart => ['<']
  | endTagStart => ['<', '/']
  | tagEnd => ['>']
  | emptyTagEnd => ['/', '>']
  | commentStart => ['<', '!', '-', '-']
  | commentEnd => ['-', '-', '>']
  | verbatimStart => "<![CDATA[".toList
  | verbatimEnd => [']', ']', '>']
  | instructionStart => ['<', '?']
  | instructionEnd => ['?', '>']
  | doctypeStart => "<!DOCTYPE".toList
  | declarationStart => ['<', '!']
  | equals => ['=']
  | doubleQuote => ['"']
  | singleQuote => ['\'']
  | ampersand => ['&']
  | semicolon => [';']

/-- what the scanner is in when no mark is open: text and tags, or a document type declaration -/
inductive Ground
  | text
  | doctype
  deriving DecidableEq

/-- the mark or the section that the scanner stands in -/
inductive Mode
  | ground
  /-- behind `/` -/
  | slash
  /-- behind `]` and `]]` -/
  | bracket
  | brackets
  /-- behind `<`, `<!` and `<!-` -/
  | less
  | bang
  | hyphen
  /-- inside the word that starts a verbatim section or a document type declaration; `rest` is to come -/
  | verbatimWord (rest : List Char)
  | doctypeWord (rest : List Char)
  /-- inside a comment, and behind `-` and `--` there -/
  | comment
  | commentHyphen
  | commentHyphens
  /-- inside a verbatim section, and behind `]` and `]]` there -/
  | verbatim
  | verbatimBracket
  | verbatimBrackets
  /-- inside a processing instruction, and behind `?` there -/
  | instruction
  | instructionMark
  /-- inside a declaration, and inside a quoted text there -/
  | declaration
  | quoted (quote : Char)
  deriving DecidableEq

structure Scanner where
  ground : Ground
  mode : Mode
  deriving DecidableEq

namespace Scanner

def start : Scanner := ⟨.text, .ground⟩

/-- a character where no mark is open -/
def plain (g : Ground) (c : Char) : Scanner × List Token :=
  match g with
  | .text =>
    match c with
    | '<' => (⟨.text, .less⟩, [])
    | '/' => (⟨.text, .slash⟩, [])
    | ']' => (⟨.text, .bracket⟩, [])
    | '>' => (⟨.text, .ground⟩, [.tagEnd])
    | '=' => (⟨.text, .ground⟩, [.equals])
    | '"' => (⟨.text, .ground⟩, [.doubleQuote])
    | '\'' => (⟨.text, .ground⟩, [.singleQuote])
    | '&' => (⟨.text, .ground⟩, [.ampersand])
    | ';' => (⟨.text, .ground⟩, [.semicolon])
    | c => (⟨.text, .ground⟩, [.char c])
  | .doctype =>
    match c with
    | '<' => (⟨.doctype, .less⟩, [])
    | '>' => (⟨.text, .ground⟩, [.tagEnd])
    | '"' => (⟨.doctype, .ground⟩, [.doubleQuote])
    | '\'' => (⟨.doctype, .ground⟩, [.singleQuote])
    | '&' => (⟨.doctype, .ground⟩, [.ampersand])
    | ';' => (⟨.doctype, .ground⟩, [.semicolon])
    | c => (⟨.doctype, .ground⟩, [.char c])

/-- a character where no mark is open, with tokens that stand before it -/
def plainBehind (tokens : List Token) (g : Ground) (c : Char) : Scanner × List Token :=
  let (s, more) := plain g c
  (s, tokens ++ more)

/-- a character inside a declaration of a document type; another mark cannot start there -/
def inDeclaration? (g : Ground) (c : Char) : Option (Scanner × List Token) :=
  match c with
  | '<' => none
  | '>' => some (⟨.doctype, .ground⟩, [.tagEnd])
  | '"' => some (⟨g, .quoted '"'⟩, [.doubleQuote])
  | '\'' => some (⟨g, .quoted '\''⟩, [.singleQuote])
  | '&' => some (⟨g, .declaration⟩, [.ampersand])
  | ';' => some (⟨g, .declaration⟩, [.semicolon])
  | c => some (⟨g, .declaration⟩, [.char c])

/-- a character inside a processing instruction -/
def inInstruction (g : Ground) (c : Char) : Scanner × List Token :=
  match c with
  | '?' => (⟨g, .instructionMark⟩, [])
  | '<' => (⟨g, .instruction⟩, [.tagStart])
  | '>' => (⟨g, .instruction⟩, [.tagEnd])
  | '=' => (⟨g, .instruction⟩, [.equals])
  | '"' => (⟨g, .instruction⟩, [.doubleQuote])
  | '\'' => (⟨g, .instruction⟩, [.singleQuote])
  | '&' => (⟨g, .instruction⟩, [.ampersand])
  | ';' => (⟨g, .instruction⟩, [.semicolon])
  | c => (⟨g, .instruction⟩, [.char c])

/-- a character behind `<` -/
def behindLess? (g : Ground) (c : Char) : Option (Scanner × List Token) :=
  if c = '?' then some (⟨g, .instruction⟩, [.instructionStart])
  else if c = '/' then some (⟨g, .ground⟩, [.endTagStart])
  else if c = '!' then some (⟨g, .bang⟩, [])
  else if isSpace c || isNameChar c then some (plainBehind [.tagStart] g c)
  else none

/-- a character behind `<!`; a declaration can only stand in a document type declaration -/
def behindBang? (g : Ground) (c : Char) : Option (Scanner × List Token) :=
  match c with
  | '-' => some (⟨g, .hyphen⟩, [])
  | '[' => some (⟨g, .verbatimWord "CDATA[".toList⟩, [])
  | 'D' => some (⟨g, .doctypeWord "OCTYPE".toList⟩, [])
  | c =>
    if g = .doctype && (c = 'E' || c = 'A' || c = 'N') then
      some (⟨g, .declaration⟩, [.declarationStart, .char c])
    else none

/-- a character inside a comment; two hyphens only stand at its end -/
def inComment? (g : Ground) (mode : Mode) (c : Char) : Option (Scanner × List Token) :=
  match mode with
  | .commentHyphens => if c = '>' then some (⟨g, .ground⟩, [.commentEnd]) else none
  | .commentHyphen =>
    if c = '-' then some (⟨g, .commentHyphens⟩, []) else some (⟨g, .comment⟩, [.char '-', .char c])
  | _ => if c = '-' then some (⟨g, .commentHyphen⟩, []) else some (⟨g, .comment⟩, [.char c])

/-- a character inside a verbatim section -/
def inVerbatim (g : Ground) (mode : Mode) (c : Char) : Scanner × List Token :=
  match mode with
  | .verbatimBrackets =>
    if c = '>' then (⟨g, .ground⟩, [.verbatimEnd])
    else if c = ']' then (⟨g, .verbatimBrackets⟩, [.char ']'])
    else (⟨g, .verbatim⟩, [.char ']', .char ']', .char c])
  | .verbatimBracket =>
    if c = ']' then (⟨g, .verbatimBrackets⟩, []) else (⟨g, .verbatim⟩, [.char ']', .char c])
  | _ => if c = ']' then (⟨g, .verbatimBracket⟩, []) else (⟨g, .verbatim⟩, [.char c])

/-- take in one character and give the tokens it completes; `none` when no token starts so -/
def step? (s : Scanner) (c : Char) : Option (Scanner × List Token) :=
  match s.mode with
  | .ground => some (plain s.ground c)
  | .slash =>
    if c = '>' then some (⟨s.ground, .ground⟩, [.emptyTagEnd])
    else some (plainBehind [.char '/'] s.ground c)
  | .bracket =>
    if c = ']' then some (⟨s.ground, .brackets⟩, [])
    else some (plainBehind [.char ']'] s.ground c)
  | .brackets =>
    if c = '>' then some (⟨s.ground, .ground⟩, [.verbatimEnd])
    else if c = ']' then some (⟨s.ground, .brackets⟩, [.char ']'])
    else some (plainBehind [.char ']', .char ']'] s.ground c)
  | .less => behindLess? s.ground c
  | .bang => behindBang? s.ground c
  | .hyphen => if c = '-' then some (⟨s.ground, .comment⟩, [.commentStart]) else none
  | .verbatimWord rest =>
    match rest with
    | [] => none
    | [last] => if c = last then some (⟨s.ground, .verbatim⟩, [.verbatimStart]) else none
    | next :: rest => if c = next then some (⟨s.ground, .verbatimWord rest⟩, []) else none
  | .doctypeWord rest =>
    match rest with
    | [] => none
    | [last] => if c = last then some (⟨.doctype, .ground⟩, [.doctypeStart]) else none
    | next :: rest => if c = next then some (⟨s.ground, .doctypeWord rest⟩, []) else none
  | .comment => inComment? s.ground .comment c
  | .commentHyphen => inComment? s.ground .commentHyphen c
  | .commentHyphens => inComment? s.ground .commentHyphens c
  | .verbatim => some (inVerbatim s.ground .verbatim c)
  | .verbatimBracket => some (inVerbatim s.ground .verbatimBracket c)
  | .verbatimBrackets => some (inVerbatim s.ground .verbatimBrackets c)
  | .instruction => some (inInstruction s.ground c)
  | .instructionMark =>
    if c = '>' then some (⟨s.ground, .ground⟩, [.instructionEnd])
    else if c = '?' then some (⟨s.ground, .instructionMark⟩, [.char '?'])
    else
      let (s, tokens) := inInstruction s.ground c
      some (s, .char '?' :: tokens)
  | .declaration => inDeclaration? s.ground c
  | .quoted quote =>
    if c = quote then
      some (⟨s.ground, .declaration⟩, [if quote = '"' then .doubleQuote else .singleQuote])
    else some (⟨s.ground, .quoted quote⟩, [.char c])

/-- whether a document may end here: no mark is open -/
def isDone (s : Scanner) : Bool :=
  s = start

end Scanner

end Blockwork.Markup
