/-
Character classes of XML: blanks, name characters, and the characters a document may hold.
-/
namespace Blockwork.Markup

/-- the blanks of XML; no other character is one -/
def isSpace (c : Char) : Bool :=
  c == ' ' || c == '\t' || c == '\r' || c == '\n'

def inRanges (ranges : List (Nat × Nat)) (c : Char) : Bool :=
  ranges.any fun (lo, hi) => lo ≤ c.toNat && c.toNat ≤ hi

def isNameStart (c : Char) : Bool :=
  c.isAlpha || c == '_' || c == ':' || inRanges
    [(0xC0, 0xD6), (0xD8, 0xF6), (0xF8, 0x2FF), (0x370, 0x37D), (0x37F, 0x1FFF), (0x200C, 0x200D),
     (0x2070, 0x218F), (0x2C00, 0x2FEF), (0x3001, 0xD7FF), (0xF900, 0xFDCF), (0xFDF0, 0xFFFD),
     (0x10000, 0xEFFFF)] c

def isNameChar (c : Char) : Bool :=
  isNameStart c || c.isDigit || c == '-' || c == '.' || inRanges
    [(0xB7, 0xB7), (0x300, 0x36F), (0x203F, 0x2040)] c

/-- the version of XML a document declares; 1.0 when it declares none -/
inductive Version
  | v10
  | v11
  deriving DecidableEq

namespace Version

/-- characters that a document of the version may refer to by number -/
def allowsReference (version : Version) (c : Char) : Bool :=
  match version with
  | v10 => c == '\t' || c == '\n' || c == '\r' || inRanges [(0x20, 0xD7FF), (0xE000, 0xFFFD), (0x10000, 0x10FFFF)] c
  | v11 => inRanges [(0x1, 0xD7FF), (0xE000, 0xFFFD), (0x10000, 0x10FFFF)] c

/-- characters that a document of the version may hold as they are -/
def allows (version : Version) (c : Char) : Bool :=
  version.allowsReference c &&
    match version with
    | v10 => true
    | v11 => !inRanges [(0x1, 0x8), (0xB, 0xC), (0xE, 0x1F), (0x7F, 0x84), (0x86, 0x9F)] c

end Version

end Blockwork.Markup
