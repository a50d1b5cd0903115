/-
A document as a tree of elements. Building keeps a stack of open elements, and refuses end tags that do not
match, prefixes that are not declared, and attributes given twice.
-/
import Blockwork.Markup.Tag

namespace Blockwork.Markup

/-- a node of the tree; names are without prefixes, and of attributes with one name the last stands -/
inductive Node
  | element (name : String) (attributes : List (String × String)) (children : List Node)
  /-- a piece of text, verbatim or not -/
  | text (content : String)
  /-- a comment or a processing instruction -/
  | aside

/-- an open element: its name and attributes, the prefixes known inside it, and its children so far,
last first -/
structure Frame where
  name : QName
  attributes : List (String × String)
  spaces : List String
  children : List Node

/-- the state of building: open elements, innermost first, and the root once it is complete. Of several
outermost elements the first is the root. -/
structure Builder where
  frames : List Frame
  root : Option Node

/-- the name of a reserved namespace, given by what stands behind the part that both of them share -/
def reservedSpace (path : List String) : String :=
  "/".intercalate (["http:", "", "www.w3.org"] ++ path)

/-- the namespace that the prefix `xml` stands for -/
def xmlSpace : String := reservedSpace ["XML", "1998", "namespace"]

/-- the namespace that the prefix `xmlns` stands for -/
def xmlnsSpace : String := reservedSpace ["2000", "xmlns", ""]

namespace Builder

def start : Builder := ⟨[], none⟩

def isOutside (b : Builder) : Bool := b.frames.isEmpty

/-- the prefixes known where the next tag stands -/
def spaces (b : Builder) : List String :=
  match b.frames with
  | [] => ["", "xml", "xmlns"]
  | frame :: _ => frame.spaces

/-- put a node below the innermost open element; outside the elements only the first one is kept -/
def add (b : Builder) (node : Node) : Builder :=
  match b.frames with
  | [] =>
    match node with
    | .element _ _ _ => { b with root := b.root.or (some node) }
    | .text _ => b
    | .aside => b
  | frame :: rest => { b with frames := { frame with children := node :: frame.children } :: rest }

/-- whether an attribute declares a prefix or the default namespace -/
def declares (attr : QName × String) : Bool :=
  attr.1.space == "xmlns" || attr.1 == ⟨"", "xmlns"⟩

/-- whether a declaration is allowed: a prefix is bound to something, the two reserved prefixes are not
bound to something else, and their namespaces are not the default -/
def declarationAllowed (attr : QName × String) : Bool :=
  if attr.1.space == "xmlns" then
    attr.1.name != "xmlns" && (attr.1.name != "xml" || attr.2 == xmlSpace) && !attr.2.isEmpty
  else ["xmlns", "xml", xmlSpace, xmlnsSpace].all (· != attr.2)

/-- the attributes by their names without prefix, the later of two with one name in its place -/
def byName (attributes : List (QName × String)) : List (String × String) :=
  attributes.foldl (fun acc (q, value) => acc.filter (·.1 != q.name) ++ [(q.name, value)]) []

def push? (b : Builder) (tag : Tag) : Option Builder :=
  let declarations := tag.attributes.filter declares
  let plain := tag.attributes.filter fun attr => !declares attr
  let declared := (declarations.filter fun d => d.1.space == "xmlns").map fun d => d.1.name
  let spaces := declared ++ b.spaces
  if declarations.all declarationAllowed && spaces.contains tag.name.space &&
      plain.all (fun attr => spaces.contains attr.1.space) && (plain.map Prod.fst).Nodup then
    some { b with frames := ⟨tag.name, byName plain, spaces, []⟩ :: b.frames }
  else none

def pop? (b : Builder) (name : QName) : Option Builder :=
  match b.frames with
  | [] => none
  | frame :: rest =>
    if frame.name = name then
      some ({ b with frames := rest }.add (.element name.name frame.attributes frame.children.reverse))
    else none

/-- the root of a finished tree: all elements are closed, and there is one at least -/
def finish? (b : Builder) : Option Node :=
  if b.isOutside then b.root else none

end Builder

end Blockwork.Markup
