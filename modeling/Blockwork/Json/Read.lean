/-
Reading JSON: a machine that takes one token after the other and keeps the containers that are still
open. What may come next is part of its state, so that every token either moves it on or is refused.
-/
import Blockwork.Json.Token

namespace Blockwork.Json

/-- a container with a value in it being read: what is in it already, last one first, and the name of the
member that the value is for -/
inductive Frame
  | array (items : List Value)
  | object (members : List (String × Value)) (name : String)

/-- what may come next -/
inductive Awaiting
  /-- a value -/
  | value
  /-- the first item of an array, or its end -/
  | firstItem
  /-- the first member of an object, or its end -/
  | firstMember
  /-- the name of a member -/
  | name (members : List (String × Value))
  /-- the colon behind the name of a member -/
  | colon (members : List (String × Value)) (name : String)
  /-- a comma or the end of the innermost container, behind a value in it; nothing more when no
  container is open -/
  | more (value : Value)

/-- the machine: the containers around the value to come, innermost first, and what may come next -/
structure Machine where
  frames : List Frame
  awaiting : Awaiting

/-- how many containers may be open at a time, the next one included -/
def depthLimit : Nat := 128

namespace Machine

def start : Machine := ⟨[], .value⟩

def enter (m : Machine) (awaiting : Awaiting) : Option Machine :=
  if m.frames.length + 1 < depthLimit then some ⟨m.frames, awaiting⟩ else none

def takeValue (m : Machine) : Token → Option Machine
  | .null => some ⟨m.frames, .more .null⟩
  | .bool b => some ⟨m.frames, .more (.bool b)⟩
  | .number n => some ⟨m.frames, .more (.number n)⟩
  | .string s => some ⟨m.frames, .more (.string s)⟩
  | .openArray => m.enter .firstItem
  | .openObject => m.enter .firstMember
  | .closeArray => none
  | .closeObject => none
  | .comma => none
  | .colon => none

/-- a token taken behind a value, in the innermost container -/
def takeMore (value : Value) : List Frame → Token → Option Machine
  | .array items :: frames, .comma => some ⟨.array (value :: items) :: frames, .value⟩
  | .array items :: frames, .closeArray => some ⟨frames, .more (.array (value :: items).reverse)⟩
  | .object members name :: frames, .comma => some ⟨frames, .name ((name, value) :: members)⟩
  | .object members name :: frames, .closeObject =>
    some ⟨frames, .more (.object ((name, value) :: members).reverse)⟩
  | _, _ => none

def take (m : Machine) (token : Token) : Option Machine :=
  match m.awaiting, token with
  | .value, token => m.takeValue token
  | .firstItem, .closeArray => some ⟨m.frames, .more (.array [])⟩
  | .firstItem, token => takeValue ⟨.array [] :: m.frames, .value⟩ token
  | .firstMember, .closeObject => some ⟨m.frames, .more (.object [])⟩
  | .firstMember, .string name => some ⟨m.frames, .colon [] name⟩
  | .name members, .string name => some ⟨m.frames, .colon members name⟩
  | .colon members name, .colon => some ⟨.object members name :: m.frames, .value⟩
  | .more value, token => takeMore value m.frames token
  | _, _ => none

def takeAll : Machine → List Token → Option Machine
  | m, [] => some m
  | m, token :: rest => (m.take token).bind fun m => m.takeAll rest

/-- the value read, when no container is open -/
def result? (m : Machine) : Option Value :=
  match m.frames, m.awaiting with
  | [], .more value => some value
  | _, _ => none

end Machine

/-- the value a text is the notation of -/
def read? (text : String) : Option Value := do
  let tokens ← tokens? text.toList
  let machine ← Machine.start.takeAll tokens
  machine.result?

end Blockwork.Json
