/-
Hoisted definitions: imports, helper functions, declared temporaries and hoisted procedures, each under
a key. The first request for a key writes the definition; later requests get it back. Imports are the
definitions without a name, and are printed first. An index leads from a key to the place of its
definition, so that no request has to look through all of them.
-/
import Blockwork.Text.Lines

namespace Blockwork

/-- one top-level piece of source, with the identifier it introduces if it introduces one -/
structure Definition where
  key : String
  name : Option String
  source : String
  deriving DecidableEq

/-- the definitions of one run in the order of their first requests, and the place of each key among them -/
structure Registry where
  entries : List Definition
  index : List (String × Nat)
  /-- the index leads to the first definition under a key, and nowhere if there is none -/
  inStep : ∀ key, index.lookup key = entries.findIdx? fun definition => definition.key == key
  deriving DecidableEq

namespace Registry

def empty : Registry where
  entries := []
  index := []
  inStep _ := rfl

def find? (registry : Registry) (key : String) : Option Definition :=
  (registry.index.lookup key).bind fun place => registry.entries[place]?

def contains (registry : Registry) (key : String) : Bool :=
  (registry.index.lookup key).isSome

/-- the keys in order of first request -/
def keys (registry : Registry) : List String :=
  registry.entries.map Definition.key

/-- the index leads to what a search through all definitions finds -/
theorem find?_eq (registry : Registry) (key : String) :
    registry.find? key = registry.entries.find? fun definition => definition.key == key := by
  rw [find?, registry.inStep, List.find?_eq_bind_findIdx?_getElem?]

/-- **No place in the index is out of range**: a key that the index has leads to a definition. -/
theorem contains_eq (registry : Registry) (key : String) : registry.contains key = (registry.find? key).isSome := by
  rw [contains, registry.inStep, List.findIdx?_isSome, find?_eq]
  exact Bool.eq_iff_iff.2 (List.any_eq_true.trans List.find?_isSome.symm)

theorem mem_of_find? {registry : Registry} {key : String} {definition : Definition}
    (h : registry.find? key = some definition) : definition ∈ registry.entries :=
  List.mem_of_find?_eq_some (registry.find?_eq key ▸ h)

theorem key_of_find? {registry : Registry} {key : String} {definition : Definition}
    (h : registry.find? key = some definition) : definition.key = key :=
  beq_iff_eq.1 (List.find?_some (registry.find?_eq key ▸ h) :)

/-- write a definition behind the others, and its place into the index -/
def push (registry : Registry) (definition : Definition) : Registry where
  entries := registry.entries ++ [definition]
  index := registry.index ++ [(definition.key, registry.entries.length)]
  inStep key := by
    rw [List.lookup_append, registry.inStep, List.findIdx?_append, List.findIdx?_singleton, List.lookup_cons,
      Bool.beq_comm]
    cases definition.key == key <;> simp

/-- the definition under a key; when the key is new, it is what `build` makes, and only then is `build` carried out -/
def requestWith {m : Type → Type} [Monad m] (registry : Registry) (key : String)
    (build : m (Option String × String)) : m (Definition × Registry) :=
  match registry.find? key with
  | some definition => pure (definition, registry)
  | none => do
    let (name, source) ← build
    let definition : Definition := { key, name, source }
    pure (definition, registry.push definition)

/-- the definition under a key, written from `build` when the key is new -/
def request (registry : Registry) (key : String) (build : Unit → Option String × String) :
    Definition × Registry :=
  Id.run (registry.requestWith key (pure (build ())))

theorem request_of_some {registry : Registry} {key : String} {definition : Definition}
    (h : registry.find? key = some definition) (build : Unit → Option String × String) :
    registry.request key build = (definition, registry) := by
  rw [request, requestWith, h]
  rfl

theorem request_of_none {registry : Registry} {key : String} (h : registry.find? key = none)
    (build : Unit → Option String × String) :
    registry.request key build =
      (⟨key, (build ()).1, (build ()).2⟩, registry.push ⟨key, (build ()).1, (build ()).2⟩) := by
  rw [request, requestWith, h]
  rfl

def importBlock (registry : Registry) : String :=
  Text.joinWith "\n" ((registry.entries.filter (·.name.isNone)).map Definition.source)

/-- the sections of the definitions: the imports as one section unless they are empty, then each other
definition -/
def sections (registry : Registry) : List String :=
  let named := (registry.entries.filter (·.name.isSome)).map Definition.source
  if registry.importBlock.isEmpty then named else registry.importBlock :: named

/-- the definitions as text, with a blank line between sections -/
def render (registry : Registry) : String :=
  Text.joinWith "\n\n" registry.sections

end Registry

end Blockwork
