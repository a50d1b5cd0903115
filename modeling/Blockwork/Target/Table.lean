/-
Template tables: what a target writes for each kind of block. A table is built only when every kind has
an entry, and says which kind is the first to lack one otherwise; so looking up a kind cannot fail.
-/
import Blockwork.Target.Dart
import Blockwork.Target.JavaScript
import Blockwork.Target.Python

namespace Blockwork

/-- how blocks of one kind are written: the template for a block's own data -/
abbrev Writer := Head → Except (Stop GenError) Template

namespace Language

def template : Language → Form → Template
  | javascript => Target.JavaScript.template
  | dart => Target.Dart.template
  | python => Target.Python.template

/-- how a target writes the blocks of a kind -/
def writer (language : Language) (kind : Kind) : Writer :=
  fun head => language.template <$> Form.readWithin kind head

/-- the entries of a target, one for every kind -/
def entries (language : Language) : List (Kind × Writer) :=
  Kind.all.map fun kind => (kind, language.writer kind)

end Language

/-- the first kind without an entry -/
def firstMissing? (entries : List (Kind × Writer)) : Option Kind :=
  Kind.all.find? fun kind => (entries.lookup kind).isNone

/-- a target's writers, one for every kind -/
structure Table where
  language : Language
  entries : List (Kind × Writer)
  complete : firstMissing? entries = none

namespace Table

/-- a table of the given entries, if they cover every kind -/
def ofEntries (language : Language) (entries : List (Kind × Writer)) : Except GenError Table :=
  match h : firstMissing? entries with
  | none => .ok ⟨language, entries, h⟩
  | some kind => .error (.missingTemplate language kind)

def get? (table : Table) (kind : Kind) : Option Writer :=
  table.entries.lookup kind

/-- every kind has a writer -/
theorem get?_isSome (table : Table) (kind : Kind) : (table.get? kind).isSome := by
  have h := List.find?_eq_none.1 table.complete kind (by cases kind <;> decide)
  simpa [get?, Option.isSome_iff_ne_none] using h

/-- the writer of a kind; there always is one -/
def get (table : Table) (kind : Kind) : Writer :=
  (table.get? kind).get (table.get?_isSome kind)

/-- the table of a target -/
def standard (language : Language) : Table :=
  ⟨language, language.entries, by cases language <;> rfl⟩

end Table

end Blockwork
