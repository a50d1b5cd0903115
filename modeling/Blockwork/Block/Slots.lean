/-
Numbered slots: what a block holds is keyed by slot number and listed in ascending order of the
numbers, each number once. Filling a slot again replaces what was in it.
-/
import Blockwork.Number.Power

namespace Blockwork.Slots

/-- the numbers of slots stay below this -/
def limit : Nat := twoTo 64

/-- fill one slot, keeping the list in ascending order -/
def insert {α : Type} (slot : Nat) (a : α) : List (Nat × α) → List (Nat × α)
  | [] => [(slot, a)]
  | (s, b) :: rest =>
    if slot < s then (slot, a) :: (s, b) :: rest
    else if slot = s then (slot, a) :: rest
    else (s, b) :: insert slot a rest

def get? {α : Type} (slot : Nat) : List (Nat × α) → Option α
  | [] => none
  | (s, b) :: rest => if slot = s then some b else get? slot rest

/-- fill slots one after the other, so that the last of two entries for one slot stays -/
def ofList {α : Type} (entries : List (Nat × α)) : List (Nat × α) :=
  entries.foldl (fun slots (slot, a) => insert slot a slots) []

end Blockwork.Slots
