/-
Progress lines: the step that begins, how many there are, and a bar with a cell for each part of the work.
-/
import Blockwork.Bundle.Pack

namespace Blockwork.Command

/-- a bar of `width` cells, filled in proportion, to the nearest cell -/
def progressBar (step total width : Nat) : String :=
  let filled := min width ((step * width + total / 2) / total)
  String.ofList ('[' :: (List.replicate filled '=' ++ List.replicate (width - filled) '-' ++ [']']))

def progressLine (stage : Bundle.Stage) : String :=
  "[Generate] " ++ stage.label ++ "... (" ++ toString stage.step ++ "/" ++ toString stage.total ++ ") " ++
    progressBar stage.step stage.total 14

/-- a stage of packing a bundle, counted behind the two stages in front of it -/
def behindLoading (stage : Bundle.Stage) : Bundle.Stage :=
  { stage with step := 2 + stage.step, total := 2 + stage.total }

end Blockwork.Command
