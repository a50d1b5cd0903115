/-
A session in memory: a disk, what has been printed and what progress has been reported. It is a host, so
the command runs in it without a machine.
-/
import Blockwork.Command.Run

namespace Blockwork.Command

open Files (Disk)

/-- a disk with what was printed and reported while working on it -/
structure Session where
  disk : Disk
  printed : String
  reported : List String
  deriving DecidableEq

namespace Session

def start (disk : Disk) : Session := ⟨disk, "", []⟩

/-- the host of a session; `refusal` is what it says whenever it cannot do something -/
def host (refusal : String) : Host (StateM Session) where
  resolve path := do
    let disk := (← get).disk
    pure ((disk.locate? path).map disk.fullName)
  readFile name := do
    match (← get).disk.read? name with
    | some bytes => pure (.ok bytes)
    | none => pure (.error refusal)
  makeParents path := do
    let (disk, made) := (← get).disk.makeParents path
    modify fun session => { session with disk }
    pure (if made then .ok () else .error refusal)
  writeFile path bytes := do
    match (← get).disk.write? path bytes with
    | some disk => do
      modify fun session => { session with disk }
      pure (.ok ())
    | none => pure (.error refusal)
  print text := modify fun session => { session with printed := session.printed ++ text }
  report line := modify fun session => { session with reported := session.reported ++ [line] }

/-- an activity carried out in a session: what it gives, and the session after it -/
def perform {α : Type} (session : Session) (activity : Activity (StateM Session) α) :
    Except (Stop RunError) α × Session :=
  activity.run.run session

end Session

end Blockwork.Command
