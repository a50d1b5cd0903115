/-
Whole programs: the hoisted definitions, the line that declares the user's variables, and the body, with
a blank line between sections. A target without statements outside functions has its body in `main`.
-/
import Blockwork.Emission

namespace Blockwork

namespace Language

/-- whether the body of a program has to stand in a function -/
def wrapsBody : Language → Bool
  | dart => true
  | javascript => false
  | python => false

end Language

namespace Pass

def definitionSections (pass : Pass) : List String :=
  if pass.registry.entries.isEmpty then [] else [pass.registry.render]

/-- the line that declares the variables, if the target has one and there are any -/
def variableSections (pass : Pass) : List String :=
  if pass.language.declaresVariables && !pass.names.variableNames.isEmpty then
    ["var " ++ Text.joinWith ", " pass.names.variableNames ++ ";"]
  else []

/-- the body, in a function where the target asks for it -/
def bodySections (pass : Pass) (body : String) : List String :=
  if pass.language.wrapsBody then ["main() \x7b\n" ++ Text.prefixLines body Text.indentation ++ "\x7d"]
  else if body.isEmpty then []
  else [Text.dropFinalNewlines body]

/-- the program of a run with the given body -/
def finish (pass : Pass) (body : String) : String :=
  Text.joinWith "\n\n" (pass.definitionSections ++ pass.variableSections ++ pass.bodySections body) ++ "\n"

end Pass

/-- the program of a workspace in a target -/
def generate (language : Language) (blocks : List Block) : Except (Stop GenError) String :=
  match (Pass.start language).perform (Block.chainsCode (.standard language) blocks) with
  | (.ok body, pass) => .ok (pass.finish body)
  | (.error cause, _) => .error cause

end Blockwork
