/-
What a run of the command leaves behind, on any machine.

- `Bundle.pack_stages`: packing goes through all stages or through none.
- `loadInput_ok`, `loadInput_error`, `writeBundle_ok`, `writeBundle_early`, `deliver_late`: what each part of a run does
  to the files, the printed text and the report, for each of its endings.
- `failing_runs_leave_nothing`: the main statement.
-/
import Blockwork.Proofs.Hosts
import Blockwork.Proofs.RoundTrip

namespace Blockwork

/-! ## The stages of packing -/

namespace Bundle

def allStages : List Stage :=
  [⟨1, 3, "Generating javascript"⟩, ⟨2, 3, "Generating dart"⟩, ⟨3, 3, "Generating python"⟩]

/-- packing goes through all stages, or stops before the first one is reached -/
theorem pack_stages (packer : Packer) (blocks : List Block) :
    (∃ stop : Stop GenError, pack packer blocks = ([], .error (stop.map .generation))) ∨
      ∃ packed : Except String Bytes,
        pack packer blocks = (allStages, packed.mapError fun cause => .refused (.packing cause)) := by
  rcases generate_all blocks with ⟨stop, hstop⟩ | ⟨source, hsource⟩
  · left
    refine ⟨stop, ?_⟩
    simp only [pack, Language.all, batch, hstop]
    rfl
  · right
    refine ⟨bytes packer blocks.length (programsOf source Language.all), ?_⟩
    rw [← pack_of_generated hsource]
    refine Prod.ext ?_ rfl
    simp only [pack, batch_of_generated hsource]
    rfl

end Bundle

namespace Command

/-! ## Endings -/

/-- a cause that is found before anything is written or printed: the arguments, the input, the workspace or a block in
it. The others are refusals of a library to pack, and of the machine to write. -/
def RunError.isEarly : RunError → Bool
  | noOutput => true
  | notFound _ => true
  | unreadable _ _ => true
  | invalidWorkspace _ _ => true
  | generation _ => true
  | packing _ => false
  | refused _ => false
  | unwritable _ _ => false

/-- a run that ends before anything is written or printed: for an early cause, or in an overflow -/
def endsEarly : Stop RunError → Bool
  | .refused cause => cause.isEarly
  | .overflow => true

def loadingLines : List String :=
  [progressLine ⟨1, 3, "Resolving input path"⟩, progressLine ⟨2, 3, "Loading workspace"⟩]

section

variable {σ ω : Type} {host : Host (StateM σ)} {world : σ → ω} {log : σ → List String} {state after : σ}
  {packer : Packer}

theorem Host.Watched.resolveInput (hw : host.Watched world log) {path : String} {outcome : Except (Stop RunError) String}
    (h : carryOut state (resolveInput host path) = (outcome, after)) :
    OnlyReports world log [] state after ∧ ∀ stop, outcome = .error stop → stop = .refused (.notFound path) := by
  unfold Command.resolveInput at h
  rw [carryOut_bind, carryOut_lift] at h
  simp only at h
  obtain ⟨hworld, hlog⟩ := hw.resolve path state
  have hsame : after = ((host.resolve path).run state).2 := by
    cases hr : ((host.resolve path).run state).1 <;> (rw [hr] at h; cases h; rfl)
  refine ⟨⟨by rw [hsame, hworld], by rw [hsame, hlog, List.append_nil]⟩, fun stop hc => ?_⟩
  subst hc
  cases hr : ((host.resolve path).run state).1 with
  | none =>
    rw [hr] at h
    cases h
    rfl
  | some name =>
    rw [hr] at h
    cases h

/-- a file is read without a trace; what can be wrong with it is found before anything is generated -/
theorem Host.Watched.loadFile (hw : host.Watched world log) {name : String}
    {outcome : Except (Stop RunError) (List Block)} (h : carryOut state (loadFile host name) = (outcome, after)) :
    OnlyReports world log [] state after ∧
      ∀ inner : Stop GenError, outcome ≠ .error (inner.map .generation) := by
  have hother : ∀ cause : RunError, (∀ inner, cause ≠ .generation inner) → ∀ inner : Stop GenError,
      (.error (.refused cause) : Except (Stop RunError) (List Block)) ≠ .error (inner.map .generation) := by
    rintro cause hc (inner | _) h
    · exact hc inner (Stop.refused.inj (Except.error.inj h))
    · cases h
  unfold Command.loadFile at h
  rw [carryOut_bind, carryOut_accept] at h
  obtain ⟨hworld, hlog⟩ := hw.readFile name state
  have hstill : OnlyReports world log [] state ((host.readFile name).run state).2 :=
    ⟨hworld, by rw [hlog, List.append_nil]⟩
  cases hr : ((host.readFile name).run state).1 with
  | error refusal =>
    rw [hr] at h
    cases h
    exact ⟨hstill, hother _ (by rintro inner ⟨⟩)⟩
  | ok bytes =>
    rw [hr] at h
    simp only [Except.mapError, Stop.refusing] at h
    cases hl : Workspace.load bytes with
    | error cause =>
      rw [hl] at h
      cases h
      exact ⟨hstill, hother _ (by rintro inner ⟨⟩)⟩
    | ok blocks =>
      rw [hl] at h
      cases h
      exact ⟨hstill, by rintro inner ⟨⟩⟩

/-- a workspace that loads leaves two lines of progress -/
theorem loadInput_ok (hw : host.Watched world log) {path : String} {blocks : List Block}
    (h : carryOut state (loadInput host path) = (.ok blocks, after)) : OnlyReports world log loadingLines state after := by
  obtain ⟨_, first, hfirst, h⟩ := carryOut_bind_ok h
  obtain ⟨name, second, hsecond, h⟩ := carryOut_bind_ok h
  obtain ⟨_, third, hthird, h⟩ := carryOut_bind_ok h
  exact (((hw.begin _ _ hfirst).trans (hw.resolveInput hsecond).1).trans (hw.begin _ _ hthird)).trans
    (hw.loadFile h).1

/-- a workspace that does not load leaves the files and the printed text as they were -/
theorem loadInput_error (hw : host.Watched world log) {path : String} {stop : Stop RunError}
    (h : carryOut state (loadInput host path) = (.error stop, after)) :
    world after = world state ∧ ∀ inner : Stop GenError, stop ≠ inner.map .generation := by
  rcases carryOut_bind_error h with h | ⟨_, first, hfirst, h⟩
  · exact absurd h begin_ne_error
  have hfirst := hw.begin _ _ hfirst
  rcases carryOut_bind_error h with h | ⟨name, second, hsecond, h⟩
  · obtain ⟨hstill, hcause⟩ := hw.resolveInput h
    rw [hcause stop rfl]
    exact ⟨(hfirst.trans hstill).world, fun inner => by cases inner <;> nofun⟩
  have hsecond := hfirst.trans (hw.resolveInput hsecond).1
  rcases carryOut_bind_error h with h | ⟨_, third, hthird, h⟩
  · exact absurd h begin_ne_error
  obtain ⟨hstill, hcause⟩ := hw.loadFile h
  exact ⟨((hsecond.trans (hw.begin _ _ hthird)).trans hstill).world, fun inner hc => hcause inner (by rw [hc])⟩

theorem accept_late {α : Type} {failure : String → RunError} (hf : ∀ refusal, (failure refusal).isEarly = false)
    {answer : StateM σ (Except String α)} {stop : Stop RunError}
    (h : carryOut state (accept failure answer) = (.error stop, after)) : endsEarly stop = false := by
  rw [carryOut_accept] at h
  cases hr : (answer.run state).1 with
  | ok a =>
    rw [hr] at h
    cases h
  | error refusal =>
    rw [hr] at h
    cases h
    exact hf refusal

/-- a program that is there fails to be written or printed only late -/
theorem deliver_late {source : String} {output : Option String} {stop : Stop RunError}
    (h : carryOut state (deliver host source output) = (.error stop, after)) : endsEarly stop = false := by
  cases output with
  | none =>
    rw [deliver, carryOut_lift] at h
    cases h
  | some path =>
    rcases carryOut_bind_error h with h | ⟨_, between, -, h⟩
    · exact accept_late (fun _ => rfl) h
    · exact accept_late (fun _ => rfl) h

/-- a bundle that is written leaves the three stages in the report, as they are shown -/
theorem writeBundle_ok (hw : host.Watched world log) {shown : Bundle.Stage → Option String} {blocks : List Block}
    {path : String} {u : Unit} (h : carryOut state (writeBundle host packer shown blocks path) = (.ok u, after)) :
    log after = log state ++ Bundle.allStages.filterMap shown := by
  unfold writeBundle at h
  rcases Bundle.pack_stages packer blocks with ⟨stop, hpack⟩ | ⟨packed, hpack⟩
  · simp only [hpack] at h
    obtain ⟨_, between, -, h⟩ := carryOut_bind_ok h
    cases h
  · simp only [hpack] at h
    obtain ⟨_, between, hreport, h⟩ := carryOut_bind_ok h
    cases packed with
    | error cause => cases h
    | ok bytes =>
      obtain ⟨_, made, hmade, hwritten⟩ := carryOut_bind_ok h
      rw [carryOut_lift] at hreport
      rw [carryOut_accept] at hmade hwritten
      rw [← (Prod.mk.inj hwritten).2, hw.writeFile, ← (Prod.mk.inj hmade).2, hw.makeParents,
        ← (Prod.mk.inj hreport).2]
      exact (hw.reportAll _ state).log

/-- a bundle that cannot be generated leaves nothing at all, and is the only early failure -/
theorem writeBundle_early (hw : host.Watched world log) {shown : Bundle.Stage → Option String} {blocks : List Block}
    {path : String} {stop : Stop RunError}
    (h : carryOut state (writeBundle host packer shown blocks path) = (.error stop, after)) (he : endsEarly stop) :
    OnlyReports world log [] state after := by
  unfold writeBundle at h
  rcases Bundle.pack_stages packer blocks with ⟨found, hpack⟩ | ⟨packed, hpack⟩
  · simp only [hpack] at h
    rcases carryOut_bind_error h with h | ⟨_, between, hreport, h⟩
    · rw [carryOut_lift] at h
      cases h
    · rw [carryOut_lift] at hreport
      cases h
      rw [← (Prod.mk.inj hreport).2]
      exact hw.reportAll [] state
  · simp only [hpack] at h
    rcases carryOut_bind_error h with h | ⟨_, between, -, h⟩
    · rw [carryOut_lift] at h
      cases h
    · have hlate : endsEarly stop = false := by
        cases packed with
        | error cause =>
          cases h
          rfl
        | ok bytes =>
          rcases carryOut_bind_error h with h | ⟨_, made, -, h⟩
          · exact accept_late (fun _ => rfl) h
          · exact accept_late (fun _ => rfl) h
      rw [hlate] at he
      cases he

/-- **Early failures of a run** leave the files and the printed text as they were. -/
theorem run_early (hw : host.Watched world log) {arguments : Arguments} {stop : Stop RunError}
    (h : carryOut state (run host packer arguments) = (.error stop, after)) (he : endsEarly stop) :
    world after = world state := by
  obtain ⟨input, output, language, bundle⟩ := arguments
  unfold run at h
  cases bundle with
  | true =>
    cases output with
    | none =>
      cases h
      rfl
    | some path =>
      rcases carryOut_bind_error h with h | ⟨blocks, loaded, hloaded, h⟩
      · exact (loadInput_error hw h).1
      · exact (writeBundle_early hw h he).world.trans (loadInput_ok hw hloaded).world
  | false =>
    rcases carryOut_bind_error h with h | ⟨blocks, loaded, hloaded, h⟩
    · exact (loadInput_error hw h).1
    have hloaded := loadInput_ok hw hloaded
    rcases carryOut_bind_error h with h | ⟨_, begun, hbegun, h⟩
    · exact absurd h begin_ne_error
    have hbegun := hloaded.trans (hw.begin _ _ hbegun)
    rcases carryOut_bind_error h with h | ⟨source, made, -, h⟩
    · rw [carryOut_program] at h
      rw [← (Prod.mk.inj h).2]
      exact hbegun.world
    · rw [deliver_late h] at he
      cases he

end

/-- **A run that fails leaves nothing behind.** If the arguments, the input, the workspace or a block in it are at
fault, or generation overflows, the files and the printed text are as they were. A bundle whose workspace cannot be
generated reports no stage of it, one that is written reports all three, behind the two stages of loading. Packing and
writing alone does the same: a failure to generate leaves no trace, and success reports all three stages as they are
shown. -/
theorem failing_runs_leave_nothing {σ ω : Type} {host : Host (StateM σ)} {world : σ → ω} {log : σ → List String}
    (hw : host.Watched world log) (packer : Packer) (state after : σ) :
    (∀ arguments stop, carryOut state (run host packer arguments) = (.error stop, after) → endsEarly stop →
      world after = world state) ∧
    (∀ arguments (stop : Stop GenError), arguments.bundle →
      carryOut state (run host packer arguments) = (.error (stop.map .generation), after) →
      log after = log state ++
        [progressLine ⟨1, 3, "Resolving input path"⟩, progressLine ⟨2, 3, "Loading workspace"⟩]) ∧
    (∀ arguments, arguments.bundle → carryOut state (run host packer arguments) = (.ok (), after) →
      log after = log state ++
        [progressLine ⟨1, 3, "Resolving input path"⟩, progressLine ⟨2, 3, "Loading workspace"⟩,
          progressLine ⟨3, 5, "Generating javascript"⟩, progressLine ⟨4, 5, "Generating dart"⟩,
          progressLine ⟨5, 5, "Generating python"⟩]) ∧
    (∀ shown blocks path stop, carryOut state (writeBundle host packer shown blocks path) = (.error stop, after) →
      endsEarly stop → world after = world state ∧ log after = log state) ∧
    ∀ shown blocks path, carryOut state (writeBundle host packer shown blocks path) = (.ok (), after) →
      log after = log state ++ List.filterMap shown
        [⟨1, 3, "Generating javascript"⟩, ⟨2, 3, "Generating dart"⟩, ⟨3, 3, "Generating python"⟩] := by
  refine ⟨fun arguments stop h he => run_early hw h he, ?_, ?_, ?_, fun shown blocks path h => writeBundle_ok hw h⟩
  · rintro ⟨input, output, language, bundle⟩ stop rfl h
    have hearly : endsEarly (stop.map .generation) := by cases stop <;> rfl
    cases output with
    | none => cases stop <;> cases h
    | some path =>
      rcases carryOut_bind_error h with h | ⟨blocks, loaded, hloaded, h⟩
      · exact absurd rfl ((loadInput_error hw h).2 stop)
      · exact ((loadInput_ok hw hloaded).trans (writeBundle_early hw h hearly)).log
  · rintro ⟨input, output, language, bundle⟩ rfl h
    cases output with
    | none => cases h
    | some path =>
      obtain ⟨blocks, loaded, hloaded, h⟩ := carryOut_bind_ok h
      rw [writeBundle_ok hw h, (loadInput_ok hw hloaded).log, List.append_assoc]
      rfl
  · intro shown blocks path stop h he
    have hsame := writeBundle_early hw h he
    exact ⟨hsame.world, hsame.log.trans (List.append_nil _)⟩

/-! ## A workspace with an unknown block -/

/-- a session whose workspace holds a block that no target knows -/
def cubeSession : Session :=
  .start ⟨"/work", [], [(["in.xml"], Bytes.ofText "<xml><block type='math_cube'/></xml>")]⟩

theorem load_cube :
    Workspace.load (Bytes.ofText "<xml><block type='math_cube'/></xml>") = .ok [.leaf (.bare "math_cube")] := by
  have hnode : Markup.Node.ofBytes? (Bytes.ofText "<xml><block type='math_cube'/></xml>") =
      some (.element "xml" [] [.element "block" [("type", "math_cube")] []]) := by
    have hstart : "<xml><block type='math_cube'/></xml>".toList.head? = some '<' := by decide
    exact Markup.ofBytes?_undeclared hstart (by decide) rfl rfl rfl
  rw [Workspace.load, hnode]
  rfl

def cubeArguments : Arguments := ⟨"in.xml", some "out/cube.zip", .python, true⟩

theorem run_cube :
    ∃ after, carryOut cubeSession (run (Session.host "refused") .standard cubeArguments) =
      (.error (.refused (.generation (.unknownKind "math_cube"))), after) := by
  have hfile := leads_inputSession "refused" (Bytes.ofText "<xml><block type='math_cube'/></xml>")
  obtain ⟨loaded, -, hload⟩ := (Session.faithful_host "refused").loadInput hfile
  rw [load_cube] at hload
  have hpack : Bundle.pack .standard [.leaf (.bare "math_cube")] =
      ([], .error (.refused (.generation (.unknownKind "math_cube")))) := by rfl
  refine ⟨loaded, ?_⟩
  change carryOut cubeSession (loadInput (Session.host "refused") "in.xml" >>= fun blocks => _) = _
  rw [carryOut_bind, show carryOut cubeSession _ = _ from hload]
  simp only [Except.mapError, Stop.refusing, writeBundle, hpack]
  rfl

theorem cubeSession_leaves_nothing :
    ∃ after, carryOut cubeSession (run (Session.host "refused") .standard cubeArguments) =
        (.error (.refused (.generation (.unknownKind "math_cube"))), after) ∧
      (after.disk, after.printed) = (cubeSession.disk, "") ∧
      after.reported = ["[Generate] Resolving input path... (1/3) [=====---------]",
        "[Generate] Loading workspace... (2/3) [=========-----]"] := by
  obtain ⟨after, hrun⟩ := run_cube
  obtain ⟨hworld, hlog, -⟩ :=
    failing_runs_leave_nothing (Session.watched_host "refused") .standard cubeSession after
  exact ⟨after, hrun, hworld _ _ hrun rfl, hlog _ (.refused (.unknownKind "math_cube")) rfl hrun⟩

end Command

end Blockwork
