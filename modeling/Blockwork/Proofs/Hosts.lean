/-
Machines that the command runs on.

- `carryOut`, `carryOut_bind`: an activity carried out in parts. It succeeds if both parts do, and fails where the first
  fails or where the second fails after it.
- `Host.Watched`: looking for a file, reading it and reporting progress change neither the files nor what was printed,
  and the report keeps every line.
- `OnlyReports`: the files and the printed text are as they were, and lines were added to the report.
- `Host.Leads`, `Host.Faithful`: the answers of the machine depend on its files alone, a file that was written is read
  back, and what is printed stands behind what was printed before. `Faithful.loadInput`: such a machine loads a file as
  what it holds.
- `Session.faithful_host`: a session in memory is such a machine.
-/
import Blockwork.Command.Session
import Blockwork.Proofs.Disk

namespace Blockwork.Command

/-! ## Activities in parts -/

section

variable {σ α β : Type}

/-- an activity carried out on a machine: what it gives, and the state of the machine after it -/
def carryOut (state : σ) (activity : Activity (StateM σ) α) : Except (Stop RunError) α × σ :=
  activity.run.run state

theorem carryOut_bind (state : σ) (first : Activity (StateM σ) α) (second : α → Activity (StateM σ) β) :
    carryOut state (first >>= second) =
      match carryOut state first with
      | (.ok a, between) => carryOut between (second a)
      | (.error stop, after) => (.error stop, after) := by
  unfold carryOut
  simp only [bind, ExceptT.bind, ExceptT.mk, ExceptT.run, StateT.run, StateT.bind]
  rcases first state with ⟨outcome, after⟩
  cases outcome <;> rfl

variable {state after : σ} {first : Activity (StateM σ) α} {second : α → Activity (StateM σ) β}

theorem carryOut_bind_ok {b : β} (h : carryOut state (first >>= second) = (.ok b, after)) :
    ∃ a between, carryOut state first = (.ok a, between) ∧ carryOut between (second a) = (.ok b, after) := by
  rw [carryOut_bind] at h
  rcases hr : carryOut state first with ⟨stop | a, between⟩
  · rw [hr] at h
    cases h
  · rw [hr] at h
    exact ⟨a, between, rfl, h⟩

theorem carryOut_bind_error {stop : Stop RunError} (h : carryOut state (first >>= second) = (.error stop, after)) :
    carryOut state first = (.error stop, after) ∨
      ∃ a between, carryOut state first = (.ok a, between) ∧ carryOut between (second a) = (.error stop, after) := by
  rw [carryOut_bind] at h
  rcases hr : carryOut state first with ⟨other | a, between⟩
  · rw [hr] at h
    cases h
    exact .inl rfl
  · rw [hr] at h
    exact .inr ⟨a, between, rfl, h⟩

theorem carryOut_lift (state : σ) (answer : StateM σ α) :
    carryOut state (ExceptT.lift answer) = (.ok (answer.run state).1, (answer.run state).2) := rfl

theorem carryOut_accept (state : σ) (failure : String → RunError) (answer : StateM σ (Except String α)) :
    carryOut state (accept failure answer) =
      (Stop.refusing (((answer.run state).1).mapError failure), (answer.run state).2) := by
  unfold accept
  rw [carryOut_bind, carryOut_lift]
  simp only
  cases (answer.run state).1 <;> rfl

/-- a program that is there, or why there is none; nothing is done to find out -/
theorem carryOut_program (state : σ) (language : Language) (blocks : List Block) :
    carryOut state (program language blocks) = ((generate language blocks).mapError (Stop.map .generation), state) := by
  unfold program
  cases generate language blocks <;> rfl

end

/-! ## What is asked of a machine -/

section

variable {σ ω : Type}

/-- a machine that is watched: `world` is its files and what was printed, `log` is the report of progress. Looking for
a file and reading it change nothing, a line reported is the next line of the report, and nothing else reports. -/
structure Host.Watched (host : Host (StateM σ)) (world : σ → ω) (log : σ → List String) : Prop where
  resolve : ∀ path state, world ((host.resolve path).run state).2 = world state ∧
    log ((host.resolve path).run state).2 = log state
  readFile : ∀ name state, world ((host.readFile name).run state).2 = world state ∧
    log ((host.readFile name).run state).2 = log state
  report : ∀ line state, world ((host.report line).run state).2 = world state ∧
    log ((host.report line).run state).2 = log state ++ [line]
  makeParents : ∀ path state, log ((host.makeParents path).run state).2 = log state
  writeFile : ∀ path bytes state, log ((host.writeFile path bytes).run state).2 = log state

/-- a path leads to a file, by its full name, and the file is read as what it holds -/
structure Host.Leads (host : Host (StateM σ)) (state : σ) (path name : String) (contents : Bytes) : Prop where
  resolve : ((host.resolve path).run state).1 = some name
  readFile : ((host.readFile name).run state).1 = .ok contents

/-- a watched machine that keeps what it is given: it answers about its files from its world alone, a file that was
written is read back as what was written, and printing appends -/
structure Host.Faithful (host : Host (StateM σ)) (world : σ → ω) (log : σ → List String) (printed : ω → String) : Prop
    extends host.Watched world log where
  resolve_world : ∀ path state other, world state = world other →
    ((host.resolve path).run state).1 = ((host.resolve path).run other).1
  readFile_world : ∀ name state other, world state = world other →
    ((host.readFile name).run state).1 = ((host.readFile name).run other).1
  written : ∀ path bytes state, ((host.writeFile path bytes).run state).1 = .ok () →
    ∃ name, host.Leads ((host.writeFile path bytes).run state).2 path name bytes
  print : ∀ text state, printed (world ((host.print text).run state).2) = printed (world state) ++ text

/-! ## Reports -/

section

variable {host : Host (StateM σ)} {world : σ → ω} {log : σ → List String} {state after : σ}

/-- the files and the printed text are as before, and lines were reported -/
structure OnlyReports (world : σ → ω) (log : σ → List String) (lines : List String) (state after : σ) : Prop where
  world : world after = world state
  log : log after = log state ++ lines

theorem OnlyReports.trans {lines lines' : List String} {between : σ} (h : OnlyReports world log lines state between)
    (h' : OnlyReports world log lines' between after) : OnlyReports world log (lines ++ lines') state after :=
  ⟨h'.world.trans h.world, by rw [h'.log, h.log, List.append_assoc]⟩

theorem Host.Watched.begin (hw : host.Watched world log) (step : Nat) (label : String) {u : Unit}
    (h : carryOut state (begin host step label) = (.ok u, after)) :
    OnlyReports world log [progressLine ⟨step, 3, label⟩] state after := by
  rw [Command.begin, carryOut_lift] at h
  cases h
  exact ⟨(hw.report _ state).1, (hw.report _ state).2⟩

theorem begin_ne_error {step : Nat} {label : String} {stop : Stop RunError} :
    carryOut state (begin host step label) ≠ (.error stop, after) := by
  rw [begin, carryOut_lift]
  rintro ⟨⟩

theorem Host.Watched.reportAll (hw : host.Watched world log) (lines : List String) (state : σ) :
    OnlyReports world log lines state ((reportAll host lines).run state).2 := by
  induction lines generalizing state with
  | nil => exact ⟨rfl, (List.append_nil _).symm⟩
  | cons line rest ih =>
    have hfirst : OnlyReports world log [line] state ((host.report line).run state).2 :=
      ⟨(hw.report line state).1, (hw.report line state).2⟩
    exact hfirst.trans (ih _)

end

/-! ## Loading -/

namespace Host.Faithful

variable {host : Host (StateM σ)} {world : σ → ω} {log : σ → List String} {printed : ω → String} {state : σ}
  {path name : String} {contents : Bytes}

theorem leads_world {other : σ} (hf : host.Faithful world log printed) (hfile : host.Leads state path name contents)
    (hw : world other = world state) : host.Leads other path name contents where
  resolve := (hf.resolve_world path other state hw).trans hfile.resolve
  readFile := (hf.readFile_world name other state hw).trans hfile.readFile

/-- a file that is there is found by its full name -/
theorem resolveInput (hf : host.Faithful world log printed) (hfile : host.Leads state path name contents) :
    ∃ found, world found = world state ∧ carryOut state (resolveInput host path) = (.ok name, found) := by
  refine ⟨_, (hf.resolve path state).1, ?_⟩
  unfold Command.resolveInput
  rw [carryOut_bind, carryOut_lift, hfile.resolve]
  rfl

/-- a file that is there is loaded as what it holds -/
theorem loadFile (hf : host.Faithful world log printed) (hfile : host.Leads state path name contents) :
    ∃ loaded, world loaded = world state ∧
      carryOut state (loadFile host name) =
        (Stop.refusing ((Workspace.load contents).mapError (.invalidWorkspace name)), loaded) := by
  refine ⟨_, (hf.readFile name state).1, ?_⟩
  unfold Command.loadFile
  rw [carryOut_bind, carryOut_accept, hfile.readFile]
  simp only [Except.mapError, Stop.refusing]
  cases Workspace.load contents <;> rfl

theorem begin (hf : host.Faithful world log printed) (state : σ) (step : Nat) (label : String) :
    ∃ begun, world begun = world state ∧ carryOut state (begin host step label) = (.ok (), begun) :=
  ⟨_, (hf.report _ state).1, rfl⟩

theorem loadInput (hf : host.Faithful world log printed) (hfile : host.Leads state path name contents) :
    ∃ loaded, world loaded = world state ∧
      carryOut state (loadInput host path) =
        (Stop.refusing ((Workspace.load contents).mapError (.invalidWorkspace name)), loaded) := by
  obtain ⟨first, hfirst, hbegun⟩ := hf.begin state 1 "Resolving input path"
  obtain ⟨found, hfound, hresolve⟩ := hf.resolveInput (hf.leads_world hfile hfirst)
  obtain ⟨second, hsecond, hbegun'⟩ := hf.begin found 2 "Loading workspace"
  have hworld : world second = world state := hsecond.trans (hfound.trans hfirst)
  obtain ⟨loaded, hloaded, hload⟩ := hf.loadFile (hf.leads_world hfile hworld)
  refine ⟨loaded, hloaded.trans hworld, ?_⟩
  simp only [Command.loadInput, carryOut_bind, hbegun, hresolve, hbegun', hload]

end Host.Faithful

end

/-! ## Sessions -/

namespace Session

variable (refusal : String) (session : Session)

theorem run_readFile (name : String) :
    ((host refusal).readFile name).run session =
      (match session.disk.read? name with
        | some bytes => .ok bytes
        | none => .error refusal, session) := by
  change (match session.disk.read? name with
    | some bytes => (pure (.ok bytes) : StateM Session (Except String Bytes))
    | none => pure (.error refusal)).run session = _
  cases session.disk.read? name <;> rfl

theorem run_writeFile (path : String) (bytes : Bytes) :
    ((host refusal).writeFile path bytes).run session =
      match session.disk.write? path bytes with
      | some disk => (.ok (), { session with disk })
      | none => (.error refusal, session) := by
  change (match session.disk.write? path bytes with
    | some disk => (do
        modify fun session : Session => { session with disk := disk }
        pure (.ok ()) : StateM Session (Except String Unit))
    | none => pure (.error refusal)).run session = _
  cases session.disk.write? path bytes <;> rfl

/-- a session is watched by its disk, its printed text and its report -/
theorem watched_host :
    (host refusal).Watched (fun session => (session.disk, session.printed)) reported where
  resolve _ _ := ⟨rfl, rfl⟩
  readFile name session := by
    rw [run_readFile]
    exact ⟨rfl, rfl⟩
  report _ _ := ⟨rfl, rfl⟩
  makeParents _ _ := rfl
  writeFile path bytes session := by
    rw [run_writeFile]
    cases session.disk.write? path bytes <;> rfl

/-- **A session keeps what it is given**: its disk finds every file again that was written. -/
theorem faithful_host :
    (host refusal).Faithful (fun session => (session.disk, session.printed)) reported Prod.snd where
  toWatched := watched_host refusal
  resolve_world path session other h := by
    have hdisk : session.disk = other.disk := congrArg Prod.fst h
    change (session.disk.locate? path).map session.disk.fullName = (other.disk.locate? path).map other.disk.fullName
    rw [hdisk]
  readFile_world name session other h := by
    have hdisk : session.disk = other.disk := congrArg Prod.fst h
    rw [run_readFile, run_readFile, hdisk]
  written path bytes session h := by
    rw [run_writeFile] at h ⊢
    cases hw : session.disk.write? path bytes with
    | none =>
      rw [hw] at h
      cases h
    | some disk =>
      obtain ⟨location, hlocation, hread⟩ := Files.Disk.written_found hw
      refine ⟨disk.fullName location, ?_, ?_⟩
      · change (disk.locate? path).map disk.fullName = _
        rw [hlocation]
        rfl
      · rw [run_readFile]
        simp only [hread]
  print _ _ := rfl

end Session

def inputSession (contents : Bytes) : Session :=
  .start ⟨"/work", [], [(["in.xml"], contents)]⟩

/-- the steps of a path depend on the name of the working folder alone -/
theorem steps?_inputSession {path : String} {steps : List Files.Step}
    (h : (Files.Disk.empty "/work").steps? path = some steps) (contents : Bytes) :
    (inputSession contents).disk.steps? path = some steps := h

theorem leads_inputSession (refusal : String) (contents : Bytes) :
    (Session.host refusal).Leads (inputSession contents) "in.xml" "/work/in.xml" contents := by
  have hlocate : ∀ path, (Files.Disk.empty "/work").steps? path = some [.down "in.xml"] →
      (inputSession contents).disk.locate? path = some ["in.xml"] := by
    intro path hpath
    rw [Files.Disk.locate?, steps?_inputSession hpath]
    simp [inputSession, Session.start, Files.Disk.walk, Files.Disk.hasFolder, Files.Disk.has, Files.Disk.file?]
  constructor
  · change ((inputSession contents).disk.locate? "in.xml").map (inputSession contents).disk.fullName = _
    rw [hlocate "in.xml" rfl]
    rfl
  · rw [Session.run_readFile, Files.Disk.read?, hlocate "/work/in.xml" rfl]
    simp [inputSession, Session.start, Files.Disk.file?]

end Blockwork.Command
