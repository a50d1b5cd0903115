/-
All ways out of the command carry the same program.

- `outcome`: what the contents of a file say the program is. `Faithful.generateFile`, `Faithful.run_program`,
  `Faithful.run_bundle`: every way through the command comes down to it.
- `deliver_printed`, `deliver_written`, `writeBundle_written`: what is on the machine behind each way.
- `run_delivers`, `run_packs`, `run_bundle_stopped`: what a run that succeeds must have had to put out, and how a bundle
  fails where there is no program.
- `output_routes_agree`: the main statement.
-/
import Blockwork.Proofs.Hosts
import Blockwork.Proofs.RoundTrip

namespace Blockwork.Command

section

variable {σ ω : Type} {host : Host (StateM σ)} {world : σ → ω} {log : σ → List String} {printed : ω → String}
  {packer : Packer} {state after : σ} {path name : String} {contents : Bytes}

/-! ## Outcomes -/

/-- what the contents of a file say the program is -/
def outcome (language : Language) (name : String) (contents : Bytes) : Except (Stop RunError) String := do
  let blocks ← Stop.refusing ((Workspace.load contents).mapError (.invalidWorkspace name))
  (generate language blocks).mapError (Stop.map .generation)

theorem outcome_of_load_error {cause : LoadError} (h : Workspace.load contents = .error cause) (language : Language) :
    outcome language name contents = .error (.refused (.invalidWorkspace name cause)) := by
  rw [outcome, h]
  rfl

theorem outcome_of_load {blocks : List Block} (h : Workspace.load contents = .ok blocks) (language : Language) :
    outcome language name contents = (generate language blocks).mapError (Stop.map .generation) := by
  rw [outcome, h]
  rfl

theorem outcome_eq_ok_iff {language : Language} {source : String} :
    outcome language name contents = .ok source ↔
      ∃ blocks, Workspace.load contents = .ok blocks ∧ generate language blocks = .ok source := by
  cases hl : Workspace.load contents with
  | error cause => simp [outcome_of_load_error hl]
  | ok blocks =>
    rw [outcome_of_load hl]
    cases hg : generate language blocks <;> simp [Except.mapError, hg]

/-! ## Ways through the command -/

namespace Host.Faithful

/-- **The program of a file** is what its contents say. -/
theorem generateFile (hf : host.Faithful world log printed) (hfile : host.Leads state path name contents)
    (language : Language) : (carryOut state (generateFile host language path)).1 = outcome language name contents := by
  obtain ⟨found, hfound, hresolve⟩ := hf.resolveInput hfile
  obtain ⟨loaded, -, hload⟩ := hf.loadFile (hf.leads_world hfile hfound)
  simp only [Command.generateFile, carryOut_bind, hresolve, hload]
  cases hl : Workspace.load contents with
  | error cause =>
    rw [outcome_of_load_error hl]
    rfl
  | ok blocks =>
    rw [outcome_of_load hl]
    simp only [Except.mapError, Stop.refusing, carryOut_program]

/-- **A run without a bundle** delivers what the contents of the file say, or fails as they do. -/
theorem run_program (packer : Packer) (hf : host.Faithful world log printed) (hfile : host.Leads state path name contents)
    (language : Language) (output : Option String) :
    ∃ begun, world begun = world state ∧
      carryOut state (run host packer ⟨path, output, language, false⟩) =
        match outcome language name contents with
        | .ok source => carryOut begun (deliver host source output)
        | .error stop => (.error stop, begun) := by
  obtain ⟨loaded, hloaded, hload⟩ := hf.loadInput hfile
  cases hl : Workspace.load contents with
  | error cause =>
    refine ⟨loaded, hloaded, ?_⟩
    rw [outcome_of_load_error hl]
    simp only [run, carryOut_bind, hload, hl, Except.mapError, Stop.refusing]
  | ok blocks =>
    obtain ⟨begun, hbegun, hbegin⟩ := hf.begin loaded 3 ("Generating " ++ language.name)
    refine ⟨begun, hbegun.trans hloaded, ?_⟩
    rw [outcome_of_load hl]
    simp only [run, carryOut_bind, hload, hl, Except.mapError, Stop.refusing, hbegin, carryOut_program]
    cases generate language blocks <;> rfl

/-- a run with a bundle packs the blocks of the file -/
theorem run_bundle (packer : Packer) (hf : host.Faithful world log printed) (hfile : host.Leads state path name contents)
    (language : Language) (output : String) :
    ∃ loaded, world loaded = world state ∧
      carryOut state (run host packer ⟨path, some output, language, true⟩) =
        match Workspace.load contents with
        | .ok blocks =>
          carryOut loaded (writeBundle host packer (fun stage => some (progressLine (behindLoading stage))) blocks output)
        | .error cause => (.error (.refused (.invalidWorkspace name cause)), loaded) := by
  obtain ⟨loaded, hloaded, hload⟩ := hf.loadInput hfile
  refine ⟨loaded, hloaded, ?_⟩
  simp only [run, carryOut_bind, hload]
  cases Workspace.load contents <;> rfl

/-! ## What is there behind them -/

theorem deliver_printed (hf : host.Faithful world log printed) {source : String} {u : Unit}
    (h : carryOut state (deliver host source none) = (.ok u, after)) :
    printed (world after) = printed (world state) ++ source := by
  rw [deliver, carryOut_lift] at h
  cases h
  exact hf.print source state

theorem accept_written (hf : host.Faithful world log printed) {failure : String → RunError} {output : String}
    {bytes : Bytes} {u : Unit}
    (h : carryOut state (accept failure (host.writeFile output bytes)) = (.ok u, after)) :
    ∃ name, host.Leads after output name bytes := by
  rw [carryOut_accept] at h
  obtain ⟨hanswer, rfl⟩ := Prod.mk.inj h
  apply hf.written
  cases hw : ((host.writeFile output bytes).run state).1 with
  | ok answer => rfl
  | error refusal =>
    rw [hw] at hanswer
    cases hanswer

theorem deliver_written (hf : host.Faithful world log printed) {source output : String} {u : Unit}
    (h : carryOut state (deliver host source (some output)) = (.ok u, after)) :
    ∃ name, host.Leads after output name (Bytes.ofText source) := by
  obtain ⟨_, made, -, h⟩ := carryOut_bind_ok h
  exact hf.accept_written h

theorem writeBundle_written (hf : host.Faithful world log printed) {shown : Bundle.Stage → Option String}
    {blocks : List Block} {output : String} {u : Unit}
    (h : carryOut state (writeBundle host packer shown blocks output) = (.ok u, after)) :
    ∃ packed, (Bundle.pack packer blocks).2 = .ok packed ∧ ∃ name, host.Leads after output name packed := by
  unfold writeBundle at h
  rcases hp : Bundle.pack packer blocks with ⟨stages, packed⟩
  rw [hp] at h
  obtain ⟨_, reported, -, h⟩ := carryOut_bind_ok h
  cases packed with
  | error stop => cases h
  | ok bytes =>
    obtain ⟨_, made, -, h⟩ := carryOut_bind_ok h
    exact ⟨bytes, rfl, hf.accept_written h⟩

/-- a run that succeeds without a bundle has a program to deliver -/
theorem run_delivers (hf : host.Faithful world log printed) (hfile : host.Leads state path name contents)
    {language : Language} {output : Option String} {u : Unit}
    (h : carryOut state (run host packer ⟨path, output, language, false⟩) = (.ok u, after)) :
    ∃ source begun, outcome language name contents = .ok source ∧ world begun = world state ∧
      carryOut begun (deliver host source output) = (.ok u, after) := by
  obtain ⟨begun, hbegun, hrun⟩ := hf.run_program packer hfile language output
  rw [hrun] at h
  cases ho : outcome language name contents with
  | error stop => simp [ho] at h
  | ok source =>
    simp only [ho] at h
    exact ⟨source, begun, rfl, hbegun, h⟩

/-- a run that succeeds with a bundle has a program in every language, and leaves what is packed of them -/
theorem run_packs (hf : host.Faithful world log printed) (hfile : host.Leads state path name contents)
    {language : Language} {output : String} {u : Unit}
    (h : carryOut state (run host packer ⟨path, some output, language, true⟩) = (.ok u, after)) :
    ∃ (blocks : List Block) (source : Language → String) (packed : Bytes), Workspace.load contents = .ok blocks ∧
      (∀ language, generate language blocks = .ok (source language)) ∧ (Bundle.pack packer blocks).2 = .ok packed ∧
      ∃ written, host.Leads after output written packed := by
  obtain ⟨loaded, -, hrun⟩ := hf.run_bundle packer hfile language output
  rw [hrun] at h
  cases hl : Workspace.load contents with
  | error cause => simp [hl] at h
  | ok blocks =>
    simp only [hl] at h
    obtain ⟨packed, hpack, hwritten⟩ := hf.writeBundle_written h
    rcases Bundle.generate_all blocks with ⟨stop, hstop⟩ | ⟨source, hsource⟩
    · rw [Bundle.pack_of_stopped hstop] at hpack
      cases hpack
    · exact ⟨blocks, source, packed, rfl, hsource, hpack, hwritten⟩

end Host.Faithful

/-- what is packed is stored, once the stages are reported -/
theorem writeBundle_of_packed (hw : host.Watched world log) {blocks : List Block} {packed : Bytes}
    (h : (Bundle.pack packer blocks).2 = .ok packed) (state : σ) (shown : Bundle.Stage → Option String)
    (output : String) :
    ∃ reported, world reported = world state ∧
      carryOut state (writeBundle host packer shown blocks output) = carryOut reported (do
        accept .refused (host.makeParents output)
        accept (.unwritable output) (host.writeFile output packed)) := by
  refine ⟨_, (hw.reportAll ((Bundle.pack packer blocks).1.filterMap shown) state).world, ?_⟩
  rw [writeBundle, carryOut_bind, carryOut_lift, h]

theorem writeBundle_stopped {shown : Bundle.Stage → Option String} {blocks : List Block} {output : String}
    {stop : Stop GenError} (h : (Bundle.pack packer blocks).2 = .error (stop.map .generation)) :
    (carryOut state (writeBundle host packer shown blocks output)).1 = .error (stop.map .generation) := by
  simp only [writeBundle, carryOut_bind, carryOut_lift, h]
  cases stop <;> rfl

/-- where there is no program in some language, a bundle fails as that does -/
theorem Host.Faithful.run_bundle_stopped (hf : host.Faithful world log printed)
    (hfile : host.Leads state path name contents) {language : Language} {stop : Stop RunError}
    (hstop : outcome language name contents = .error stop) (output : String) (chosen : Language) :
    (carryOut state (run host packer ⟨path, some output, chosen, true⟩)).1 = .error stop := by
  obtain ⟨loaded, -, hrun⟩ := hf.run_bundle packer hfile chosen output
  rw [hrun]
  cases hl : Workspace.load contents with
  | error found =>
    rw [outcome_of_load_error hl] at hstop
    cases hstop
    rfl
  | ok blocks =>
    rw [outcome_of_load hl] at hstop
    cases hg : generate language blocks with
    | ok source =>
      rw [hg] at hstop
      cases hstop
    | error found =>
      rw [hg] at hstop
      cases hstop
      exact writeBundle_stopped ((Bundle.pack_error_iff found).2 ⟨language, hg⟩)

end

/-- **All ways out carry the same program.** Let a path lead to a file, and bundles be packed by a packer that gives back
what was packed. What is generated from the file is the program of the blocks that its contents load as. A run that
prints succeeds exactly if there is one, and prints it; a run that succeeds in writing a file leaves the bytes of the
program there; a run that succeeds in writing a bundle leaves bytes there that are read back as the programs of all
languages, whatever language was asked for. Where there is no program, every run fails in the same way. The length of a
list is a number of 64 bits. -/
theorem output_routes_agree {σ ω : Type} {host : Host (StateM σ)} {world : σ → ω} {log : σ → List String}
    {printed : ω → String} (hf : host.Faithful world log printed) {packer : Packer} (hp : packer.GivesBack) {state : σ}
    {input name : String} {contents : Bytes} (hfile : host.Leads state input name contents) :
    (∀ language source, (carryOut state (generateFile host language input)).1 = .ok source ↔
      ∃ blocks, Workspace.load contents = .ok blocks ∧ generate language blocks = .ok source) ∧
    (∀ language source, (carryOut state (generateFile host language input)).1 = .ok source →
      (carryOut state (run host packer ⟨input, none, language, false⟩)).1 = .ok ()) ∧
    (∀ language after, carryOut state (run host packer ⟨input, none, language, false⟩) = (.ok (), after) →
      ∃ source, (carryOut state (generateFile host language input)).1 = .ok source ∧
        printed (world after) = printed (world state) ++ source) ∧
    (∀ language output after, carryOut state (run host packer ⟨input, some output, language, false⟩) = (.ok (), after) →
      ∃ source, (carryOut state (generateFile host language input)).1 = .ok source ∧
        ∃ written, host.Leads after output written (Bytes.ofText source)) ∧
    (∀ chosen output after, carryOut state (run host packer ⟨input, some output, chosen, true⟩) = (.ok (), after) →
      ∃ (source : Language → String) (packed : Bytes),
        (∀ language, (carryOut state (generateFile host language input)).1 = .ok (source language)) ∧
        (∃ written, host.Leads after output written packed) ∧
        ((∀ blocks, Workspace.load contents = .ok blocks → blocks.length < twoTo 64) →
          Bundle.ofBytes packed =
            .ok [⟨.javascript, source .javascript⟩, ⟨.dart, source .dart⟩, ⟨.python, source .python⟩])) ∧
    (∀ language stop, (carryOut state (generateFile host language input)).1 = .error stop →
      (∀ output, (carryOut state (run host packer ⟨input, output, language, false⟩)).1 = .error stop) ∧
      ∀ output chosen, (carryOut state (run host packer ⟨input, some output, chosen, true⟩)).1 = .error stop) := by
  simp only [hf.generateFile hfile]
  refine ⟨fun language source => outcome_eq_ok_iff, ?_, ?_, ?_, ?_, ?_⟩
  · intro language source hsource
    obtain ⟨begun, -, hrun⟩ := hf.run_program packer hfile language none
    rw [hrun, hsource]
    rfl
  · intro language after h
    obtain ⟨source, begun, hsource, hbegun, hdone⟩ := hf.run_delivers hfile h
    exact ⟨source, hsource, hbegun ▸ hf.deliver_printed hdone⟩
  · intro language output after h
    obtain ⟨source, begun, hsource, -, hdone⟩ := hf.run_delivers hfile h
    exact ⟨source, hsource, hf.deliver_written hdone⟩
  · intro chosen output after h
    obtain ⟨blocks, source, packed, hl, hsource, hpack, hwritten⟩ := hf.run_packs hfile h
    refine ⟨source, packed, fun language => ?_, hwritten, fun hlength => ?_⟩
    · rw [outcome_of_load hl, hsource]
      rfl
    · exact Bundle.ofBytes_of_generated hp (hlength blocks hl) hsource hpack
  · intro language stop hstop
    refine ⟨fun output => ?_, hf.run_bundle_stopped hfile hstop⟩
    obtain ⟨begun, -, hrun⟩ := hf.run_program packer hfile language output
    rw [hrun, hstop]

/-! ## A text -/

theorem store_inputSession {refusal path : String} {contents bytes : Bytes} {session : Session}
    (hdisk : session.disk = (inputSession contents).disk)
    (hsteps : (Files.Disk.empty "/work").steps? path = some [.down path]) (hname : Files.Disk.isName path)
    (failure failure' : String → RunError) :
    (carryOut session (do
      accept failure ((Session.host refusal).makeParents path)
      accept failure' ((Session.host refusal).writeFile path bytes))).1 = .ok () := by
  have hsteps : session.disk.steps? path = some [.down path] := hdisk ▸ steps?_inputSession hsteps contents
  have hmade : session.disk.makeParents path = (session.disk, true) := by
    rw [Files.Disk.makeParents, hsteps]
    rfl
  have hwrite : (session.disk.write? path bytes).isSome := by
    rw [Files.Disk.write?, Files.Disk.target?, hsteps, hdisk]
    simp [inputSession, Session.start, Files.Disk.walk, Files.Disk.hasFolder, hname]
  obtain ⟨written, hwrite⟩ := Option.isSome_iff_exists.1 hwrite
  have hparents : ((Session.host refusal).makeParents path).run session = (.ok (), session) := by
    change ((if (session.disk.makeParents path).2 then Except.ok () else .error refusal),
      { session with disk := (session.disk.makeParents path).1 }) = _
    rw [hmade]
    rfl
  rw [carryOut_bind, carryOut_accept, hparents]
  simp only [Except.mapError, Stop.refusing]
  rw [carryOut_accept, Session.run_writeFile, hwrite]
  rfl

section

variable {contents : Bytes}

theorem exists_run_written (hload : Workspace.load contents = .ok [Block.text "hi"]) :
    ∃ after, carryOut (inputSession contents)
      (run (Session.host "refused") .standard ⟨"in.xml", some "hi.py", .python, false⟩) = (.ok (), after) := by
  obtain ⟨begun, hbegun, hrun⟩ := (Session.faithful_host "refused").run_program .standard
    (leads_inputSession "refused" contents) .python (some "hi.py")
  rw [outcome_of_load hload, Bundle.generate_greeting] at hrun
  have hdone : (carryOut begun (deliver (Session.host "refused") "'hi'\n" (some "hi.py"))).1 = .ok () :=
    store_inputSession (congrArg Prod.fst hbegun) rfl (by decide) _ _
  exact ⟨_, hrun.trans (Prod.ext hdone rfl)⟩

theorem exists_run_packed (hload : Workspace.load contents = .ok [Block.text "hi"]) :
    ∃ after, carryOut (inputSession contents)
      (run (Session.host "refused") .standard ⟨"in.xml", some "hi.zip", .python, true⟩) = (.ok (), after) := by
  have hf := Session.faithful_host "refused"
  obtain ⟨loaded, hloaded, hrun⟩ := hf.run_bundle .standard (leads_inputSession "refused" contents) .python "hi.zip"
  rw [hload] at hrun
  obtain ⟨bytes, hbytes⟩ := Bundle.exists_pack_greeting
  obtain ⟨reported, hreported, hstore⟩ := writeBundle_of_packed hf.toWatched hbytes loaded
    (fun stage => some (progressLine (behindLoading stage))) "hi.zip"
  have hstored : (carryOut reported (do
      accept .refused ((Session.host "refused").makeParents "hi.zip")
      accept (.unwritable "hi.zip") ((Session.host "refused").writeFile "hi.zip" bytes))).1 = .ok () :=
    store_inputSession (congrArg Prod.fst (hreported.trans hloaded)) rfl (by decide) _ _
  exact ⟨_, (hrun.trans hstore).trans (Prod.ext hstored rfl)⟩

end

/-- the program of a text is printed, written beside the text, and packed beside it with the others -/
theorem greeting_routes_agree :
    ∃ contents printing writing packing,
      Packer.standard.GivesBack ∧
      (Session.host "refused").Leads (inputSession contents) "in.xml" "/work/in.xml" contents ∧
      carryOut (inputSession contents) (run (Session.host "refused") .standard ⟨"in.xml", none, .python, false⟩) =
        (.ok (), printing) ∧
      printing.printed = "'hi'\n" ∧
      carryOut (inputSession contents) (run (Session.host "refused") .standard ⟨"in.xml", some "hi.py", .python, false⟩) =
        (.ok (), writing) ∧
      (∃ written, (Session.host "refused").Leads writing "hi.py" written (Bytes.ofText "'hi'\n")) ∧
      carryOut (inputSession contents) (run (Session.host "refused") .standard ⟨"in.xml", some "hi.zip", .python, true⟩) =
        (.ok (), packing) ∧
      ∃ written packed, (Session.host "refused").Leads packing "hi.zip" written packed ∧
        Bundle.ofBytes packed = .ok
          [⟨.javascript, "'hi';\n"⟩, ⟨.dart, "main() \x7b\n  'hi';\n\x7d\n"⟩, ⟨.python, "'hi'\n"⟩] := by
  have hallowed : ∀ c ∈ "hi".toList, Markup.Version.v10.allows c := List.all_eq_true.1 (by decide)
  obtain ⟨contents, hload⟩ : ∃ contents, Workspace.load contents = .ok [Block.text "hi"] :=
    ⟨_, Workspace.load_textDocument hallowed⟩
  have hfile := leads_inputSession "refused" contents
  obtain ⟨hprogram, hprints, hprinted, hwritten, hpacked, -⟩ :=
    output_routes_agree (Session.faithful_host "refused") Packer.givesBack_standard hfile
  have hsource := fun language => (hprogram language _).2 ⟨_, hload, Bundle.generate_greeting language⟩
  have hsame : ∀ language source,
      (carryOut (inputSession contents) (generateFile (Session.host "refused") language "in.xml")).1 = .ok source →
        source = Bundle.greeting language := fun language source h => Except.ok.inj (h.symm.trans (hsource language))
  have hprint := hprints .python _ (hsource .python)
  obtain ⟨printed, hs, htext⟩ := hprinted .python _ (Prod.ext hprint rfl)
  rw [hsame .python printed hs] at htext
  obtain ⟨writing, hwriting⟩ := exists_run_written hload
  obtain ⟨source, hs, hleads⟩ := hwritten .python "hi.py" _ hwriting
  rw [hsame .python source hs] at hleads
  obtain ⟨packing, hpacking⟩ := exists_run_packed hload
  obtain ⟨programs, packed, hprograms, ⟨written, hfound⟩, hread⟩ := hpacked .python "hi.zip" _ hpacking
  obtain rfl : programs = Bundle.greeting := funext fun language => hsame language _ (hprograms language)
  have hlength : ∀ blocks, Workspace.load contents = .ok blocks → blocks.length < twoTo 64 := by
    intro blocks hblocks
    rw [← Except.ok.inj (hload.symm.trans hblocks)]
    decide
  exact ⟨contents, _, writing, packing, Packer.givesBack_standard, hfile, Prod.ext hprint rfl, htext, hwriting, hleads,
    hpacking, written, packed, hfound, hread hlength⟩

end Blockwork.Command
