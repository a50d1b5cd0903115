/-
A bundle is read back as the programs it was packed from.

- `batch_of_generated`, `pack_of_stopped`: packing goes through all languages or stops at the first, because a workspace
  at which one language stops is one at which all do.
- `find_of_files`: in an archive of files with different names each is found by its name.
- `records_manifest`, `verified_manifest`: the manifest records the workspace, and vouches for the programs.
- `bundles_round_trip`: the main statement, for every packer that gives back what was packed.
-/
import Blockwork.Proofs.JsonText
import Blockwork.Proofs.Packing
import Blockwork.Proofs.Survey
import Blockwork.Proofs.TextLoading
import Blockwork.Proofs.Vouched

namespace Blockwork.Bundle

/-! ## Packing -/

/-- all languages together: every one of them stops in the same way, or none stops -/
theorem generate_all (blocks : List Block) :
    (∃ stop, ∀ language, generate language blocks = .error stop) ∨
      ∃ source : Language → String, ∀ language, generate language blocks = .ok (source language) := by
  by_cases hstops : ∃ language stop, generate language blocks = .error stop
  · obtain ⟨language, stop, hstop⟩ := hstops
    exact .inl ⟨stop, fun other => generate_error_congr other hstop⟩
  · have hsource : ∀ language, ∃ source, generate language blocks = .ok source := by
      intro language
      cases hg : generate language blocks with
      | error stop => exact absurd ⟨language, stop, hg⟩ hstops
      | ok source => exact ⟨source, rfl⟩
    choose source hsource using hsource
    exact .inr ⟨source, hsource⟩

/-- the programs of languages, each with its source -/
def programsOf (source : Language → String) (languages : List Language) : List Program :=
  languages.map fun language => ⟨language, source language⟩

theorem batch_of_generated {blocks : List Block} {source : Language → String}
    (h : ∀ language, generate language blocks = .ok (source language)) (languages : List Language) :
    batch blocks languages = ⟨programsOf source languages, none⟩ := by
  induction languages with
  | nil => rfl
  | cons language languages ih => simp [batch, h, ih, programsOf]

section

variable {packer : Packer} {blocks : List Block} {source : Language → String}

/-- what was generated is handed to the libraries, and fails only if they do -/
theorem pack_of_generated (h : ∀ language, generate language blocks = .ok (source language)) :
    (pack packer blocks).2 =
      (bytes packer blocks.length (programsOf source Language.all)).mapError fun cause => .refused (.packing cause) := by
  simp only [pack, batch_of_generated h]
  cases bytes packer blocks.length (programsOf source Language.all) <;> rfl

theorem pack_of_stopped {stop : Stop GenError} (h : ∀ language, generate language blocks = .error stop) :
    (pack packer blocks).2 = .error (stop.map .generation) := by
  simp only [pack, Language.all, batch, h]

/-- **Packing stops where generating does**, and in the same way. -/
theorem pack_error_iff (stop : Stop GenError) :
    (pack packer blocks).2 = .error (stop.map .generation) ↔ ∃ language, generate language blocks = .error stop := by
  rcases generate_all blocks with ⟨found, hfound⟩ | ⟨source, hsource⟩
  · have hmap : ∀ one other : Stop GenError, one.map PackError.generation = other.map .generation → one = other := by
      rintro (_ | _) (_ | _) <;> simp [Stop.map]
    rw [pack_of_stopped hfound]
    constructor
    · intro h
      exact ⟨.javascript, hmap _ _ (Except.error.inj h) ▸ hfound .javascript⟩
    · rintro ⟨language, hstop⟩
      rw [Except.error.inj ((hfound language).symm.trans hstop)]
  · rw [pack_of_generated hsource]
    refine iff_of_false (fun h => ?_) fun ⟨language, h⟩ => nomatch (hsource language).symm.trans h
    cases hbytes : bytes packer blocks.length (programsOf source Language.all) with
    | ok packed =>
      rw [hbytes] at h
      cases h
    | error cause =>
      rw [hbytes] at h
      cases stop <;> cases h

end

/-! ## Files by name -/

/-- **A file is found by its name**, if the names of the files are different. -/
theorem find_of_files {archive : Archive} (hn : (archive.files.map Prod.fst).Nodup) {name : String}
    {found : Archive.Found} (h : (name, found) ∈ archive.files) : archive.find name = found := by
  obtain ⟨entry, hentry, hfile⟩ := List.mem_map.1 h
  obtain ⟨rfl, rfl⟩ := Prod.mk.inj hfile
  have hsome : (archive.entries.reverse.find? (·.name == entry.name)).isSome := by
    rw [List.find?_isSome]
    exact ⟨entry, List.mem_reverse.2 hentry, beq_self_eq_true _⟩
  obtain ⟨other, hother⟩ := Option.isSome_iff_exists.1 hsome
  have hname : other.name = entry.name := by simpa using List.find?_some hother
  have hmem := List.mem_reverse.1 (List.mem_of_find?_eq_some hother)
  rw [Archive.files, List.map_map] at hn
  obtain rfl := List.inj_on_of_nodup_map hn hmem hentry hname
  rw [Archive.find, hother]

/-! ## The manifest -/

/-- what a manifest records about the workspace and its programs -/
structure Records (manifest : Json.Value) (topBlocks : Nat) (programs : List Program) : Prop where
  topBlocks : ∃ count, manifest.Has "top_blocks" count ∧ count.IsNatural topBlocks
  files : ∃ notes, manifest.Has "files" (.array notes) ∧
    List.Forall₂ (fun note program =>
      note.Has "name" (.string program.language.programFile) ∧
      note.Has "language" (.string program.language.name) ∧
      note.Has "md5" (.string (Digest.md5 (Bytes.ofText program.source)))) notes programs

theorem note_has (program : Program) :
    program.note.Has "name" (.string program.language.programFile) ∧
      program.note.Has "language" (.string program.language.name) ∧
      program.note.Has "md5" (.string (Digest.md5 (Bytes.ofText program.source))) :=
  ⟨Json.Value.member?_eq_some_iff.1 rfl, Json.Value.member?_eq_some_iff.1 rfl, Json.Value.member?_eq_some_iff.1 rfl⟩

theorem isNatural_ofNat (n : Nat) : (Json.Value.ofNat n).IsNatural n := by
  simp [Json.Value.ofNat, Json.Value.IsNatural, Decimal.readDigits_toDigits]

theorem records_manifest (topBlocks : Nat) (programs : List Program) :
    Records (manifest topBlocks programs) topBlocks programs := by
  refine ⟨⟨_, Json.Value.member?_eq_some_iff.1 rfl, isNatural_ofNat topBlocks⟩, _, Json.Value.member?_eq_some_iff.1 rfl, ?_⟩
  exact List.forall₂_map_left_iff.2 (List.forall₂_same.2 fun program _ => note_has program)

theorem fits_note (room : Nat) (program : Program) : program.note.Fits (room + 1) := by
  apply Json.Value.Fits.object
  intro member hmember
  simp only [List.mem_cons, List.not_mem_nil, or_false] at hmember
  rcases hmember with rfl | rfl | rfl
  all_goals exact .string room _

/-- the manifest is laid out so that it can be read back -/
theorem fits_manifest {topBlocks : Nat} (h : topBlocks < twoTo 64) (programs : List Program) :
    (manifest topBlocks programs).Fits 3 := by
  apply Json.Value.Fits.object
  intro member hmember
  simp only [List.mem_cons, List.not_mem_nil, or_false] at hmember
  rcases hmember with rfl | rfl | rfl | rfl
  · apply Json.Value.Fits.array
    intro note hnote
    obtain ⟨program, -, rfl⟩ := List.mem_map.1 hnote
    exact fits_note 0 program
  · exact .string 2 formatName
  · exact Json.Value.fits_ofNat 2 h
  · exact Json.Value.fits_ofNat 2 (by decide)

def manifestText (topBlocks : Nat) (programs : List Program) : String :=
  String.ofList ((manifest topBlocks programs).render 0)

theorem read?_manifestText {topBlocks : Nat} (h : topBlocks < twoTo 64) (programs : List Program) :
    Json.read? (manifestText topBlocks programs) = some (manifest topBlocks programs) :=
  Json.read?_render (fits_manifest h programs) (by decide) 0

/-- **The manifest vouches for the programs**, if their files and its own are found. -/
theorem verified_manifest {find : String → Archive.Found} {topBlocks : Nat} (h : topBlocks < twoTo 64)
    {programs : List Program}
    (hmanifest : find "manifest.json" = .content (Bytes.ofText (manifestText topBlocks programs)))
    (hprograms : ∀ program ∈ programs, find program.language.programFile = .content (Bytes.ofText program.source)) :
    Verified find programs := by
  refine .mk hmanifest (read?_manifestText h programs) (Json.Value.member?_eq_some_iff.1 rfl)
    (Json.Value.member?_eq_some_iff.1 rfl) (isNatural_ofNat 1) (Json.Value.member?_eq_some_iff.1 rfl) ?_
  refine List.forall₂_map_left_iff.2 (List.forall₂_same.2 fun program hm => ?_)
  obtain ⟨hname, hlanguage, hdigest⟩ := note_has program
  have hknown : Language.ofName? program.language.name = some program.language := by
    cases program.language <;> decide
  exact ⟨⟨_, hname, hprograms program hm⟩, ⟨_, hlanguage, hknown⟩, hdigest⟩

/-! ## Reading back -/

def filesOf (manifest : String) (source : Language → String) : List (String × Bytes) :=
  [("manifest.json", Bytes.ofText manifest), ("program.js", Bytes.ofText (source .javascript)),
    ("program.dart", Bytes.ofText (source .dart)), ("program.py", Bytes.ofText (source .python))]

/-- the libraries are handed these files, and nothing else -/
theorem pack_eq {packer : Packer} (hp : packer.GivesBack) {blocks : List Block} {source : Language → String}
    (h : ∀ language, generate language blocks = .ok (source language)) :
    (pack packer blocks).2 =
      (packer.pack (filesOf (manifestText blocks.length (programsOf source Language.all)) source)).mapError
        fun cause => .refused (.packing cause) := by
  rw [pack_of_generated h, bytes_eq_pack (hp.print _)]
  rfl

/-- **The bytes of a bundle are read as its programs.** -/
theorem ofBytes_of_pack {packer : Packer} (hp : packer.GivesBack) {topBlocks : Nat} (h : topBlocks < twoTo 64)
    {source : Language → String} {bytes : Bytes}
    (hpack : packer.pack (filesOf (manifestText topBlocks (programsOf source Language.all)) source) = .ok bytes) :
    (∃ archive, Archive.ofBytes? bytes = some archive ∧ archive.files =
      (filesOf (manifestText topBlocks (programsOf source Language.all)) source).map
        fun (name, content) => (name, .content content)) ∧
      ofBytes bytes = .ok (programsOf source Language.all) := by
  obtain ⟨archive, hread, hfiles⟩ := hp.pack _ _ hpack
  have hnodup : (archive.files.map Prod.fst).Nodup := by
    have hnames : ["manifest.json", "program.js", "program.dart", "program.py"].Nodup := by decide
    rw [hfiles]
    exact hnames
  have hmember : ∀ {name : String} {content : Bytes},
      (name, content) ∈ filesOf (manifestText topBlocks (programsOf source Language.all)) source →
        archive.find name = .content content := by
    intro name content hm
    refine find_of_files hnodup ?_
    rw [hfiles]
    exact List.mem_map_of_mem hm
  refine ⟨⟨archive, hread, hfiles⟩, ofBytes_eq_ok_iff.2 ⟨archive, hread, ?_⟩⟩
  refine verified_manifest h (hmember List.mem_cons_self) fun program hm => hmember (List.mem_cons_of_mem _ ?_)
  obtain ⟨language, -, rfl⟩ := List.mem_map.1 hm
  cases language <;> simp [Language.programFile, Language.extension]

/-- the same, from the programs that were generated -/
theorem ofBytes_of_generated {packer : Packer} (hp : packer.GivesBack) {blocks : List Block}
    (h : blocks.length < twoTo 64) {source : Language → String}
    (hsource : ∀ language, generate language blocks = .ok (source language)) {bytes : Bytes}
    (hpack : (pack packer blocks).2 = .ok bytes) : ofBytes bytes = .ok (programsOf source Language.all) := by
  rw [pack_eq hp hsource] at hpack
  cases hfiles : packer.pack (filesOf (manifestText blocks.length (programsOf source Language.all)) source) with
  | error cause =>
    rw [hfiles] at hpack
    cases hpack
  | ok packed =>
    rw [hfiles] at hpack
    cases hpack
    exact (ofBytes_of_pack hp h hfiles).2

/-- **Bundles round-trip**, with every packer that gives back what was packed. Packing a workspace is refused with a
cause exactly when some language refuses the workspace with it, and overflows exactly when the generation in some
language does. Otherwise the manifest records the number of blocks and the digest of each program, the libraries are
handed the manifest and the three programs in order, and packing fails exactly when they refuse these files. What is
packed has these files in order, and is read back as the programs. The length of a list is a number of 64 bits. -/
theorem bundles_round_trip {packer : Packer} (hp : packer.GivesBack) (blocks : List Block)
    (h : blocks.length < twoTo 64) :
    (∀ cause, (pack packer blocks).2 = .error (.refused (.generation cause)) ↔
      ∃ language, generate language blocks = .error (.refused cause)) ∧
    ((pack packer blocks).2 = .error .overflow ↔ ∃ language, generate language blocks = .error .overflow) ∧
    ((∀ language stop, generate language blocks ≠ .error stop) →
      ∃ (source : Language → String) (text : String) (manifest : Json.Value),
        (∀ language, generate language blocks = .ok (source language)) ∧
        Json.read? text = some manifest ∧
        Records manifest blocks.length
          [⟨.javascript, source .javascript⟩, ⟨.dart, source .dart⟩, ⟨.python, source .python⟩] ∧
        (∀ cause, (pack packer blocks).2 = .error (.refused (.packing cause)) ↔
          packer.pack [("manifest.json", Bytes.ofText text), ("program.js", Bytes.ofText (source .javascript)),
            ("program.dart", Bytes.ofText (source .dart)), ("program.py", Bytes.ofText (source .python))] =
              .error cause) ∧
        (∀ bytes, (pack packer blocks).2 = .ok bytes ↔
          packer.pack [("manifest.json", Bytes.ofText text), ("program.js", Bytes.ofText (source .javascript)),
            ("program.dart", Bytes.ofText (source .dart)), ("program.py", Bytes.ofText (source .python))] =
              .ok bytes) ∧
        ∀ bytes, (pack packer blocks).2 = .ok bytes →
          (∃ archive, Archive.ofBytes? bytes = some archive ∧ archive.files =
            [("manifest.json", .content (Bytes.ofText text)),
              ("program.js", .content (Bytes.ofText (source .javascript))),
              ("program.dart", .content (Bytes.ofText (source .dart))),
              ("program.py", .content (Bytes.ofText (source .python)))]) ∧
          ofBytes bytes =
            .ok [⟨.javascript, source .javascript⟩, ⟨.dart, source .dart⟩, ⟨.python, source .python⟩]) := by
  refine ⟨fun cause => pack_error_iff (.refused cause), pack_error_iff .overflow, fun hmade => ?_⟩
  rcases generate_all blocks with ⟨stop, hstop⟩ | ⟨source, hsource⟩
  · exact absurd (hstop .javascript) (hmade .javascript stop)
  have hpack := pack_eq hp hsource
  have hok : ∀ bytes, (pack packer blocks).2 = .ok bytes ↔
      packer.pack (filesOf (manifestText blocks.length (programsOf source Language.all)) source) = .ok bytes := by
    intro bytes
    rw [hpack]
    cases packer.pack _ <;> simp [Except.mapError]
  have hrefused : ∀ cause, (pack packer blocks).2 = .error (.refused (.packing cause)) ↔
      packer.pack (filesOf (manifestText blocks.length (programsOf source Language.all)) source) = .error cause := by
    intro cause
    rw [hpack]
    cases packer.pack _ <;> simp [Except.mapError]
  exact ⟨source, _, _, hsource, read?_manifestText h _, records_manifest _ _, hrefused, hok,
    fun bytes hbytes => ofBytes_of_pack hp h ((hok bytes).1 hbytes)⟩

/-! ## A text -/

/-- the programs of a text -/
def greeting : Language → String
  | .javascript => "'hi';\n"
  | .dart => "main() \x7b\n  'hi';\n\x7d\n"
  | .python => "'hi'\n"

theorem generate_greeting (language : Language) : generate language [Block.text "hi"] = .ok (greeting language) := by
  rw [generate_text]
  cases language <;> rfl

/-- its bundle is small enough for the packer of this library -/
theorem exists_pack_greeting : ∃ bytes, (pack .standard [Block.text "hi"]).2 = .ok bytes := by
  rw [pack_eq Packer.givesBack_standard generate_greeting]
  have htext : (manifestText 1 (programsOf greeting Language.all)).toList.length ≤ 0x1000 := by
    rw [manifestText, String.toList_ofList]
    decide +kernel
  have hmanifest : Archive.IsShort "manifest.json" (Bytes.ofText (manifestText 1 (programsOf greeting Language.all))) := by
    generalize manifestText 1 (programsOf greeting Language.all) = text at htext
    exact ⟨by decide, by decide, (Bytes.length_ofText_le text).trans (by omega)⟩
  have hnames : ((filesOf (manifestText 1 (programsOf greeting Language.all)) greeting).map Prod.fst).Nodup := by
    have hall : ["manifest.json", "program.js", "program.dart", "program.py"].Nodup := by decide
    exact hall
  obtain ⟨bytes, hbytes⟩ := Packer.pack_standard hnames (by decide) <| by
    simp only [filesOf, List.forall_mem_cons]
    exact ⟨hmanifest, ⟨by decide, by decide, by decide⟩, ⟨by decide, by decide, by decide⟩,
      ⟨by decide, by decide, by decide⟩, List.forall_mem_nil _⟩
  exact ⟨bytes, congrArg (Except.mapError _) hbytes⟩

theorem greeting_round_trips :
    Packer.standard.GivesBack ∧ [Block.text "hi"].length < twoTo 64 ∧
      ∃ bytes, (pack .standard [Block.text "hi"]).2 = .ok bytes ∧
        ofBytes bytes = .ok
          [⟨.javascript, "'hi';\n"⟩, ⟨.dart, "main() \x7b\n  'hi';\n\x7d\n"⟩, ⟨.python, "'hi'\n"⟩] := by
  have hlength : [Block.text "hi"].length < twoTo 64 := by decide
  have hmade : ∀ language stop, generate language [Block.text "hi"] ≠ .error stop := by
    intro language stop hstop
    cases hstop.symm.trans (generate_greeting language)
  obtain ⟨source, _, _, hsource, -, -, -, -, hread⟩ :=
    (bundles_round_trip Packer.givesBack_standard _ hlength).2.2 hmade
  obtain rfl : source = greeting := funext fun language =>
    Except.ok.inj ((hsource language).symm.trans (generate_greeting language))
  obtain ⟨bytes, hbytes⟩ := exists_pack_greeting
  exact ⟨Packer.givesBack_standard, hlength, bytes, hbytes, (hread bytes hbytes).2⟩

end Blockwork.Bundle
