/-
A bundle is read exactly when its manifest vouches for every program in it.

- `Json.Value.Has`, `Json.Value.IsNatural`: what a member of an object and a number written in digits are, apart from how
  they are looked up.
- `Vouches`: a note of the manifest stands for a program. It names a file with exactly the text of the program, the
  language and the digest of the text.
- `Verified`: the manifest is there, is of this format and version, and its notes vouch for the programs one by one.
- `read_eq_ok_iff`: reading succeeds exactly then, with these programs. `reading_verifies` says so of files found by name
  and of the bytes of an archive, and that anything else is refused.
-/
import Blockwork.Bundle.Read
import Blockwork.Proofs.Coding

namespace Blockwork

/-! ## Texts and members -/

/-- bytes code for a text exactly when they are its bytes -/
theorem Bytes.text?_eq_some_iff {bytes : Bytes} {text : String} : bytes.text? = some text ↔ bytes = ofText text := by
  constructor
  · intro h
    rw [text?, String.fromUTF8?] at h
    split_ifs at h with hvalid
    obtain rfl := Option.some.inj h
    exact List.toList_toArray.symm
  · rintro rfl
    exact text?_ofText text

namespace Json.Value

/-- the value of a member of an object: the last one of its name -/
inductive Has : Value → String → Value → Prop
  | mk {before after : List (String × Value)} {name : String} {member : Value} :
      (∀ other ∈ after, other.1 ≠ name) → Has (.object (before ++ (name, member) :: after)) name member

/-- a natural number, written in digits alone -/
def IsNatural (n : Nat) : Value → Prop
  | number numeral => numeral.negative = false ∧ numeral.fraction = [] ∧ numeral.exponent = [] ∧
      Text.readDigits numeral.whole = n
  | _ => False

theorem member?_eq_some_iff {value member : Value} {name : String} :
    value.member? name = some member ↔ value.Has name member := by
  constructor
  · intro h
    cases value with
    | object members =>
      obtain ⟨after, before, hsplit, hafter⟩ := List.lookup_eq_some_iff.1 h
      have hmembers : members = before.reverse ++ (name, member) :: after.reverse := by
        rw [← List.reverse_reverse members, hsplit]
        simp
      rw [hmembers]
      refine .mk fun other hother => ?_
      exact (bne_iff_ne.1 (hafter other (List.mem_reverse.1 hother))).symm
    | _ => cases h
  · rintro ⟨hafter⟩
    rename_i before after
    refine List.lookup_eq_some_iff.2 ⟨after.reverse, before.reverse, by simp, fun other hother => ?_⟩
    exact bne_iff_ne.2 (hafter other (List.mem_reverse.1 hother)).symm

theorem text?_eq_some_iff {value : Value} {text : String} : value.text? = some text ↔ value = .string text := by
  cases value <;> simp [text?]

theorem items?_eq_some_iff {value : Value} {items : List Value} : value.items? = some items ↔ value = .array items := by
  cases value <;> simp [items?]

theorem natural?_eq_some_iff {value : Value} {n : Nat} (hn : n < twoTo 64) :
    value.natural? = some n ↔ value.IsNatural n := by
  cases value with
  | number numeral =>
    simp only [natural?, IsNatural]
    split_ifs with hplain
    · have hplain' : (numeral.negative = false ∧ numeral.fraction = []) ∧ numeral.exponent = [] := by
        simpa using hplain
      obtain ⟨⟨hsign, hfraction⟩, hexponent⟩ := hplain'
      simp only [Option.filter_eq_some_iff, Option.some.injEq, decide_eq_true_eq, hsign, hfraction, hexponent,
        true_and]
      exact ⟨And.left, fun h => ⟨h, h ▸ hn⟩⟩
    · refine iff_of_false (by simp) ?_
      rintro ⟨hsign, hfraction, hexponent, -⟩
      exact hplain (by simp [hsign, hfraction, hexponent])
  | _ => simp [natural?, IsNatural]

end Json.Value

namespace Bundle

open Archive (Found)

/-! ## One note -/

/-- a note of the manifest vouches for a program: the file it names holds exactly the text of the program, and the
language and the digest are those of the program -/
structure Vouches (find : String → Found) (note : Json.Value) (program : Program) : Prop where
  file : ∃ name, note.Has "name" (.string name) ∧ find name = .content (Bytes.ofText program.source)
  language : ∃ name, note.Has "language" (.string name) ∧ Language.ofName? name = some program.language
  digest : note.Has "md5" (.string (Digest.md5 (Bytes.ofText program.source)))

section

variable {α β : Type} {find : String → Found} {note : Json.Value} {name text : String}

theorem bind_eq_ok_iff {first : Except BundleError α} {second : α → Except BundleError β} {b : β} :
    first >>= second = .ok b ↔ ∃ a, first = .ok a ∧ second a = .ok b := by
  cases first with
  | error cause =>
    refine iff_of_false (fun h => nomatch h) ?_
    rintro ⟨a, ha, -⟩
    cases ha
  | ok a =>
    constructor
    · exact fun h => ⟨a, rfl, h⟩
    · rintro ⟨_, ⟨⟩, h⟩
      exact h

theorem memberText_eq_ok_iff : memberText note name = .ok text ↔ note.Has name (.string text) := by
  rw [← Json.Value.member?_eq_some_iff, memberText]
  cases hmember : (note.member? name).bind Json.Value.text? with
  | none =>
    refine iff_of_false (fun h => nomatch h) fun h => ?_
    rw [h] at hmember
    cases hmember
  | some found =>
    obtain ⟨member, hfound, htext⟩ := Option.bind_eq_some_iff.1 hmember
    rw [Json.Value.text?_eq_some_iff] at htext
    subst htext
    simp [hfound]

theorem languageNamed_eq_ok_iff {language : Language} :
    languageNamed name = .ok language ↔ Language.ofName? name = some language := by
  unfold languageNamed
  cases Language.ofName? name <;> simp

theorem fileText_eq_ok_iff : fileText find name = .ok text ↔ find name = .content (Bytes.ofText text) := by
  unfold fileText
  cases hfind : find name with
  | absent => simp
  | damaged => simp
  | content bytes =>
    rw [Found.content.injEq, ← Bytes.text?_eq_some_iff]
    dsimp only
    cases bytes.text? <;> simp

/-- **A note gives a program exactly when it vouches for it.** -/
theorem program_eq_ok_iff {program : Program} : Bundle.program find note = .ok program ↔ Vouches find note program := by
  simp only [Bundle.program, bind_eq_ok_iff, memberText_eq_ok_iff, languageNamed_eq_ok_iff, fileText_eq_ok_iff]
  constructor
  · rintro ⟨file, hfile, word, hword, language, hlanguage, digest, hdigest, source, hsource, hprogram⟩
    split_ifs at hprogram with hsame
    obtain rfl : (⟨language, source⟩ : Program) = program := Except.ok.inj hprogram
    exact ⟨⟨file, hfile, hsource⟩, ⟨word, hword, hlanguage⟩, by rw [← hsame] at hdigest; exact hdigest⟩
  · rintro ⟨⟨file, hfile, hsource⟩, ⟨word, hword, hlanguage⟩, hdigest⟩
    refine ⟨file, hfile, word, hword, program.language, hlanguage, _, hdigest, program.source, hsource, ?_⟩
    exact if_pos rfl

end

/-! ## The manifest -/

/-- a bundle whose files are found by name holds these programs, and its manifest vouches for each of them -/
inductive Verified (find : String → Found) (programs : List Program) : Prop
  | mk {text : String} {manifest version : Json.Value} {notes : List Json.Value} :
      find "manifest.json" = .content (Bytes.ofText text) → Json.read? text = some manifest →
      manifest.Has "format" (.string "blockgen-bundle") → manifest.Has "version" version → version.IsNatural 1 →
      manifest.Has "files" (.array notes) → List.Forall₂ (Vouches find) notes programs → Verified find programs

section

variable {find : String → Found} {programs : List Program}

/-- the programs of notes are as many as the notes, in their order -/
theorem programs_eq_ok_iff {notes : List Json.Value} :
    Bundle.programs find notes = .ok programs ↔ List.Forall₂ (Vouches find) notes programs := by
  induction notes generalizing programs with
  | nil =>
    rw [Bundle.programs, List.forall₂_nil_left_iff, Except.ok.injEq, eq_comm]
  | cons note rest ih =>
    simp only [Bundle.programs, bind_eq_ok_iff, program_eq_ok_iff, ih, List.forall₂_cons_left_iff]
    constructor
    · rintro ⟨first, hfirst, others, hothers, hprograms⟩
      exact ⟨first, others, hfirst, hothers, (Except.ok.inj hprograms).symm⟩
    · rintro ⟨first, others, hfirst, hothers, rfl⟩
      exact ⟨first, hfirst, others, hothers, rfl⟩

/-- a default that is not the value looked for does not give it -/
theorem getD_eq_iff {α : Type} {found : Option α} {default value : α} (h : default ≠ value) :
    found.getD default = value ↔ found = some value := by
  cases found <;> simp [h]

theorem notes_eq_ok_iff {manifest : Json.Value} {notes : List Json.Value} :
    Bundle.notes manifest = .ok notes ↔ manifest.Has "format" (.string formatName) ∧
      (∃ version, manifest.Has "version" version ∧ version.IsNatural formatVersion) ∧
      manifest.Has "files" (.array notes) := by
  have hformat : ((manifest.member? "format").bind Json.Value.text?).getD "" = formatName ↔
      manifest.Has "format" (.string formatName) := by
    rw [getD_eq_iff (by decide), Option.bind_eq_some_iff]
    simp only [Json.Value.text?_eq_some_iff, exists_eq_right, Json.Value.member?_eq_some_iff]
  have hversion : ((manifest.member? "version").bind Json.Value.natural?).getD 0 = formatVersion ↔
      ∃ version, manifest.Has "version" version ∧ version.IsNatural formatVersion := by
    rw [getD_eq_iff (by decide), Option.bind_eq_some_iff]
    simp only [Json.Value.natural?_eq_some_iff (show formatVersion < twoTo 64 by decide),
      Json.Value.member?_eq_some_iff]
  have hfiles : (manifest.member? "files").bind Json.Value.items? = some notes ↔ manifest.Has "files" (.array notes) := by
    rw [Option.bind_eq_some_iff]
    simp only [Json.Value.items?_eq_some_iff, exists_eq_right, Json.Value.member?_eq_some_iff]
  rw [← hformat, ← hversion, ← hfiles, Bundle.notes]
  split_ifs with h1 h2
  · simp [h1]
  · simp [h2]
  · rw [not_not] at h1 h2
    cases (manifest.member? "files").bind Json.Value.items? <;> simp [h1, h2]

/-- **Reading succeeds exactly with verified programs.** -/
theorem read_eq_ok_iff : read find = .ok programs ↔ Verified find programs := by
  simp only [read, bind_eq_ok_iff, fileText_eq_ok_iff]
  constructor
  · rintro ⟨text, htext, h⟩
    split at h
    next manifest hmanifest =>
      obtain ⟨notes, hnotes, hprograms⟩ := bind_eq_ok_iff.1 h
      obtain ⟨hformat, ⟨version, hversion, hone⟩, hfiles⟩ := notes_eq_ok_iff.1 hnotes
      exact .mk htext hmanifest hformat hversion hone hfiles (programs_eq_ok_iff.1 hprograms)
    next => cases h
  · rintro ⟨htext, hmanifest, hformat, hversion, hone, hfiles, hprograms⟩
    refine ⟨_, htext, ?_⟩
    rw [hmanifest]
    exact bind_eq_ok_iff.2 ⟨_, notes_eq_ok_iff.2 ⟨hformat, ⟨_, hversion, hone⟩, hfiles⟩, programs_eq_ok_iff.2 hprograms⟩

theorem ofBytes_eq_ok_iff {bytes : Bytes} :
    ofBytes bytes = .ok programs ↔ ∃ archive, Archive.ofBytes? bytes = some archive ∧ Verified archive.find programs := by
  unfold ofBytes
  cases Archive.ofBytes? bytes with
  | none => simp
  | some archive => simp [read_eq_ok_iff]

end

theorem error_iff_not_ok {α : Type} {outcome : Except BundleError α} :
    (∃ cause, outcome = .error cause) ↔ ¬ ∃ a, outcome = .ok a := by
  cases outcome <;> simp

/-- **Reading a bundle verifies it.** Whatever a name gives in an archive, reading yields programs exactly when the
manifest is there, is of this format and version, and its notes vouch for these programs, one note for each and in
order; in every other case there is a cause and no program. The bytes of a bundle are read in the same way, if they are
an archive. -/
theorem reading_verifies :
    (∀ (find : String → Found) (programs : List Program), read find = .ok programs ↔ Verified find programs) ∧
    (∀ find : String → Found, (∃ cause, read find = .error cause) ↔ ¬ ∃ programs, Verified find programs) ∧
    (∀ (bytes : Bytes) (programs : List Program), ofBytes bytes = .ok programs ↔
      ∃ archive, Archive.ofBytes? bytes = some archive ∧ Verified archive.find programs) ∧
    ∀ bytes : Bytes, (∃ cause, ofBytes bytes = .error cause) ↔
      ¬ ∃ programs archive, Archive.ofBytes? bytes = some archive ∧ Verified archive.find programs := by
  refine ⟨fun _ _ => read_eq_ok_iff, fun find => ?_, fun _ _ => ofBytes_eq_ok_iff, fun bytes => ?_⟩
  · simp only [error_iff_not_ok, read_eq_ok_iff]
  · simp only [error_iff_not_ok, ofBytes_eq_ok_iff]

end Bundle

end Blockwork
