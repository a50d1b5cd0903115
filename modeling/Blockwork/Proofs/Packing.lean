/-
Packers that give back what was packed.

- `Packer.GivesBack`: values are printed as they are laid out, and an archive is read back file by file.
- `Bundle.bytes_eq_pack`: a bundle is packed as its files, once its manifest is printed.
- `Packer.givesBack_standard`: the packer of this library is one of them. It takes few and short files of different
  names, `Packer.pack_standard`.
-/
import Blockwork.Bundle.Packer
import Blockwork.Proofs.ArchiveLayout

namespace Blockwork

structure Packer.GivesBack (packer : Packer) : Prop where
  print : ∀ value, packer.print value = .ok (String.ofList (value.render 0))
  pack : ∀ files bytes, packer.pack files = .ok bytes →
    ∃ archive, Archive.ofBytes? bytes = some archive ∧
      archive.files = files.map fun (name, content) => (name, .content content)

theorem Bundle.bytes_eq_pack {packer : Packer} {topBlocks : Nat} {programs : List Program} {text : String}
    (h : packer.print (manifest topBlocks programs) = .ok text) :
    bytes packer topBlocks programs = packer.pack ((manifestFile, Bytes.ofText text) ::
      programs.map fun program => (program.language.programFile, Bytes.ofText program.source)) := by
  simp only [bytes, Packer.pack, Packer.addFiles, Packer.addFile, h, bind, Except.bind]
  cases packer.startFile packer.start manifestFile with
  | error cause => rfl
  | ok state =>
    dsimp only
    cases packer.write state (Bytes.ofText text) <;> rfl

namespace Packer

/-! ## The packer of this library -/

/-- the content of a file goes in behind its name, in front of the files before it -/
theorem addFile_standard {state after : List (String × Bytes)} {name : String} {content : Bytes} :
    standard.addFile state name content = .ok after ↔ name ∉ state.map Prod.fst ∧ after = (name, content) :: state := by
  change (startNamed state name >>= fun state => writeLast state content) = .ok after ↔ _
  unfold startNamed
  split_ifs with hname
  · exact iff_of_false (fun h => nomatch h) fun h => h.1 hname
  · rw [and_iff_right hname, eq_comm (a := after)]
    exact Iff.of_eq (Except.ok.injEq ((name, content) :: state) after)

theorem addFiles_standard {files state after : List (String × Bytes)}
    (h : standard.addFiles state files = .ok after) : after = files.reverse ++ state := by
  induction files generalizing state with
  | nil => exact (Except.ok.inj h).symm
  | cons file rest ih =>
    obtain ⟨name, content⟩ := file
    change (standard.addFile state name content >>= fun state => standard.addFiles state rest) = .ok after at h
    cases hfirst : standard.addFile state name content with
    | error cause =>
      rw [hfirst] at h
      cases h
    | ok between =>
      rw [hfirst] at h
      obtain ⟨-, rfl⟩ := addFile_standard.1 hfirst
      rw [ih h, List.reverse_cons, List.append_assoc]
      rfl

theorem finish_standard (state : List (String × Bytes)) :
    standard.finish state = match Archive.write? state.reverse with
      | some packed => .ok packed
      | none => .error "The archive is too large." := rfl

/-- **The packer of this library gives back** what was packed. -/
theorem givesBack_standard : standard.GivesBack where
  print _ := rfl
  pack files bytes h := by
    unfold Packer.pack at h
    cases hall : standard.addFiles standard.start files with
    | error cause =>
      rw [hall] at h
      cases h
    | ok state =>
      rw [hall] at h
      obtain rfl : state = files.reverse := (addFiles_standard hall).trans (List.append_nil _)
      have hfinish := h.symm.trans (finish_standard files.reverse)
      rw [List.reverse_reverse] at hfinish
      cases hwrite : Archive.write? files with
      | none =>
        rw [hwrite] at hfinish
        cases hfinish
      | some packed =>
        rw [hwrite] at hfinish
        obtain rfl := Except.ok.inj hfinish
        exact Archive.write?_files hwrite

/-- files of different names go in one after the other -/
theorem addFiles_of_nodup {files state : List (String × Bytes)} (h : ((files.reverse ++ state).map Prod.fst).Nodup) :
    standard.addFiles state files = .ok (files.reverse ++ state) := by
  induction files generalizing state with
  | nil => rfl
  | cons file rest ih =>
    obtain ⟨name, content⟩ := file
    rw [List.reverse_cons, List.append_assoc, List.singleton_append] at h ⊢
    have hname : name ∉ state.map Prod.fst := by
      rw [List.map_append, List.map_cons] at h
      exact (List.nodup_cons.1 h.of_append_right).1
    change (standard.addFile state name content >>= fun state => standard.addFiles state rest) = _
    rw [addFile_standard.2 ⟨hname, rfl⟩]
    exact ih h

/-- few and short files of different names are taken -/
theorem pack_standard {files : List (String × Bytes)} (hn : (files.map Prod.fst).Nodup) (hcount : files.length ≤ 0x1000)
    (hfiles : ∀ file ∈ files, Archive.IsShort file.1 file.2) : ∃ bytes, standard.pack files = .ok bytes := by
  have hall : standard.addFiles [] files = .ok files.reverse := by
    rw [addFiles_of_nodup, List.append_nil]
    rw [List.append_nil, List.map_reverse]
    exact List.nodup_reverse.2 hn
  obtain ⟨packed, hwrite⟩ := Option.isSome_iff_exists.1 (Archive.write?_isSome hcount hfiles)
  refine ⟨packed, ?_⟩
  change (standard.addFiles [] files >>= standard.finish) = _
  rw [hall]
  change standard.finish files.reverse = _
  rw [finish_standard, List.reverse_reverse, hwrite]

end Packer

end Blockwork
