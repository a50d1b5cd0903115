/-
Files are found again where they were written.

- `pieces_intercalate`: names without slashes come apart at the slashes between them.
- `walk_append`, `Grows.walk`: a walk goes on where its first part ends, and finds its way on a disk with more files.
- `Opens`: every folder on the way to a location is there, and every name on the way is plain. `Opens.walk` says that
  walks only lead to such locations, so `walk_down` finds each of them again by its names alone.
- `read?_fullName`, `written_found`: a file that was written is found by its path, and read by its full name.
-/
import Mathlib.Data.List.Infix
import Blockwork.Files.Disk

namespace Blockwork.Files

/-! ## Pieces between slashes -/

namespace Path

theorem pieces_slash (cs : List Char) : pieces ('/' :: cs) = [] :: pieces cs := rfl

theorem pieces_cons {c : Char} (hc : c ≠ '/') (cs : List Char) :
    pieces (c :: cs) = (c :: (pieces cs).headD []) :: (pieces cs).tail := by
  rw [pieces]
  · cases pieces cs <;> rfl
  · exact hc

theorem slash_not_mem_pieces (cs : List Char) : ∀ piece ∈ pieces cs, '/' ∉ piece := by
  induction cs with
  | nil => simp [pieces]
  | cons c cs ih =>
    by_cases hc : c = '/'
    · subst hc
      simpa [pieces_slash] using ih
    · rw [pieces_cons hc]
      cases hp : pieces cs with
      | nil => simp [Ne.symm hc]
      | cons first rest =>
        rw [hp] at ih
        obtain ⟨hfirst, hrest⟩ := List.forall_mem_cons.1 ih
        exact List.forall_mem_cons.2 ⟨by simp [Ne.symm hc, hfirst], hrest⟩

/-- a name and a slash are the first piece of what they stand in front of -/
theorem pieces_append_slash {name : List Char} (hn : '/' ∉ name) (cs : List Char) :
    pieces (name ++ '/' :: cs) = name :: pieces cs := by
  induction name with
  | nil => rfl
  | cons c name ih =>
    obtain ⟨hc, hn⟩ := List.ne_and_not_mem_of_not_mem_cons hn
    simp only [List.cons_append, pieces_cons (Ne.symm hc), ih hn, List.headD_cons, List.tail_cons]

theorem pieces_name {name : List Char} (hn : '/' ∉ name) : pieces name = [name] := by
  induction name with
  | nil => rfl
  | cons c name ih =>
    obtain ⟨hc, hn⟩ := List.ne_and_not_mem_of_not_mem_cons hn
    simp only [pieces_cons (Ne.symm hc), ih hn, List.headD_cons, List.tail_cons]

/-- **Names come apart** at the slashes between them. -/
theorem pieces_intercalate {names : List (List Char)} (hne : names ≠ []) (hn : ∀ name ∈ names, '/' ∉ name) :
    pieces (List.intercalate ['/'] names) = names := by
  induction names with
  | nil => exact absurd rfl hne
  | cons name names ih =>
    obtain ⟨hname, hnames⟩ := List.forall_mem_cons.1 hn
    cases names with
    | nil => simpa using pieces_name hname
    | cons next rest =>
      rw [List.intercalate_cons_cons, List.append_assoc, List.singleton_append, pieces_append_slash hname,
        ih (List.cons_ne_nil _ _) hnames]

end Path

/-! ## Plain names -/

/-- a name that leads down: it is not empty, not a point or two of them, and has no slash -/
def IsPlain (name : String) : Prop :=
  Step.ofName name = .down name ∧ '/' ∉ name.toList

/-- a step that leads down does so by a plain name -/
def Step.IsPlain : Step → Prop
  | down name => Files.IsPlain name
  | _ => True

theorem Step.isPlain_ofName {name : String} (h : '/' ∉ name.toList) : (Step.ofName name).IsPlain := by
  unfold Step.ofName
  split
  · trivial
  · trivial
  · trivial
  · rename_i hempty hpoint hpoints
    refine ⟨?_, h⟩
    unfold Step.ofName
    split <;> simp_all

theorem Path.isPlain_steps (text : String) : ∀ step ∈ (Path.ofText text).steps, step.IsPlain := by
  intro step hstep
  obtain ⟨piece, hpiece, rfl⟩ := List.mem_map.1 hstep
  exact Step.isPlain_ofName (by simpa using Path.slash_not_mem_pieces _ piece hpiece)

theorem Path.steps_intercalate {names : List String} (hne : names ≠ []) (hn : ∀ name ∈ names, IsPlain name) :
    (Path.ofText (String.intercalate "/" names)).steps = names.map .down := by
  have hpieces : pieces (String.intercalate "/" names).toList = names.map String.toList := by
    rw [String.toList_intercalate]
    apply pieces_intercalate (by simpa using hne)
    intro name hname
    obtain ⟨plain, hplain, rfl⟩ := List.mem_map.1 hname
    exact (hn plain hplain).2
  simp only [ofText, hpieces, List.map_map]
  apply List.map_congr_left
  intro name hname
  simpa using (hn name hname).1

namespace Disk

variable {disk : Disk} {location : Location}

theorem isPlain_steps? {path : String} {steps : List Step} (h : disk.steps? path = some steps) :
    ∀ step ∈ steps, step.IsPlain := by
  simp only [steps?] at h
  split_ifs at h
  · exact Option.some.inj h ▸ Path.isPlain_steps _
  · exact Option.some.inj h ▸ Path.isPlain_steps _

/-! ## Walks -/

theorem walk_append (disk : Disk) (location : Location) (steps rest : List Step) :
    disk.walk location (steps ++ rest) = (disk.walk location steps).bind (disk.walk · rest) := by
  induction steps generalizing location with
  | nil => rfl
  | cons step steps ih =>
    cases step with
    | stay =>
      simp only [List.cons_append, walk, ih]
      split_ifs <;> rfl
    | up =>
      simp only [List.cons_append, walk, ih]
      split_ifs <;> rfl
    | down name =>
      simp only [List.cons_append, walk, ih]
      split_ifs <;> rfl

/-- every name on the way to a location is plain, and every folder on the way is there -/
structure Opens (disk : Disk) (location : Location) : Prop where
  plain : ∀ name ∈ location, IsPlain name
  folders : ∀ front, front <+: location → front ≠ location → disk.hasFolder front

theorem opens_nil (disk : Disk) : disk.Opens [] where
  plain _ hname := absurd hname List.not_mem_nil
  folders _ hfront hne := absurd (List.prefix_nil.1 hfront) hne

namespace Opens

theorem of_prefix {front : Location} (h : disk.Opens location) (hf : front <+: location) : disk.Opens front where
  plain name hname := h.plain name (hf.subset hname)
  folders shorter hs hne := by
    refine h.folders shorter (hs.trans hf) ?_
    rintro rfl
    exact hne (hs.eq_of_length_le hf.length_le)

theorem down {name : String} (h : disk.Opens location) (hfolder : disk.hasFolder location) (hn : IsPlain name) :
    disk.Opens (location ++ [name]) where
  plain other hother := by
    rcases List.mem_append.1 hother with hother | hother
    · exact h.plain other hother
    · rwa [List.mem_singleton.1 hother]
  folders front hf hne := by
    rcases List.prefix_concat_iff.1 hf with hf | hf
    · exact absurd hf hne
    · by_cases hsame : front = location
      · rwa [hsame]
      · exact h.folders front hf hsame

/-- **Walks lead through folders**, by plain names. -/
theorem walk {steps : List Step} {reached : Location} (h : disk.Opens location)
    (hs : ∀ step ∈ steps, step.IsPlain) (hw : disk.walk location steps = some reached) : disk.Opens reached := by
  induction steps generalizing location with
  | nil =>
    cases hw
    exact h
  | cons step steps ih =>
    obtain ⟨hstep, hsteps⟩ := List.forall_mem_cons.1 hs
    cases step with
    | stay =>
      simp only [Disk.walk] at hw
      split_ifs at hw
      exact ih h hsteps hw
    | up =>
      simp only [Disk.walk] at hw
      split_ifs at hw
      exact ih (h.of_prefix (List.dropLast_prefix location)) hsteps hw
    | down name =>
      simp only [Disk.walk] at hw
      split_ifs at hw with hfolder
      exact ih (h.down hfolder hstep) hsteps hw

end Opens

theorem walk_down (h : disk.Opens location) (hh : disk.has location) :
    disk.walk [] (location.map .down) = some location := by
  induction location using List.reverseRecOn with
  | nil => rfl
  | append_singleton front name ih =>
    have hfront : disk.hasFolder front :=
      h.folders front (List.prefix_append front [name]) (by simp)
    have hreached := ih (h.of_prefix (List.prefix_append front [name])) (by simp [has, hfront])
    rw [List.map_append, walk_append, hreached]
    simp [Disk.walk, hfront, hh]

/-! ## Full names -/

/-- the full name of a location leads down to it from the working folder -/
theorem steps?_fullName (hne : location ≠ []) (hp : ∀ name ∈ location, IsPlain name) :
    disk.steps? (disk.fullName location) = some (location.map .down) := by
  have htext : (disk.fullName location).toList =
      (disk.home.toList ++ ['/']) ++ (String.intercalate "/" location).toList := by
    obtain ⟨name, names, rfl⟩ := List.exists_cons_of_ne_nil hne
    simp [fullName, String.toList_intercalate]
  have hhome : (disk.home.toList ++ ['/']).isPrefixOf (disk.fullName location).toList := by
    rw [htext]
    exact List.isPrefixOf_iff_prefix.2 (List.prefix_append _ _)
  simp only [steps?, hhome, if_true]
  rw [htext, List.drop_left, String.ofList_toList, Path.steps_intercalate hne hp]

/-- **A file is read by its full name.** -/
theorem read?_fullName {content : Bytes} (hne : location ≠ []) (h : disk.Opens location)
    (hc : disk.file? location = some content) : disk.read? (disk.fullName location) = some content := by
  have hwalk := walk_down h (by simp [has, hc])
  simp [read?, locate?, steps?_fullName hne h.plain, hwalk, hc]

/-! ## Writing -/

theorem lookup_setFile (location other : Location) (content : Bytes) (files : List (Location × Bytes)) :
    (setFile location content files).lookup other = if other = location then some content else files.lookup other := by
  induction files with
  | nil => by_cases ho : other = location <;> simp [setFile, List.lookup_cons, beq_eq_decide, ho]
  | cons file files ih =>
    obtain ⟨l, c⟩ := file
    by_cases hl : l = location
    · subst hl
      by_cases ho : other = l <;> simp [setFile, List.lookup_cons, beq_eq_decide, ho]
    · by_cases ho : other = l
      · subst ho
        simp [setFile, hl]
      · simp [setFile, List.lookup_cons, beq_eq_decide, hl, ho, ih]

/-- a disk with more files, and the same folders -/
structure Grows (disk wider : Disk) : Prop where
  home : wider.home = disk.home
  folders : wider.folders = disk.folders
  files : ∀ location, (disk.file? location).isSome → (wider.file? location).isSome

namespace Grows

variable {wider : Disk}

theorem hasFolder (h : disk.Grows wider) (location : Location) : wider.hasFolder location = disk.hasFolder location := by
  simp only [Disk.hasFolder, h.folders]

theorem has (h : disk.Grows wider) (hh : disk.has location) : wider.has location := by
  simp only [Disk.has, h.hasFolder, Bool.or_eq_true] at hh ⊢
  exact hh.imp_right (h.files location)

theorem steps? (h : disk.Grows wider) (path : String) : wider.steps? path = disk.steps? path := by
  simp only [Disk.steps?, h.home]

/-- a walk finds its way on a disk with more files -/
theorem walk (h : disk.Grows wider) {steps : List Step} {reached : Location}
    (hw : disk.walk location steps = some reached) : wider.walk location steps = some reached := by
  induction steps generalizing location with
  | nil => exact hw
  | cons step steps ih =>
    cases step with
    | stay =>
      simp only [Disk.walk, h.hasFolder] at hw ⊢
      split_ifs at hw ⊢
      exact ih hw
    | up =>
      simp only [Disk.walk, h.hasFolder] at hw ⊢
      split_ifs at hw ⊢
      exact ih hw
    | down name =>
      simp only [Disk.walk, h.hasFolder] at hw ⊢
      split_ifs at hw with hfolder hthere
      rw [if_pos hfolder, if_pos (h.has hthere)]
      exact ih hw

end Grows

theorem grows_write? {path : String} {content : Bytes} {written : Disk} (h : disk.write? path content = some written) :
    disk.Grows written := by
  obtain ⟨location, -, rfl⟩ := Option.map_eq_some_iff.1 h
  refine ⟨rfl, rfl, fun other hother => ?_⟩
  simp only [file?, lookup_setFile]
  split_ifs
  · rfl
  · exact hother

/-- what a file is written to: a plain name in a folder that is there -/
theorem target?_cases {path : String} (h : disk.target? path = some location) :
    ∃ steps folder name, disk.steps? path = some (steps ++ [.down name]) ∧ disk.walk [] steps = some folder ∧
      location = folder ++ [name] ∧ disk.hasFolder folder := by
  simp only [target?, Option.bind_eq_bind, Option.bind_eq_some_iff] at h
  obtain ⟨steps, hsteps, h⟩ := h
  split at h
  · rename_i name hlast
    obtain ⟨folder, hfolder, h⟩ := Option.bind_eq_some_iff.1 h
    split_ifs at h with hthere
    cases h
    simp only [Bool.and_eq_true] at hthere
    refine ⟨steps.dropLast, folder, name, ?_, hfolder, rfl, hthere.1.1⟩
    rw [hsteps, List.dropLast_append_getLast? _ hlast]
  · cases h

/-- **A file that was written is found again**: its path leads to it, and its full name is read as what was written. -/
theorem written_found {path : String} {content : Bytes} {written : Disk}
    (h : disk.write? path content = some written) :
    ∃ location, written.locate? path = some location ∧
      written.read? (written.fullName location) = some content := by
  have hgrows := grows_write? h
  obtain ⟨location, htarget, hwritten⟩ := Option.map_eq_some_iff.1 h
  obtain ⟨steps, folder, name, hsteps, hwalk, rfl, hfolder⟩ := target?_cases htarget
  have hcontent : written.file? (folder ++ [name]) = some content := by
    rw [← hwritten]
    simp only [file?, lookup_setFile, if_true]
  have hplain := isPlain_steps? hsteps
  have hreached : written.walk [] (steps ++ [.down name]) = some (folder ++ [name]) := by
    rw [walk_append, hgrows.walk hwalk]
    simp [walk, hgrows.hasFolder, hfolder, has, hcontent]
  refine ⟨folder ++ [name], ?_, read?_fullName (by simp) ?_ hcontent⟩
  · simp [locate?, hgrows.steps?, hsteps, hreached, hcontent]
  · exact (opens_nil written).walk hplain hreached

end Disk

end Blockwork.Files
