/-
The words of a code: its longest runs of letters, digits and underscores outside literals.

- `Alike.words_append`: the words of two texts add up where a separator stands between them, that is, where the first
  ends apart or the second starts apart. Elsewhere the last word of one and the first of the other become one.
- `Alike.words_indentChars`: indentation makes and loses no word.
- `runs_of_isNameChar`: an identifier is one word.
-/
import Blockwork.Proofs.Brackets

namespace Blockwork.Text

/-! ## Words -/

/-- what lies between the separators of a text: runs of name characters, and empty places -/
def stretches (cs : List Char) : List (List Char) :=
  cs.splitOnP fun c => !Names.isNameChar c

/-- the longest runs of name characters in a text -/
def runs (cs : List Char) : List (List Char) :=
  (stretches cs).filter fun run => !run.isEmpty

/-- the words of a code outside its literals -/
def words (cs : List Char) : List (List Char) :=
  runs (blankFrom false cs)

/-- whether a text begins, if at all, with a character that is part of no word -/
def startsApart (cs : List Char) : Bool :=
  cs.head?.all fun c => !Names.isNameChar c

/-- whether a text ends, if at all, with a character that is part of no word -/
def endsApart (cs : List Char) : Bool :=
  cs.getLast?.all fun c => !Names.isNameChar c

theorem stretches_cons (c : Char) (cs : List Char) :
    stretches (c :: cs) = if !Names.isNameChar c then [] :: stretches cs else (stretches cs).modifyHead (c :: ·) :=
  List.splitOnP_cons_eq_if_modifyHead ..

theorem runs_append_cons (s : List Char) {c : Char} (hc : !Names.isNameChar c) (t : List Char) :
    runs (s ++ c :: t) = runs s ++ runs t := by
  unfold runs stretches
  rw [List.splitOnP_append_cons s t hc, List.filter_append]

theorem runs_cons (c : Char) (hc : !Names.isNameChar c) (t : List Char) : runs (c :: t) = runs t :=
  runs_append_cons [] hc t

theorem runs_append {s t : List Char} (h : endsApart s ∨ startsApart t) : runs (s ++ t) = runs s ++ runs t := by
  rcases h with h | h
  · rcases List.eq_nil_or_concat s with rfl | ⟨s, c, rfl⟩
    · rfl
    · have hc : !Names.isNameChar c := by simpa [endsApart] using h
      rw [List.concat_eq_append, List.append_assoc, List.singleton_append, runs_append_cons s hc,
        runs_append_cons s hc]
      simp [runs, stretches]
  · cases t with
    | nil => simp [runs, stretches]
    | cons c t =>
      have hc : !Names.isNameChar c := by simpa [startsApart] using h
      rw [runs_append_cons s hc, runs_cons c hc]

/-- a run has no characters but those of the text -/
theorem subset_of_mem_runs {cs run : List Char} (h : run ∈ runs cs) : run ⊆ cs := by
  have hstretch : ∀ cs : List Char, ∀ run ∈ stretches cs, run ⊆ cs := by
    intro cs
    induction cs with
    | nil =>
      intro run hm
      rw [List.mem_singleton.1 hm]
      exact List.nil_subset _
    | cons c cs ih =>
      intro run hm
      rw [stretches_cons] at hm
      split_ifs at hm
      · rcases List.mem_cons.1 hm with rfl | hm
        · exact List.nil_subset _
        · exact List.subset_cons_of_subset c (ih run hm)
      · cases hs : stretches cs with
        | nil =>
          rw [hs] at hm
          cases hm
        | cons first others =>
          rw [hs] at hm ih
          rcases List.mem_cons.1 hm with rfl | hm
          · exact List.cons_subset_cons c (ih first List.mem_cons_self)
          · exact List.subset_cons_of_subset c (ih run (List.mem_cons_of_mem _ hm))
  exact hstretch cs run (List.mem_filter.1 h).1

theorem runs_of_isNameChar {cs : List Char} (hne : cs ≠ []) (h : ∀ c ∈ cs, Names.isNameChar c) : runs cs = [cs] := by
  unfold runs stretches
  rw [List.splitOnP_eq_singleton fun c hc => by simpa using h c hc]
  simp [hne]

/-! ## Literals -/

theorem head?_blankFrom (s : List Char) : (blankFrom false s).head? = s.head? := by
  cases s <;> rfl

theorem Alike.getLast?_blankFrom {s t : List Char} (h : Alike s t) : (blankFrom false s).getLast? = s.getLast? := by
  induction h with
  | nil => rfl
  | char c hc _ ih => simp [blankFrom, beq_false_of_ne hc, List.getLast?_cons, ih]
  | literal u v hu _ _ ih => simp [blankFrom, blankFrom_interior hu, List.getLast?_cons, List.getLast?_append, ih]

theorem Alike.words_append {s t r : List Char} (h : Alike s t) (hapart : endsApart s ∨ startsApart r) :
    words (s ++ r) = words s ++ words r := by
  unfold words
  rw [h.blankFrom_append]
  refine runs_append (hapart.imp (fun he => ?_) fun hs => ?_)
  · unfold endsApart
    rw [h.getLast?_blankFrom]
    exact he
  · unfold startsApart
    rw [head?_blankFrom]
    exact hs

/-! ## Lines -/

/-- a text cut into lines: what lies between its separators is that of the first line, and then the runs of the
others -/
def LinedUp (cs : List Char) : List (List Char) → Prop
  | [] => cs = []
  | line :: rest => ∃ more, stretches cs = stretches line ++ more ∧
      more.filter (fun run => !run.isEmpty) = rest.flatMap runs

theorem LinedUp.runs_eq {cs : List Char} {ls : List (List Char)} (h : LinedUp cs ls) : runs cs = ls.flatMap runs := by
  cases ls with
  | nil =>
    obtain rfl : cs = [] := h
    rfl
  | cons line rest =>
    obtain ⟨more, hstretches, hmore⟩ := h
    unfold runs
    rw [hstretches, List.filter_append, hmore]
    rfl

theorem linedUp_lines (cs : List Char) : LinedUp cs (lines cs) := by
  fun_induction lines cs with
  | case1 => rfl
  | case2 cs ih => exact ⟨stretches cs, stretches_cons '\n' cs, ih.runs_eq⟩
  | case3 cs ih =>
    refine ⟨[] :: stretches cs, ?_, ih.runs_eq⟩
    rw [stretches_cons, stretches_cons]
    rfl
  | case4 c cs _ _ hl ih =>
    rw [hl] at ih
    obtain rfl : cs = [] := ih
    exact ⟨[], (List.append_nil _).symm, rfl⟩
  | case5 c cs _ _ line rest hl ih =>
    rw [hl] at ih
    obtain ⟨more, hstretches, hmore⟩ := ih
    refine ⟨more, ?_, hmore⟩
    obtain ⟨first, others, hfirst⟩ : ∃ first others, stretches line = first :: others :=
      List.exists_cons_of_ne_nil (List.splitOnP_ne_nil _ _)
    rw [stretches_cons, stretches_cons, hstretches, hfirst]
    split_ifs <;> rfl

theorem runs_lines (cs : List Char) : runs cs = (lines cs).flatMap runs :=
  (linedUp_lines cs).runs_eq

theorem runs_indentLine {lead : List Char} (hl : ∀ c ∈ lead, !Names.isNameChar c) (line rest : List Char) :
    runs (indentLine lead line ++ rest) = runs line ++ runs rest := by
  have hlead : ∀ (lead rest : List Char), (∀ c ∈ lead, !Names.isNameChar c) → runs (lead ++ rest) = runs rest := by
    intro lead rest hl
    induction lead with
    | nil => rfl
    | cons c lead ih =>
      obtain ⟨hc, hlead⟩ := List.forall_mem_cons.1 hl
      rw [List.cons_append, runs_cons c hc, ih hlead]
  unfold indentLine
  split_ifs with hempty
  · rw [List.isEmpty_iff.1 hempty]
    exact runs_cons '\n' (by decide) rest
  · rw [List.append_assoc, List.append_assoc, hlead lead _ hl, List.singleton_append, runs_append_cons line (by decide)]

theorem runs_indentChars {lead : List Char} (hl : ∀ c ∈ lead, !Names.isNameChar c) (cs : List Char) :
    runs (indentChars lead cs) = runs cs := by
  rw [runs_lines cs]
  unfold indentChars
  generalize lines cs = ls
  induction ls with
  | nil => rfl
  | cons line rest ih => rw [List.flatMap_cons, List.flatMap_cons, runs_indentLine hl, ih]

theorem blankFrom_of_not_mem {cs : List Char} (h : '\'' ∉ cs) : blankFrom false cs = cs := by
  induction cs with
  | nil => rfl
  | cons c cs ih =>
    simp only [List.mem_cons, not_or] at h
    rw [blankFrom, beq_false_of_ne (Ne.symm h.1), ih h.2]

theorem Alike.map_blankFrom_attach {w w' : List Char} (hw : Alike w w') (ls : List (List Char)) :
    (Text.attach w ls).map (blankFrom false) = Text.attach (blankFrom false w) (ls.map (blankFrom false)) := by
  cases ls with
  | nil => rfl
  | cons l ls => simp only [Text.attach, List.map_cons, hw.blankFrom_append]

/-- no literal reaches over a line end, so blanking goes line by line -/
theorem Alike.lines_blankFrom {s t : List Char} (h : Alike s t) :
    Text.lines (blankFrom false s) = (Text.lines s).map (blankFrom false) := by
  induction h with
  | nil => rfl
  | @char s t c hc h ih =>
    have hone : Alike [c] [c] := .char c hc .nil
    have hblank : blankFrom false (c :: s) = c :: blankFrom false s := by
      rw [blankFrom, beq_false_of_ne hc]
    rw [hblank]
    by_cases hn : c = '\n'
    · subst hn
      rw [Text.lines, Text.lines, List.map_cons, ih]
      rfl
    by_cases hr : c = '\r'
    · subst hr
      by_cases hs : s.head? = some '\n'
      · obtain ⟨s', rfl⟩ := List.head?_eq_some_iff.1 hs
        exact ih
      · have hs' : (blankFrom false s).head? ≠ some '\n' := by rwa [head?_blankFrom]
        rw [lines_return hs, lines_return hs', hone.map_blankFrom_attach, ih]
        rfl
    · rw [lines_cons_of_ne hn hr, lines_cons_of_ne hn hr, hone.map_blankFrom_attach, ih]
      have hsame : blankFrom false [c] = [c] := rfl
      rw [hsame]
  | literal u v hu _ h ih =>
    have hone : Alike ('\'' :: (u ++ ['\''])) ('\'' :: (u ++ ['\''])) := .literal u u hu hu .nil
    have hblank : ∀ s, blankFrom false ('\'' :: (u ++ '\'' :: s)) = '\'' :: ([] ++ '\'' :: blankFrom false s) := by
      intro s
      simp [blankFrom, blankFrom_interior hu]
    rw [hblank, lines_literal .nil, lines_literal hu, hone.map_blankFrom_attach, hblank, ih]
    rfl

/-- blanking and indentation do not get in each other's way -/
theorem Alike.blankFrom_indentChars {s t lead : List Char} (h : Alike s t) (hl : ∀ c ∈ lead, isPlain c) :
    blankFrom false (Text.indentChars lead s) = Text.indentChars lead (blankFrom false s) := by
  have hlines := h.lines
  unfold Text.indentChars
  rw [h.lines_blankFrom]
  generalize Text.lines s = ls at hlines ⊢
  generalize Text.lines t = ls' at hlines ⊢
  induction hlines with
  | nil => rfl
  | @cons line line' rest rest' hline _ ih =>
    have hlead : Alike lead lead := .refl_of_not_mem (quote_not_mem_of_isPlain hl)
    have hempty : (blankFrom false line).isEmpty = line.isEmpty := by cases line <;> rfl
    rw [List.flatMap_cons, List.map_cons, List.flatMap_cons, (hline.indentLine hl).1.blankFrom_append, ih]
    unfold Text.indentLine
    rw [hempty]
    split_ifs
    · rfl
    · rw [(hlead.append hline).blankFrom_append, hlead.blankFrom_append,
        blankFrom_of_not_mem (quote_not_mem_of_isPlain hl)]
      rfl

/-- **Indentation makes and loses no word.** -/
theorem Alike.words_indentChars {s t lead : List Char} (h : Alike s t) (hp : ∀ c ∈ lead, isPlain c)
    (hl : ∀ c ∈ lead, !Names.isNameChar c) : words (Text.indentChars lead s) = words s := by
  unfold words
  rw [h.blankFrom_indentChars hp, runs_indentChars hl]

/-! ## Ends -/

theorem endsApart_append {s t : List Char} (ht : endsApart t) (hs : t = [] → endsApart s) : endsApart (s ++ t) := by
  cases t with
  | nil =>
    rw [List.append_nil]
    exact hs rfl
  | cons c t =>
    unfold endsApart at ht ⊢
    rw [List.getLast?_append_of_ne_nil _ (List.cons_ne_nil c t)]
    exact ht

/-- whatever stands before it, a text that is not empty decides how both together end -/
theorem endsApart_concat {last : String} (h : endsApart last.toList) (hne : last.toList ≠ []) (first : String) :
    endsApart (first ++ last).toList := by
  rw [String.toList_append]
  exact endsApart_append h fun hnil => absurd hnil hne

/-- an indented text ends with a line end, if it is not empty -/
theorem endsApart_indentChars (lead cs : List Char) : endsApart (indentChars lead cs) := by
  unfold indentChars
  induction lines cs with
  | nil => rfl
  | cons line rest ih =>
    rw [List.flatMap_cons]
    refine endsApart_append ih fun _ => ?_
    unfold indentLine
    split_ifs
    · rfl
    · exact endsApart_append rfl fun h => nomatch h

end Blockwork.Text
