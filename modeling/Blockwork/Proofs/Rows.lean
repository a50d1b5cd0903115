/-
Texts without empty lines.

- `Text.flow`: a text read character by character; it refuses an empty line, and any line end where none may be.
- `IsWord`, `IsRows`, `IsSection`: a text within a line, whole lines, and lines of which the last is not ended. None of
  them has an empty line.
- `Text.lines_ended_of_isLine`: lines are read back once each is ended, also empty ones.
- `flow_lines`: the lines of such a text. `IsRows.prefixLines` indents them, `IsRows.eq_newline` finds the last line end,
  and `IsSection.dropFinalNewlines` takes it away.
- `splitBlank_joinWith`: texts with a blank line between neighbours come apart at the blank lines.
-/
import Blockwork.Proofs.Brackets
import Blockwork.Proofs.Imports

namespace Blockwork

/-! ## Reading line by line -/

namespace Text

/-- one character read: whether its line has begun behind it. A line ends only where that is allowed, and only once it
has begun. -/
def advance (ends begun : Bool) (c : Char) : Option Bool :=
  if c = '\n' then if ends && begun then some false else none
  else if c = '\r' then none
  else some true

/-- whether a line has begun behind characters in a row -/
def flow (ends begun : Bool) (cs : List Char) : Option Bool :=
  cs.foldlM (advance ends) begun

section

variable {ends begun after : Bool} {c : Char} {cs ds : List Char}

@[simp] theorem flow_nil : flow ends begun [] = some begun := rfl

theorem flow_cons : flow ends begun (c :: cs) = (advance ends begun c).bind fun after => flow ends after cs :=
  List.foldlM_cons

theorem flow_append : flow ends begun (cs ++ ds) = (flow ends begun cs).bind fun after => flow ends after ds :=
  List.foldlM_append

theorem flow_concat : flow ends begun (cs ++ [c]) = (flow ends begun cs).bind fun after => advance ends after c := by
  simp [flow_append, flow_cons]

theorem advance_of_ne (hn : c ≠ '\n') (hr : c ≠ '\r') : advance ends begun c = some true := by
  simp [advance, hn, hr]

/-- what a character must be for reading to go on -/
theorem advance_eq_some (h : advance ends begun c = some after) :
    (c = '\n' ∧ ends = true ∧ begun = true ∧ after = false) ∨ (c ≠ '\n' ∧ c ≠ '\r' ∧ after = true) := by
  unfold advance at h
  split_ifs at h with hn hb hr
  · rw [Bool.and_eq_true] at hb
    exact .inl ⟨hn, hb.1, hb.2, (Option.some.inj h).symm⟩
  · exact .inr ⟨hn, hr, (Option.some.inj h).symm⟩

end

/-! ## Words, rows and sections -/

/-- no character is a line end -/
def IsInline (cs : List Char) : Prop :=
  ∀ c ∈ cs, c ≠ '\n' ∧ c ≠ '\r'

instance (cs : List Char) : Decidable (IsInline cs) :=
  List.decidableBAll (fun c => c ≠ '\n' ∧ c ≠ '\r') cs

/-- a text within a line: not empty, and without line ends -/
def IsWord (cs : List Char) : Prop :=
  cs ≠ [] ∧ IsInline cs

theorem IsInline.flow {cs : List Char} (h : IsInline cs) (ends : Bool) : flow ends true cs = some true := by
  induction cs with
  | nil => rfl
  | cons c cs ih =>
    obtain ⟨⟨hn, hr⟩, hcs⟩ := List.forall_mem_cons.1 h
    rw [flow_cons, advance_of_ne hn hr]
    exact ih hcs

theorem IsWord.flow {cs : List Char} (h : IsWord cs) (ends begun : Bool) : flow ends begun cs = some true := by
  obtain ⟨hne, hcs⟩ := h
  cases cs with
  | nil => exact absurd rfl hne
  | cons c cs =>
    obtain ⟨⟨hn, hr⟩, hcs⟩ := List.forall_mem_cons.1 hcs
    rw [flow_cons, advance_of_ne hn hr]
    exact IsInline.flow hcs ends

/-- where no line may end, what is read has no line end -/
theorem isInline_of_flow {begun after : Bool} {cs : List Char} (h : flow false begun cs = some after) :
    IsInline cs := by
  induction cs generalizing begun with
  | nil => exact List.forall_mem_nil _
  | cons c cs ih =>
    rw [flow_cons, Option.bind_eq_some_iff] at h
    obtain ⟨between, hc, hcs⟩ := h
    rcases advance_eq_some hc with ⟨-, hends, -⟩ | ⟨hn, hr, -⟩
    · cases hends
    · exact List.forall_mem_cons.2 ⟨⟨hn, hr⟩, ih hcs⟩

theorem isWord_iff_flow {cs : List Char} : IsWord cs ↔ flow false false cs = some true := by
  refine ⟨fun h => h.flow false false, fun h => ⟨?_, isInline_of_flow h⟩⟩
  rintro rfl
  cases h

instance (cs : List Char) : Decidable (IsWord cs) :=
  decidable_of_iff _ isWord_iff_flow.symm

/-- every line ended -/
def ended (lines : List (List Char)) : List Char :=
  lines.flatMap (· ++ ['\n'])

theorem ended_concat (lines : List (List Char)) (line : List Char) :
    ended (lines ++ [line]) = ended lines ++ (line ++ ['\n']) := by
  simp [ended]

theorem ended_append (lines : List (List Char)) (last : List Char) :
    ended lines ++ last = List.intercalate ['\n'] (lines ++ [last]) := by
  induction lines with
  | nil => simp [ended]
  | cons line lines ih =>
    have hne : lines ++ [last] ≠ [] := by simp
    obtain ⟨next, rest, hrest⟩ := List.exists_cons_of_ne_nil hne
    rw [List.cons_append, hrest, List.intercalate_cons_cons, ← hrest, ← ih]
    simp [ended]

theorem splitOn_ended {rows : List (List Char)} (h : ∀ row ∈ rows, '\n' ∉ row) :
    (ended rows).splitOn '\n' = rows ++ [[]] := by
  have hrows : ∀ row ∈ rows ++ [[]], '\n' ∉ row :=
    List.forall_mem_append.2 ⟨h, List.forall_mem_singleton.2 List.not_mem_nil⟩
  rw [← List.append_nil (ended rows), ended_append, List.splitOn_intercalate '\n' hrows (by simp)]

/-- **A text without empty lines is made of its lines**: those that are ended, and a last one if it has begun. -/
theorem flow_lines {after : Bool} {cs : List Char} (h : flow true false cs = some after) :
    ∃ lines last, (∀ line ∈ lines, IsWord line) ∧ IsInline last ∧
      cs = ended lines ++ last ∧ (after = false ↔ last = []) := by
  induction cs using List.reverseRecOn generalizing after with
  | nil =>
    cases h
    exact ⟨[], [], List.forall_mem_nil _, List.forall_mem_nil _, rfl, iff_of_true rfl rfl⟩
  | append_singleton cs c ih =>
    rw [flow_concat, Option.bind_eq_some_iff] at h
    obtain ⟨between, hcs, hc⟩ := h
    obtain ⟨lines, last, hlines, hlast, rfl, hbetween⟩ := ih hcs
    rcases advance_eq_some hc with ⟨rfl, -, rfl, rfl⟩ | ⟨hn, hr, rfl⟩
    · have hword : IsWord last := ⟨fun hnil => Bool.noConfusion (hbetween.2 hnil), hlast⟩
      refine ⟨lines ++ [last], [], List.forall_mem_append.2 ⟨hlines, List.forall_mem_singleton.2 hword⟩,
        List.forall_mem_nil _, ?_, iff_of_true rfl rfl⟩
      rw [ended_concat, List.append_nil, List.append_assoc]
    · refine ⟨lines, last ++ [c], hlines, ?_, List.append_assoc .., ?_⟩
      · exact List.forall_mem_append.2 ⟨hlast, List.forall_mem_singleton.2 ⟨hn, hr⟩⟩
      · exact iff_of_false Bool.noConfusion (by simp)

theorem flow_ended {lines : List (List Char)} (h : ∀ line ∈ lines, IsWord line) :
    flow true false (ended lines) = some false := by
  induction lines with
  | nil => rfl
  | cons line lines ih =>
    obtain ⟨hline, hlines⟩ := List.forall_mem_cons.1 h
    rw [ended, List.flatMap_cons, flow_append, flow_append, hline.flow true false]
    exact ih hlines

/-- what can be a line: no line feed, and no carriage return at the end, which would go with the line feed behind it -/
def IsLine (row : List Char) : Prop :=
  '\n' ∉ row ∧ row.getLast? ≠ some '\r'

theorem IsWord.isLine {row : List Char} (h : IsWord row) : IsLine row :=
  ⟨fun hn => (h.2 _ hn).1 rfl, fun hr => (h.2 _ (List.mem_of_getLast? hr)).2 rfl⟩

/-- **A line in front of a line feed is read as it is.** -/
theorem lines_row {row : List Char} (h : IsLine row) (s : List Char) : lines (row ++ '\n' :: s) = row :: lines s := by
  induction row with
  | nil => exact lines.eq_2 s
  | cons c row ih =>
    obtain ⟨hn, hr⟩ := h
    obtain ⟨hc, hrow⟩ := not_or.1 (mt List.mem_cons.2 hn)
    rcases List.eq_nil_or_concat row with rfl | ⟨front, last, hlast⟩
    · have hreturn : c ≠ '\r' := fun h => hr (h ▸ rfl)
      rw [List.cons_append, lines_cons_of_ne (Ne.symm hc) hreturn, List.nil_append, lines.eq_2]
      rfl
    · have hne : row ≠ [] := by simp [hlast]
      have hbehind := ih ⟨hrow, fun h => hr (by rwa [List.getLast?_cons_of_ne_nil hne])⟩
      rw [List.cons_append]
      by_cases hreturn : c = '\r'
      · subst hreturn
        -- the carriage return stays, because no line feed follows it
        have hhead : (row ++ '\n' :: s).head? ≠ some '\n' := by
          rw [List.head?_append_of_ne_nil _ hne]
          exact fun h => hrow (List.mem_of_head? h)
        rw [lines_return hhead, hbehind]
        rfl
      · rw [lines_cons_of_ne (Ne.symm hc) hreturn, hbehind]
        rfl

/-- **Ended lines are read back**, also empty ones. -/
theorem lines_ended_of_isLine {rows : List (List Char)} (h : ∀ row ∈ rows, IsLine row) : lines (ended rows) = rows := by
  induction rows with
  | nil => rfl
  | cons row rows ih =>
    obtain ⟨hrow, hrows⟩ := List.forall_mem_cons.1 h
    change lines (row ++ ['\n'] ++ ended rows) = _
    rw [List.append_assoc, List.singleton_append, lines_row hrow, ih hrows]

theorem lines_ended {rows : List (List Char)} (h : ∀ row ∈ rows, IsWord row) : lines (ended rows) = rows :=
  lines_ended_of_isLine fun row hm => (h row hm).isLine

/-- lines that are not empty are indented one by one -/
theorem indentChars_ended {rows : List (List Char)} (h : ∀ row ∈ rows, IsWord row) (lead : List Char) :
    indentChars lead (ended rows) = ended (rows.map (lead ++ ·)) := by
  rw [indentChars, lines_ended h, ended, List.flatMap_map]
  apply List.flatMap_congr
  intro row hrow
  have hne : row.isEmpty = false := by simpa using (h row hrow).1
  simp [indentLine, hne]

end Text

def IsInline (code : String) : Prop := Text.IsInline code.toList

def IsWord (code : String) : Prop := Text.IsWord code.toList

/-- whole lines, none of which is empty -/
def IsRows (code : String) : Prop := Text.flow true false code.toList = some false

/-- lines, none of which is empty; the last is not ended -/
def IsSection (code : String) : Prop := Text.flow true false code.toList = some true

instance (code : String) : Decidable (IsInline code) := inferInstanceAs (Decidable (Text.IsInline _))

instance (code : String) : Decidable (IsWord code) := inferInstanceAs (Decidable (Text.IsWord _))

section

variable {a b : String}

theorem IsWord.append (ha : IsWord a) (hb : IsInline b) : IsWord (a ++ b) := by
  rw [IsWord, String.toList_append]
  exact ⟨List.append_ne_nil_of_left_ne_nil ha.1 _, List.forall_mem_append.2 ⟨ha.2, hb⟩⟩

theorem IsWord.behind (hb : IsWord b) (ha : IsInline a) : IsWord (a ++ b) := by
  rw [IsWord, String.toList_append]
  exact ⟨List.append_ne_nil_of_right_ne_nil _ hb.1, List.forall_mem_append.2 ⟨ha, hb.2⟩⟩

theorem IsWord.ne_empty (h : IsWord a) : a ≠ "" := by
  rintro rfl
  exact h.1 rfl

theorem IsWord.isSection (h : IsWord a) : IsSection a := h.flow true false

theorem IsSection.ne_empty (h : IsSection a) : a ≠ "" := by
  rintro rfl
  cases h

theorem isRows_empty : IsRows "" := rfl

theorem IsRows.append (ha : IsRows a) (hb : IsRows b) : IsRows (a ++ b) := by
  rw [IsRows, String.toList_append, Text.flow_append, ha]
  exact hb

theorem IsRows.isSection (ha : IsRows a) (hb : IsSection b) : IsSection (a ++ b) := by
  rw [IsSection, String.toList_append, Text.flow_append, ha]
  exact hb

theorem IsSection.newline (h : IsSection a) : IsRows (a ++ "\n") := by
  rw [IsRows, String.toList_append, Text.flow_append, h]
  rfl

theorem IsWord.ended (h : IsWord a) (hb : Text.flow true true b.toList = some false) : IsRows (a ++ b) := by
  rw [IsRows, String.toList_append, Text.flow_append, h.flow true false]
  exact hb

/-! ## Words -/

theorem IsWord.bracketed (h : IsWord a) : IsWord (bracketed a) :=
  (h.behind (by decide)).append (by decide)

theorem IsWord.parenthesize (h : IsWord a) (bare : Bool) : IsWord (parenthesize a bare) := by
  cases bare with
  | true => exact h
  | false => exact h.bracketed

theorem IsWord.receiver (h : IsWord a) : IsWord (receiver a) := by
  unfold Blockwork.receiver
  split_ifs
  · exact h
  · exact h.bracketed

theorem IsWord.guardMinus (h : IsWord a) : IsWord (guardMinus a) := by
  unfold Blockwork.guardMinus
  split_ifs
  · exact h.bracketed
  · exact h

theorem IsWord.guardWord (h : IsWord a) : IsWord (guardWord a) := by
  unfold Blockwork.guardWord
  split_ifs
  · exact h
  · exact h.bracketed

theorem isInline_of_isNameChar {cs : List Char} (h : ∀ c ∈ cs, Names.isNameChar c) : Text.IsInline cs := by
  intro c hc
  constructor <;> (rintro rfl; exact absurd (h _ hc) (by decide))

theorem IsWord.identifier (h : Names.IsIdentifier a) : IsWord a := by
  obtain ⟨c, cs, hname, hc, -, hcs⟩ := h
  rw [IsWord, hname]
  exact ⟨List.cons_ne_nil c cs, isInline_of_isNameChar (List.forall_mem_cons.2 ⟨hc, hcs⟩)⟩

theorem isInline_of_isDigit {cs : List Char} (h : ∀ c ∈ cs, c.isDigit) : Text.IsInline cs :=
  isInline_of_isNameChar fun c hc => Names.isNameChar_of_isDigit (h c hc)

theorem IsWord.natural (n : Nat) : IsWord (toString n) := by
  refine ⟨mt String.toList_eq_nil_iff.1 (Names.toString_ne_empty n), isInline_of_isDigit fun c hc => ?_⟩
  rw [show (toString n).toList = Nat.toDigits 10 n from Nat.toList_repr] at hc
  exact Nat.isDigit_of_mem_toDigits (by decide) (by decide) hc

theorem IsWord.integer (n : Int) : IsWord (toString n) := by
  cases n with
  | ofNat n => exact natural n
  | negSucc n => exact (natural (n + 1)).behind (by decide : IsInline "-")

theorem IsWord.boundAbove (h : IsWord a) : IsWord (boundAbove a) := by
  unfold Blockwork.boundAbove
  split
  · exact natural _
  · exact h.append (by decide)

theorem IsWord.indexBefore (h : IsWord a) : IsWord (indexBefore a) := by
  unfold Blockwork.indexBefore
  split
  · exact integer _
  · exact h.append (by decide)

theorem IsWord.indexBeforeClamped (h : IsWord a) : IsWord (indexBeforeClamped a) := by
  unfold Blockwork.indexBeforeClamped
  split
  · exact natural _
  · exact h.append (by decide)

theorem IsInline.rangeStart (h : IsWord a) : IsInline (rangeStart a) := by
  unfold Blockwork.rangeStart
  split_ifs
  · exact List.forall_mem_nil _
  · exact (h.append (by decide : IsInline ", ")).2

theorem isWord_numeral {cs : List Char} (h : IsNumeral cs) : Text.IsWord cs := by
  cases h with
  | whole hne hd => exact ⟨hne, isInline_of_isDigit hd⟩
  | fraction hne hd hne' he =>
    refine ⟨by simp [hne], List.forall_mem_append.2 ⟨isInline_of_isDigit hd, ?_⟩⟩
    exact List.forall_mem_cons.2 ⟨by decide, isInline_of_isDigit he⟩

theorem IsWord.numberLiteral (language : Language) (x : Binary64) : IsWord (language.numberLiteral x) := by
  cases x with
  | nan => cases language <;> decide
  | infinite negative => cases language <;> cases negative <;> decide
  | finite negative m p =>
    by_cases hm : m = 0
    · subst hm
      rw [language.numberLiteral_zero]
      decide
    · have hnumeral := isWord_numeral (language.isNumeral_magnitude m p)
      have hsign : Text.IsInline (if negative then ['-'] else []) := by cases negative <;> decide
      rw [IsWord, language.numberLiteral_finite negative hm p]
      exact ⟨List.append_ne_nil_of_right_ne_nil _ hnumeral.1, List.forall_mem_append.2 ⟨hsign, hnumeral.2⟩⟩

theorem IsWord.quote (language : Language) (text : String) : IsWord (language.quote text) := by
  have hinterior := (Text.interior_flatMap_escape language.interpolates text.toList).not_line_end
  rw [IsWord, Language.quote, String.toList_ofList, Text.quoteChars]
  refine ⟨List.cons_ne_nil _ _, List.forall_mem_cons.2 ⟨by decide, List.forall_mem_append.2 ⟨hinterior, ?_⟩⟩⟩
  exact List.forall_mem_singleton.2 (by decide)

/-! ## Rows and sections -/

theorem isRows_procedureBody {stop noop : String} (ha : IsRows a) (hb : b = "" ∨ IsWord b)
    (hs : Text.flow true true stop.toList = some false) (hn : IsWord noop) :
    IsRows (procedureBody a b stop noop) := by
  unfold Blockwork.procedureBody
  split_ifs with hresult hstatements
  · have hword : IsWord b := hb.resolve_left (by simpa using hresult)
    have hreturn : IsWord (Text.indentation ++ "return " ++ b) := hword.behind (by decide)
    have hparts : a ++ Text.indentation ++ "return " ++ b ++ stop = a ++ (Text.indentation ++ "return " ++ b ++ stop) := by
      simp only [String.append_assoc]
    rw [hparts]
    exact ha.append (hreturn.ended hs)
  · exact ha
  · exact (hn.behind (by decide : IsInline Text.indentation)).isSection.newline

/-- **Rows stay rows when they are indented.** -/
theorem IsRows.prefixLines (h : IsRows a) {lead : String} (hl : IsInline lead) : IsRows (Text.prefixLines a lead) := by
  obtain ⟨lines, last, hlines, -, hcs, hlast⟩ := Text.flow_lines h
  rw [hlast.1 rfl, List.append_nil] at hcs
  rw [IsRows, Text.prefixLines, String.toList_ofList, hcs, Text.indentChars_ended hlines]
  apply Text.flow_ended
  intro line hline
  obtain ⟨row, hrow, rfl⟩ := List.mem_map.1 hline
  exact ⟨List.append_ne_nil_of_right_ne_nil _ (hlines row hrow).1, List.forall_mem_append.2 ⟨hl, (hlines row hrow).2⟩⟩

theorem IsSection.getLast? (h : IsSection a) : a.toList.getLast? ≠ some '\n' := by
  intro hlast
  rw [IsSection, ← List.dropLast_append_getLast? '\n' hlast, Text.flow_concat, Option.bind_eq_some_iff] at h
  obtain ⟨between, -, hend⟩ := h
  rcases Text.advance_eq_some hend with ⟨-, -, -, htrue⟩ | ⟨hne, -⟩
  · cases htrue
  · exact hne rfl

theorem IsSection.dropFinalNewlines (h : IsSection a) : Text.dropFinalNewlines (a ++ "\n") = a := by
  have hhead := h.getLast?
  rw [← List.head?_reverse] at hhead
  have hkept : a.toList.reverse.dropWhile (· == '\n') = a.toList.reverse := by
    cases hr : a.toList.reverse with
    | nil => rfl
    | cons c cs =>
      rw [hr, List.head?_cons, Ne, Option.some.injEq] at hhead
      rw [List.dropWhile_cons_of_neg (by simpa using hhead)]
  apply String.toList_inj.1
  simp [Text.dropFinalNewlines, hkept]

theorem IsRows.eq_newline (h : IsRows a) (hne : a ≠ "") : ∃ text, IsSection text ∧ a = text ++ "\n" := by
  have hnil : a.toList ≠ [] := mt String.toList_eq_nil_iff.1 hne
  obtain ⟨cs, c, hcs⟩ : ∃ cs c, a.toList = cs ++ [c] := ⟨_, _, (List.dropLast_append_getLast hnil).symm⟩
  rw [IsRows, hcs, Text.flow_concat, Option.bind_eq_some_iff] at h
  obtain ⟨between, hflow, hc⟩ := h
  rcases Text.advance_eq_some hc with ⟨rfl, -, rfl, -⟩ | ⟨-, -, hfalse⟩
  · refine ⟨String.ofList cs, ?_, String.toList_inj.1 ?_⟩
    · rw [IsSection, String.toList_ofList]
      exact hflow
    · simp [hcs]
  · cases hfalse

theorem Text.joinWith_eq (separator : String) (texts : List String) :
    joinWith separator texts = separator.intercalate texts := by
  induction texts with
  | nil => rfl
  | cons text texts ih =>
    cases texts with
    | nil => simp [joinWith]
    | cons next rest =>
      rw [String.intercalate_cons_cons, ← ih]
      rfl

theorem isSection_joinWith {texts : List String} (hne : texts ≠ []) (h : ∀ text ∈ texts, IsSection text) :
    IsSection (Text.joinWith "\n" texts) := by
  induction texts with
  | nil => exact absurd rfl hne
  | cons text texts ih =>
    obtain ⟨htext, htexts⟩ := List.forall_mem_cons.1 h
    cases texts with
    | nil => exact htext
    | cons next rest => exact htext.newline.isSection (ih (List.cons_ne_nil _ _) htexts)

theorem isWord_joinWith {texts : List String} (hne : texts ≠ []) (h : ∀ text ∈ texts, IsWord text) :
    IsWord (Text.joinWith ", " texts) := by
  induction texts with
  | nil => exact absurd rfl hne
  | cons text texts ih =>
    obtain ⟨htext, htexts⟩ := List.forall_mem_cons.1 h
    cases texts with
    | nil => exact htext
    | cons next rest =>
      have hrest := ih (List.cons_ne_nil _ _) htexts
      exact (htext.append (by decide : IsInline ", ")).append hrest.2

theorem IsSection.splitOn (h : IsSection a) : [] ∉ a.toList.splitOn '\n' := by
  obtain ⟨lines, last, hlines, hlast, hcs, hend⟩ := Text.flow_lines h
  have hword : Text.IsWord last := ⟨fun hnil => Bool.noConfusion (hend.2 hnil), hlast⟩
  have hwords : ∀ line ∈ lines ++ [last], Text.IsWord line :=
    List.forall_mem_append.2 ⟨hlines, List.forall_mem_singleton.2 hword⟩
  have hplain : ∀ line ∈ lines ++ [last], '\n' ∉ line := fun line hm hn => ((hwords line hm).2 _ hn).1 rfl
  rw [hcs, Text.ended_append, List.splitOn_intercalate '\n' hplain (by simp)]
  exact fun hm => (hwords [] hm).1 rfl

end

/-! ## Blank lines -/

/-- the parts of a text between blank lines, that is, between two line feeds in a row -/
def Text.splitBlank : List Char → List (List Char)
  | [] => [[]]
  | '\n' :: '\n' :: cs => [] :: splitBlank cs
  | c :: cs =>
    match splitBlank cs with
    | [] => [[c]]
    | part :: rest => (c :: part) :: rest

theorem Text.splitBlank_cons {c : Char} {cs : List Char} (h : c ≠ '\n' ∨ cs.head? ≠ some '\n') {part : List Char}
    {rest : List (List Char)} (hcs : splitBlank cs = part :: rest) : splitBlank (c :: cs) = (c :: part) :: rest := by
  rw [splitBlank, hcs]
  rintro ds rfl rfl
  exact h.elim (fun hc => hc rfl) (fun hd => hd rfl)

theorem Text.splitBlank_append {begun : Bool} {cs : List Char} (h : flow true begun cs = some true) {behind : List Char}
    {rest : List (List Char)} (hb : splitBlank behind = [] :: rest) : splitBlank (cs ++ behind) = cs :: rest := by
  induction cs generalizing begun with
  | nil => exact hb
  | cons c cs ih =>
    rw [flow_cons, Option.bind_eq_some_iff] at h
    obtain ⟨after, hc, hcs⟩ := h
    refine splitBlank_cons ?_ (ih hcs)
    rcases advance_eq_some hc with ⟨-, -, -, rfl⟩ | ⟨hn, -⟩
    · -- behind a line end there is a line that begins
      right
      cases cs with
      | nil => cases hcs
      | cons d cs =>
        rw [flow_cons, Option.bind_eq_some_iff] at hcs
        obtain ⟨_, hd, -⟩ := hcs
        rcases advance_eq_some hd with ⟨-, -, hbegun, -⟩ | ⟨hn, -⟩
        · cases hbegun
        · simpa using hn
    · exact .inl hn

/-- **Sections come apart at the blank lines between them.** -/
theorem Text.splitBlank_joinWith {sections : List String} (hne : sections ≠ []) (h : ∀ text ∈ sections, IsSection text) :
    (splitBlank (joinWith "\n\n" sections).toList).map String.ofList = sections := by
  induction sections with
  | nil => exact absurd rfl hne
  | cons text sections ih =>
    obtain ⟨htext, hsections⟩ := List.forall_mem_cons.1 h
    cases sections with
    | nil =>
      have halone := splitBlank_append htext (show splitBlank [] = [] :: [] from rfl)
      rw [List.append_nil] at halone
      simp [joinWith, halone]
    | cons next rest =>
      have hbehind : splitBlank ('\n' :: '\n' :: (joinWith "\n\n" (next :: rest)).toList) =
          [] :: splitBlank (joinWith "\n\n" (next :: rest)).toList := rfl
      have hsplit := splitBlank_append htext hbehind
      have hchars : (joinWith "\n\n" (text :: next :: rest)).toList =
          text.toList ++ '\n' :: '\n' :: (joinWith "\n\n" (next :: rest)).toList := by
        simp [joinWith]
      rw [hchars, hsplit, List.map_cons, String.ofList_toList, ih (List.cons_ne_nil _ _) hsections]

/-- the last of sections in a row ends in no line end -/
theorem Text.getLast?_joinWith {sections : List String} (hne : sections ≠ []) (h : ∀ text ∈ sections, IsSection text) :
    (joinWith "\n\n" sections).toList.getLast? ≠ some '\n' := by
  induction sections with
  | nil => exact absurd rfl hne
  | cons text sections ih =>
    obtain ⟨htext, hsections⟩ := List.forall_mem_cons.1 h
    cases sections with
    | nil => exact htext.getLast?
    | cons next rest =>
      have hlast := ih (List.cons_ne_nil _ _) hsections
      have hsome : (joinWith "\n\n" (next :: rest)).toList ≠ [] := by
        have hnonempty := joinWith_ne_empty "\n\n" (List.cons_ne_nil next rest) fun t ht => (hsections t ht).ne_empty
        exact mt String.toList_eq_nil_iff.1 hnonempty
      change (text ++ "\n\n" ++ joinWith "\n\n" (next :: rest)).toList.getLast? ≠ some '\n'
      rw [String.toList_append, List.getLast?_append_of_ne_nil _ hsome]
      exact hlast

end Blockwork
