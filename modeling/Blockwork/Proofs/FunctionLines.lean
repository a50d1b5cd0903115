/-
Functions in the text of a program. JavaScript and Python write a procedure as a function where it stands.

- `functionLines`: the number of lines that open a function.
- `Opens`: rows with a number of such lines. The numbers add up, and stay when the rows are indented.
- `Counts`: what each visit of a construct adds to the procedures of a block.
- `Form.opens_line`: in JavaScript the lines of a construct open as many functions as its visits add up to.
  `Form.Lays.functions`: so do the lines of its outline in Python.
- `functionLines_body`: the body of a program opens one function for each procedure block that is visited.
- `procedures_hoisted_iff_distinct`: the main statement, on Dart and the other targets.
-/
import Blockwork.Proofs.Hoisting
import Blockwork.Proofs.Suites

namespace Blockwork

/-! ## Lines that open functions -/

/-- how a line that opens a function starts and ends -/
def Language.functionMarks : Language → String × Char
  | javascript => ("function ", '\x7b')
  | dart => ("dynamic ", '\x7b')
  | python => ("def ", ':')

/-- whether a line, without its indentation, opens a function -/
def Language.opensFunction (language : Language) (line : String) : Bool :=
  language.functionMarks.1.toList.isPrefixOf line.toList && line.toList.getLast? == some language.functionMarks.2

def functionLines (language : Language) (code : String) : Nat :=
  (Outline.entries code).countP fun line => language.opensFunction line.2

/-- rows with a number of lines that open a function -/
structure Opens (language : Language) (code : String) (count : Nat) : Prop where
  rows : IsRows code
  lines : functionLines language code = count

theorem IsRows.exists_rows {code : String} (h : IsRows code) :
    ∃ rows, (∀ row ∈ rows, Text.IsWord row) ∧ code.toList = Text.ended rows := by
  obtain ⟨rows, last, hrows, -, hcs, hlast⟩ := Text.flow_lines h
  rw [hlast.1 rfl, List.append_nil] at hcs
  exact ⟨rows, hrows, hcs⟩

theorem functionLines_of_rows {language : Language} {code : String} {rows : List (List Char)}
    (h : ∀ row ∈ rows, Text.IsWord row) (hcode : code.toList = Text.ended rows) :
    functionLines language code = rows.countP fun row => language.opensFunction (Outline.entry row).2 := by
  rw [functionLines, Outline.entries, hcode, Text.lines_ended h, List.countP_map]
  rfl

theorem Outline.entry_indented (row : List Char) : (entry (Text.indentation.toList ++ row)).2 = (entry row).2 := by
  have hblank : ∀ c ∈ Text.indentation.toList, (c == ' ') = true := List.all_eq_true.1 (by decide)
  rw [entry, entry, List.dropWhile_append_of_pos hblank]

namespace Opens

variable {language : Language} {a b : String} {m n : Nat}

theorem empty : Opens language "" 0 :=
  ⟨isRows_empty, rfl⟩

theorem append (ha : Opens language a m) (hb : Opens language b n) : Opens language (a ++ b) (m + n) := by
  obtain ⟨rows, hrows, hacode⟩ := ha.rows.exists_rows
  obtain ⟨others, hothers, hbcode⟩ := hb.rows.exists_rows
  have hcode : (a ++ b).toList = Text.ended (rows ++ others) := by
    rw [String.toList_append, hacode, hbcode, Text.ended, Text.ended, Text.ended, List.flatMap_append]
  refine ⟨ha.rows.append hb.rows, ?_⟩
  rw [functionLines_of_rows (List.forall_mem_append.2 ⟨hrows, hothers⟩) hcode, List.countP_append,
    ← functionLines_of_rows hrows hacode, ← functionLines_of_rows hothers hbcode, ha.lines, hb.lines]

theorem indented (ha : Opens language a n) : Opens language (Text.prefixLines a Text.indentation) n := by
  obtain ⟨rows, hrows, hcode⟩ := ha.rows.exists_rows
  have hinline : Text.IsInline Text.indentation.toList := by decide
  have hwords : ∀ row ∈ rows.map (Text.indentation.toList ++ ·), Text.IsWord row := by
    intro line hline
    obtain ⟨row, hrow, rfl⟩ := List.mem_map.1 hline
    exact ⟨List.append_ne_nil_of_right_ne_nil _ (hrows row hrow).1,
      List.forall_mem_append.2 ⟨hinline, (hrows row hrow).2⟩⟩
  have hindented : (Text.prefixLines a Text.indentation).toList =
      Text.ended (rows.map (Text.indentation.toList ++ ·)) := by
    rw [Text.prefixLines, String.toList_ofList, hcode, Text.indentChars_ended hrows]
  refine ⟨ha.rows.prefixLines hinline, ?_⟩
  rw [functionLines_of_rows hwords hindented, List.countP_map, ← ha.lines, functionLines_of_rows hrows hcode]
  simp only [Function.comp_def, Outline.entry_indented]

theorem line (h : IsWord a) :
    Opens language (a ++ "\n") (if language.opensFunction (Outline.entry a.toList).2 then 1 else 0) := by
  have hcode : (a ++ "\n").toList = Text.ended [a.toList] := by simp [Text.ended]
  refine ⟨h.isSection.newline, ?_⟩
  rw [functionLines_of_rows (List.forall_mem_singleton.2 h) hcode, List.countP_singleton]

theorem plain (h : IsWord a) (hp : language.opensFunction (Outline.entry a.toList).2 = false) :
    Opens language (a ++ "\n") 0 := by
  have hline : Opens language (a ++ "\n") (if language.opensFunction (Outline.entry a.toList).2 then 1 else 0) := line h
  rwa [hp] at hline

theorem count_eq_zero (h : Opens language "" n) : n = 0 :=
  h.lines.symm

end Opens

theorem opensFunction_of_getLast? {language : Language} {line : List Char}
    (h : line.getLast? ≠ some language.functionMarks.2) : language.opensFunction (Outline.entry line).2 = false := by
  rw [Language.opensFunction, Bool.and_eq_false_iff]
  right
  rw [beq_eq_false_iff_ne]
  intro hlast
  rw [Outline.entry, String.toList_ofList] at hlast
  refine h ?_
  obtain ⟨lead, hlead⟩ := List.dropWhile_suffix (l := line) (· == ' ')
  rw [← hlead, List.getLast?_append, hlast]
  rfl

/-! ## What visits add -/

/-- what the visits of a construct add to the procedures of a block -/
structure Counts (count : Visit → Nat) (visits : List Visit) : Prop where
  value : ∀ slot, .value slot ∈ visits → count (.value slot) = 0
  variableName : ∀ user, count (.name .variable user) = 0
  procedureName : ∀ user, count (.name .procedure user) = 1

/-- the visits of a choice add what its branches do -/
theorem Counts.choice {count : Visit → Nat} {elseifs : Nat} {otherwise : Bool}
    (h : Counts count (Form.choice elseifs otherwise).visits) :
    ((Form.choice elseifs otherwise).visits.map count).sum =
      ((List.range (elseifs + 1)).map fun n => count (.statement n)).sum +
        if otherwise then count (.statement (elseifs + 1)) else 0 := by
  have hvalue : ∀ n < elseifs + 1, count (.value n) = 0 := by
    intro n hn
    refine h.value n (List.mem_append_left _ (List.mem_flatMap.2 ⟨n, List.mem_range.2 hn, List.mem_cons_self⟩))
  have hpairs : ∀ m ≤ elseifs + 1, (((List.range m).flatMap fun n => [Visit.value n, .statement n]).map count).sum =
      ((List.range m).map fun n => count (.statement n)).sum := by
    intro m hm
    induction m with
    | zero => rfl
    | succ m ih =>
      have hzero : count (.value m) = 0 := hvalue m (Nat.lt_of_succ_le hm)
      rw [List.range_succ, List.flatMap_append, List.map_append, List.map_append, List.sum_append, List.sum_append,
        ih (Nat.le_of_succ_le hm)]
      simp [hzero]
  rw [Form.visits, List.map_append, List.sum_append, hpairs _ le_rfl]
  cases otherwise <;> simp

/-- a construct without statements that is no procedure adds nothing -/
theorem Counts.sum_eq_zero {count : Visit → Nat} {form : Form} (h : Counts count form.visits)
    (hs : ∀ slot, .statement slot ∉ form.visits) (hp : form.procedure? = none) : (form.visits.map count).sum = 0 := by
  refine List.sum_eq_zero fun total hm => ?_
  obtain ⟨visit, hvisit, rfl⟩ := List.mem_map.1 hm
  cases visit with
  | value slot => exact h.value slot hvisit
  | statement slot => exact absurd hvisit (hs slot)
  | name role user =>
    cases role with
    | «variable» => exact h.variableName user
    | procedure =>
      have htitle : user ∈ form.procedure?.toList := by
        rw [← form.visits_procedure?]
        exact List.mem_filterMap.2 ⟨_, hvisit, rfl⟩
      rw [hp] at htitle
      cases htitle

theorem Counts.expression {count : Visit → Nat} {form : Form} (h : Counts count form.visits)
    (hf : form.isStatement = false) : (form.visits.map count).sum = 0 := by
  refine h.sum_eq_zero (Form.no_statement_visited hf) ?_
  cases form <;> first | rfl | cases hf

/-! ## JavaScript -/

/-- what the text is that a step leaves, where the chains in statement slots open `count` functions -/
def Step.Counted (count : Visit → Nat) (text : String) : Step → Prop
  | branch slot => Opens .javascript text (count (.statement slot))
  | body slot => Opens .javascript text (count (.statement slot))
  | value _ _ absent => if absent = "" then text = "" ∨ IsWord text else IsWord text
  | _ => IsWord text

section JavaScript

variable {count : Visit → Nat} {texts : List String} {a b : String} {n : Nat}

theorem Opens.statement (h : IsWord a) : Opens .javascript (a ++ ";\n") 0 := by
  have hsplit : a ++ ";\n" = (a ++ ";") ++ "\n" := by
    rw [String.append_assoc]
    rfl
  rw [hsplit]
  refine .plain (h.append (by decide)) (opensFunction_of_getLast? ?_)
  simp [Language.functionMarks]

/-- a header that opens no function, and what it opens -/
theorem Opens.braced (ha : IsWord a) (hp : Language.javascript.opensFunction (Outline.entry a.toList).2 = false)
    (hb : Opens .javascript b n) : Opens .javascript (a ++ "\n" ++ b ++ "\x7d\n") n := by
  have hclose : Opens .javascript "\x7d\n" 0 := ⟨rfl, by decide⟩
  simpa using ((Opens.plain ha hp).append hb).append hclose

/-- a line that starts otherwise opens no function -/
theorem opensFunction_of_front {front : String}
    (h : ∀ rest, "function ".toList.isPrefixOf ((front.toList ++ rest).dropWhile (· == ' ')) = false) (rest : String) :
    Language.javascript.opensFunction (Outline.entry (front ++ rest).toList).2 = false := by
  rw [Language.opensFunction, Outline.entry, String.toList_ofList, String.toList_append, Bool.and_eq_false_iff]
  exact .inl (h rest.toList)

/-- the lines of a construct open as many functions as its visits add up to -/
def Form.OpensLine (form : Form) (count : Visit → Nat) (texts : List String) : Prop :=
  Opens .javascript (form.line .javascript ((Language.javascript.template form).render texts true))
    (form.visits.map count).sum

abbrev Step.CountedAll (count : Visit → Nat) : List Step → List String → Prop :=
  List.Forall₂ fun step text => step.Counted count text

theorem Form.opens_value {form : Form} (hf : form.isStatement = false)
    (hw : IsWord ((Language.javascript.template form).render texts true)) (hz : (form.visits.map count).sum = 0) :
    form.OpensLine count texts := by
  have hne : ((Language.javascript.template form).render texts true).isEmpty = false := by simpa using hw.ne_empty
  rw [OpensLine, hz, line, hf, hne]
  exact Opens.statement hw

theorem Form.opens_change {name : String} (hc : Counts count (Form.change name).visits)
    (h : Step.CountedAll count [Template.number 0 false, .userVariable name] texts) :
    (Form.change name).OpensLine count texts := by
  simp only [List.forall₂_cons_left_iff, List.forall₂_nil_left_iff] at h
  obtain ⟨amount, _, hamount, ⟨named, _, hnamed, rfl, rfl⟩, rfl⟩ := h
  have hname : IsWord named := hnamed
  have hvalue : IsWord amount := hamount
  have hsum := hc.sum_eq_zero (by simp [visits]) rfl
  have hword : IsWord (named ++ (" = (typeof " ++ (named ++ (" == 'number' ? " ++ (named ++ (" : 0) + " ++ amount)))))) :=
    hname.append (.append (by decide) (.append hname.2 (.append (by decide) (.append hname.2 (.append (by decide)
      hvalue.2)))))
  rw [OpensLine, hsum]
  change Opens .javascript (named ++ (" = (typeof " ++ (named ++ (" == 'number' ? " ++ (named ++ (" : 0) + " ++ (amount ++
    (";\n" ++ "")))))))) _
  simpa [String.append_assoc] using Opens.statement hword

theorem Form.opens_print (hc : Counts count Form.print.visits)
    (h : Step.CountedAll count [Template.string 0 true] texts) : Form.print.OpensLine count texts := by
  simp only [List.forall₂_cons_left_iff, List.forall₂_nil_left_iff] at h
  obtain ⟨subject, _, hsubject, rfl, rfl⟩ := h
  have hvalue : IsWord subject := hsubject
  have hsum := hc.sum_eq_zero (by simp [visits]) rfl
  have hword : IsWord ("console.log(" ++ (subject ++ ")")) :=
    IsWord.append (by decide) (IsInline.append hvalue.2 (by decide))
  rw [OpensLine, hsum]
  change Opens .javascript ("console.log(" ++ (subject ++ (");\n" ++ ""))) _
  simpa [String.append_assoc] using Opens.statement hword

theorem Form.opens_set {name : String} (hc : Counts count (Form.set name).visits)
    (h : Step.CountedAll count [Template.number 0 true, .userVariable name] texts) :
    (Form.set name).OpensLine count texts := by
  simp only [List.forall₂_cons_left_iff, List.forall₂_nil_left_iff] at h
  obtain ⟨amount, _, hamount, ⟨named, _, hnamed, rfl, rfl⟩, rfl⟩ := h
  have hname : IsWord named := hnamed
  have hvalue : IsWord amount := hamount
  have hsum := hc.sum_eq_zero (by simp [visits]) rfl
  have hword : IsWord (named ++ (" = " ++ amount)) := hname.append (IsInline.append (by decide) hvalue.2)
  rw [OpensLine, hsum]
  change Opens .javascript (named ++ (" = " ++ (amount ++ (";\n" ++ "")))) _
  simpa [String.append_assoc] using Opens.statement hword

theorem Form.opens_loop {mode : LoopMode} (hc : Counts count (Form.loop mode).visits)
    (h : Step.CountedAll count [.value 0 true Language.javascript.falseLiteral, .branch 0] texts) :
    (Form.loop mode).OpensLine count texts := by
  simp only [List.forall₂_cons_left_iff, List.forall₂_nil_left_iff] at h
  obtain ⟨condition, _, hcondition, ⟨body, _, hbody, rfl, rfl⟩, rfl⟩ := h
  have hword : IsWord condition := hcondition
  have hsum : ((Form.loop mode).visits.map count).sum = count (.statement 0) := by
    simp [visits, hc.value 0 List.mem_cons_self]
  rw [OpensLine, hsum]
  cases mode with
  | whileTrue =>
    have hheader : IsWord ("while (" ++ (condition ++ ") \x7b")) := (hword.append (by decide)).behind (by decide)
    change Opens .javascript ("while (" ++ (condition ++ (") \x7b\n" ++ (body ++ ("\x7d\n" ++ ""))))) _
    simpa [String.append_assoc] using Opens.braced hheader (opensFunction_of_front (fun _ => rfl) _) hbody
  | untilTrue =>
    have hheader : IsWord ("while (!" ++ (guardWord condition ++ ") \x7b")) :=
      (hword.guardWord.append (by decide)).behind (by decide)
    change Opens .javascript ("while (!" ++ (guardWord condition ++ (") \x7b\n" ++ (body ++ ("\x7d\n" ++ ""))))) _
    simpa [String.append_assoc] using Opens.braced hheader (opensFunction_of_front (fun _ => rfl) _) hbody

theorem Form.opens_count {name : String} (hc : Counts count (Form.count name).visits)
    (h : Step.CountedAll count
      [.userVariable name, Template.number 0 true, Template.number 1 false, .branch 0] texts) :
    (Form.count name).OpensLine count texts := by
  simp only [List.forall₂_cons_left_iff, List.forall₂_nil_left_iff] at h
  obtain ⟨named, _, hnamed, ⟨low, _, hlow, ⟨high, _, hhigh, ⟨body, _, hbody, rfl, rfl⟩, rfl⟩, rfl⟩, rfl⟩ := h
  have hname : IsInline named := hnamed.2
  have hfrom : IsWord low := hlow
  have hto : IsWord high := hhigh
  have hsum : ((Form.count name).visits.map count).sum = count (.statement 0) := by
    simp [visits, hc.value 0 (by simp [visits]), hc.value 1 (by simp [visits]), hc.variableName]
  have hclause : IsInline (named ++ (" = " ++ (low ++ ("; " ++ (named ++ (" < " ++ (boundAbove high ++ ("; " ++ (named ++
      "++) \x7b"))))))))) :=
    hname.append (.append (by decide) (.append hfrom.2 (.append (by decide) (hname.append (.append (by decide)
      (.append hto.boundAbove.2 (.append (by decide) (hname.append (by decide)))))))))
  have hheader : IsWord ("for (" ++ _) := IsWord.append (by decide) hclause
  rw [OpensLine, hsum]
  change Opens .javascript ("for (" ++ (named ++ (" = " ++ (low ++ ("; " ++ (named ++ (" < " ++ (boundAbove high ++ ("; " ++
    (named ++ ("++) \x7b\n" ++ (body ++ ("\x7d\n" ++ ""))))))))))))) _
  simpa [String.append_assoc] using Opens.braced hheader (opensFunction_of_front (fun _ => rfl) _) hbody

theorem Form.opens_forEach {name : String} (hc : Counts count (Form.forEach name).visits)
    (h : Step.CountedAll count [.userVariable name, Template.list 0 true, .branch 0] texts) :
    (Form.forEach name).OpensLine count texts := by
  simp only [List.forall₂_cons_left_iff, List.forall₂_nil_left_iff] at h
  obtain ⟨named, _, hnamed, ⟨list, _, hlist, ⟨body, _, hbody, rfl, rfl⟩, rfl⟩, rfl⟩ := h
  have hname : IsInline named := hnamed.2
  have hitems : IsWord list := hlist
  have hsum : ((Form.forEach name).visits.map count).sum = count (.statement 0) := by
    simp [visits, hc.value 0 (by simp [visits]), hc.variableName]
  have hclause : IsInline (named ++ (" " ++ ("of" ++ (" " ++ (list ++ ") \x7b"))))) :=
    hname.append (.append (by decide) (.append (by decide) (.append (by decide) (.append hitems.2 (by decide)))))
  have hheader : IsWord ("for (" ++ _) := IsWord.append (by decide) hclause
  rw [OpensLine, hsum]
  change Opens .javascript ("for (" ++ (named ++ (" " ++ ("of" ++ (" " ++ (list ++ (") \x7b\n" ++ (body ++
    ("\x7d\n" ++ ""))))))))) _
  simpa [String.append_assoc] using Opens.braced hheader (opensFunction_of_front (fun _ => rfl) _) hbody

/-- the body of a procedure opens the functions of its statements -/
theorem Opens.procedureBody (ha : Opens .javascript a n) (hb : b = "" ∨ IsWord b) :
    Opens .javascript (Blockwork.procedureBody a b ";\n" Language.javascript.noop) n := by
  unfold Blockwork.procedureBody
  split_ifs with hresult hstatements
  · have hword : IsWord b := hb.resolve_left (by simpa using hresult)
    have hreturn : IsWord (Text.indentation ++ "return " ++ b) := hword.behind (by decide)
    simpa [String.append_assoc] using ha.append (Opens.statement hreturn)
  · exact ha
  · have hempty : a = "" := by simpa using hstatements
    rw [hempty] at ha
    rw [ha.count_eq_zero]
    exact ⟨rfl, by decide⟩

theorem Form.opens_procedure {name : String} (hc : Counts count (Form.procedure name).visits)
    (h : Step.CountedAll count (Target.Brace.procedureSteps name) texts) :
    (Form.procedure name).OpensLine count texts := by
  simp only [Target.Brace.procedureSteps, List.forall₂_cons_left_iff, List.forall₂_nil_left_iff] at h
  obtain ⟨named, _, hnamed, ⟨body, _, hbody, ⟨result, _, hresult, rfl, rfl⟩, rfl⟩, rfl⟩ := h
  have hname : IsInline named := hnamed.2
  have hsum : ((Form.procedure name).visits.map count).sum = 1 + count (.statement 0) := by
    simp [visits, hc.value 0 (by simp [visits]), hc.procedureName]
  have hheader : IsWord ("function " ++ (named ++ "() \x7b")) := IsWord.append (by decide) (hname.append (by decide))
  have hopens : Language.javascript.opensFunction
      (Outline.entry ("function " ++ (named ++ "() \x7b")).toList).2 = true := by
    have hstart : ("function " ++ (named ++ "() \x7b")).toList.dropWhile (· == ' ') =
        ("function " ++ (named ++ "() \x7b")).toList := by
      rw [String.toList_append]
      rfl
    rw [Outline.entry, hstart, String.ofList_toList, Language.opensFunction, Bool.and_eq_true]
    refine ⟨?_, ?_⟩
    · rw [String.toList_append, List.isPrefixOf_iff_prefix]
      exact List.prefix_append _ _
    · rw [← String.append_assoc, String.toList_append, List.getLast?_append]
      rfl
  have hclose : Opens .javascript "\x7d\n" 0 := ⟨rfl, by decide⟩
  have hline : Opens .javascript ("function " ++ (named ++ "() \x7b") ++ "\n") _ := Opens.line hheader
  rw [hopens] at hline
  rw [OpensLine, hsum]
  change Opens .javascript ("function " ++ (named ++ ("() \x7b\n" ++ (procedureBody body result ";\n"
    Language.javascript.noop ++ ("\x7d\n" ++ ""))))) _
  simpa [String.append_assoc] using (hline.append (hbody.procedureBody hresult)).append hclose

/-- conditions in a row: whole lines, and a brace that is not followed by a line end yet -/
theorem Piece.opens_conditions {m : Nat} (h : ∀ n ≤ m, IsWord (Piece.textAt texts (2 * n)) ∧
      Opens .javascript (Piece.textAt texts (2 * n + 1)) (count (.statement n))) :
    ∃ rows, renderAll texts ((List.range (m + 1)).flatMap Target.Brace.conditionPieces) = rows ++ "\x7d" ∧
      Opens .javascript rows ((List.range (m + 1)).map fun n => count (.statement n)).sum := by
  induction m with
  | zero =>
    obtain ⟨hcondition, hbranch⟩ := h 0 le_rfl
    have hheader : IsWord ("if (" ++ (textAt texts 0 ++ ") \x7b")) :=
      IsWord.append (by decide) (IsInline.append hcondition.2 (by decide))
    refine ⟨"if (" ++ (textAt texts 0 ++ ") \x7b") ++ "\n" ++ textAt texts 1, ?_, ?_⟩
    · change "if (" ++ (textAt texts 0 ++ (") \x7b\n" ++ (textAt texts 1 ++ ("\x7d" ++ "")))) = _
      simp [String.append_assoc]
    · simpa using (Opens.plain hheader (opensFunction_of_front (fun _ => rfl) _)).append hbranch
  | succ m ih =>
    obtain ⟨rows, hrender, hrows⟩ := ih fun n hn => h n (Nat.le_succ_of_le hn)
    obtain ⟨hcondition, hbranch⟩ := h (m + 1) le_rfl
    have hheader : IsWord ("\x7d else if (" ++ (textAt texts (2 * (m + 1)) ++ ") \x7b")) :=
      IsWord.append (by decide) (IsInline.append hcondition.2 (by decide))
    have hlast : renderAll texts (Target.Brace.conditionPieces (m + 1)) = " else " ++ ("if (" ++
        (textAt texts (2 * (m + 1)) ++ (") \x7b\n" ++ (textAt texts (2 * (m + 1) + 1) ++ ("\x7d" ++ ""))))) := rfl
    refine ⟨rows ++ ("\x7d else if (" ++ (textAt texts (2 * (m + 1)) ++ ") \x7b") ++ "\n" ++
      textAt texts (2 * (m + 1) + 1)), ?_, ?_⟩
    · have hbrace : ∀ rest, "\x7d" ++ (" else " ++ ("if (" ++ rest)) = "\x7d else if (" ++ rest := by
        intro rest
        rw [← String.append_assoc, ← String.append_assoc]
        rfl
      rw [List.range_succ, List.flatMap_append, renderAll_append, hrender, List.flatMap_singleton, hlast]
      simp [String.append_assoc, hbrace]
    · rw [List.range_succ, List.map_append, List.sum_append]
      refine hrows.append ?_
      simpa using (Opens.plain hheader (opensFunction_of_front (fun _ => rfl) _)).append hbranch

theorem Form.opens_choice {elseifs : Nat} {otherwise : Bool} (hc : Counts count (Form.choice elseifs otherwise).visits)
    (h : Step.CountedAll count (Template.choiceSteps Language.javascript.falseLiteral elseifs otherwise) texts) :
    (Form.choice elseifs otherwise).OpensLine count texts := by
  obtain ⟨hpairs, hlast⟩ := Template.getElem?_choiceSteps Language.javascript.falseLiteral elseifs otherwise
  obtain ⟨rows, hrender, hrows⟩ := Piece.opens_conditions (m := elseifs) fun n hn =>
    ⟨Piece.rel_textAt_of_getElem? h (hpairs n hn).1, Piece.rel_textAt_of_getElem? h (hpairs n hn).2⟩
  rw [OpensLine, hc.choice]
  change Opens .javascript (Piece.renderAll texts ((List.range (elseifs + 1)).flatMap Target.Brace.conditionPieces ++
    ((if otherwise then [.text " else \x7b\n", .hole (2 * (elseifs + 1)), .text "\x7d"] else []) ++ ([.text "\n"] ++ [])))) _
  rw [Piece.renderAll_append, hrender]
  have hclose : Opens .javascript "\x7d\n" 0 := ⟨rfl, by decide⟩
  cases otherwise with
  | false =>
    change Opens .javascript (rows ++ "\x7d" ++ ("\n" ++ "")) _
    simpa [String.append_assoc] using hrows.append hclose
  | true =>
    have hbranch : Opens .javascript (Piece.textAt texts (2 * (elseifs + 1))) (count (.statement (elseifs + 1))) :=
      Piece.rel_textAt_of_getElem? h (hlast rfl)
    have hword : IsWord "\x7d else \x7b" := by decide
    have hbody := Opens.braced hword (by decide) hbranch
    change Opens .javascript (rows ++ "\x7d" ++ (" else \x7b\n" ++ (Piece.textAt texts (2 * (elseifs + 1)) ++
      ("\x7d" ++ ("\n" ++ ""))))) _
    have hbrace : ∀ rest, "\x7d" ++ (" else \x7b\n" ++ rest) = "\x7d else \x7b\n" ++ rest := by
      intro rest
      rw [← String.append_assoc]
      rfl
    simpa [String.append_assoc, hbrace] using hrows.append hbody

/-- **The lines of a construct** in JavaScript. -/
theorem Form.opens_line {form : Form} (hc : Counts count form.visits)
    (h : Step.CountedAll count ((Language.javascript.template form).steps.filter Step.leavesText) texts)
    (hv : form.isStatement = false → IsWord ((Language.javascript.template form).render texts true)) :
    form.OpensLine count texts := by
  cases form with
  | change name => exact opens_change hc h
  | print => exact opens_print hc h
  | set name => exact opens_set hc h
  | jump way =>
    have hword : IsWord way.keyword := by cases way <;> decide
    exact Opens.statement hword
  | choice elseifs otherwise => exact opens_choice hc (Template.choiceSteps_leaving _ elseifs otherwise ▸ h)
  | loop mode => cases mode <;> exact opens_loop hc h
  | count name => exact opens_count hc h
  | forEach name => exact opens_forEach hc h
  | procedure name => exact opens_procedure hc h
  | _ => exact opens_value rfl (hv rfl) (hc.expression rfl)

theorem Step.Counted.fits {step : Step} {text : String} (h : step.Counted count text) (hl : step.leavesText) :
    List.Forall₂ Texture.Fits step.textures [text] := by
  cases step with
  | value slot bare absent =>
    refine .cons ?_ .nil
    simp only [Counted] at h
    split_ifs at h ⊢
    · exact h
    · exact h
  | branch slot => exact .cons h.rows .nil
  | body slot => exact .cons h.rows .nil
  | require library => cases hl
  | hoist key name source => cases hl
  | _ => exact .cons h .nil

theorem Step.CountedAll.fits {steps : List Step} (h : Step.CountedAll count (steps.filter Step.leavesText) texts) :
    List.Forall₂ Texture.Fits (steps.flatMap Step.textures) texts := by
  induction steps generalizing texts with
  | nil =>
    cases h
    exact .nil
  | cons step rest ih =>
    rw [List.flatMap_cons]
    by_cases hl : step.leavesText
    · rw [List.filter_cons_of_pos hl] at h
      cases h with
      | cons hstep hrest => exact List.rel_append (hstep.fits hl) (ih hrest)
    · have hnone : step.textures = [] := by
        cases step with
        | require library => rfl
        | hoist key name source => rfl
        | _ => exact absurd rfl hl
      rw [List.filter_cons_of_neg hl] at h
      rw [hnone]
      exact ih h

/-- the chains in the statement slots that are visited open `count` functions -/
structure Site.Counted (count : Visit → Nat) (site : Site) (visits : List Visit) : Prop where
  statement : ∀ slot, .statement slot ∈ visits → slot < Slots.limit → ∀ first,
    Slots.get? slot site.statements = some first →
      first.chain.Yields (Pass.Rowed .javascript) fun code => Opens .javascript code (count (.statement slot))
  empty : ∀ slot, .statement slot ∈ visits → slot < Slots.limit → Slots.get? slot site.statements = none →
    count (.statement slot) = 0

/-- the indented code of a statement slot; where there is none, nothing is opened -/
theorem Site.Counted.yields_statement? {site : Site} {visits : List Visit} {slot : Nat}
    (h : site.Counted count visits) (hv : .statement slot ∈ visits) :
    (site.statement? slot).Yields (Pass.Rowed .javascript) fun found =>
      (found = none → count (.statement slot) = 0) ∧
        ∀ text ∈ found, Opens .javascript text (count (.statement slot)) := by
  refine Site.yields_numbered fun hslot => ?_
  refine Site.yields_statement? (fun hc => ⟨fun _ => h.empty slot hv hslot hc, fun _ hm => nomatch hm⟩) fun first hc =>
    (h.statement slot hv hslot first hc).imp fun code hcode => ?_
  split_ifs with hempty
  · have hnone : code = "" := by simpa using hempty
    rw [hnone] at hcode
    exact ⟨fun _ => hcode.count_eq_zero, fun _ hm => nomatch hm⟩
  · refine ⟨fun hm => (nomatch hm), ?_⟩
    rintro _ ⟨⟩
    exact hcode.indented

theorem Site.Counted.yields_branch {site : Site} {visits : List Visit} {slot : Nat}
    (h : site.Counted count visits) (hv : .statement slot ∈ visits) :
    (site.branch slot).Yields (Pass.Rowed .javascript) fun text =>
      Opens .javascript text (count (.statement slot)) := by
  refine Site.yields_branch (h.yields_statement? hv) (fun text htext => htext.2 text rfl) fun hnone pass hp => ?_
  rw [hnone.1 rfl, hp.language]
  exact ⟨rfl, by decide⟩

/-- **One step** leaves what it should. -/
theorem Step.yields_counted {form : Form} {site : Site} {step : Step}
    (hm : step ∈ (Language.javascript.template form).steps)
    (hs : site.Rowed (Pass.Rowed .javascript) form.visits) (hc : site.Counted count form.visits)
    (texts : List String) :
    (step.run site texts).Yields (Pass.Rowed .javascript)
      (Appends (fun step text => step.Counted count text) [step] texts) := by
  obtain ⟨textures, hrowed⟩ := Language.step_isRowed hm
  cases step with
  | value slot bare absent =>
    have habsent : absent = "" ∨ IsWord absent := by simpa [Step.isRowed] using hrowed
    have hv : .value slot ∈ form.visits := mem_visits_of_step hm List.mem_cons_self
    refine yields_text rfl ((hs.valueOr hv bare habsent).imp fun text ht => ?_)
    simp only [Step.Counted]
    split_ifs with he
    · rw [if_pos he] at ht
      exact ht
    · rw [if_neg he] at ht
      exact ht
  | branch slot => exact yields_text rfl (hc.yields_branch (mem_visits_of_step hm List.mem_cons_self))
  | body slot =>
    have hv : .statement slot ∈ form.visits := mem_visits_of_step hm List.mem_cons_self
    refine yields_text rfl ((hc.yields_statement? hv).imp fun found hfound => ?_)
    cases found with
    | none =>
      rw [Step.Counted, hfound.1 rfl]
      exact Opens.empty
    | some text => exact hfound.2 text rfl
  | userVariable user => exact yields_text rfl (Gen.yields_nameOf _ user)
  | userProcedure user => exact yields_text rfl (Gen.yields_nameOf _ user)
  | fresh base => exact yields_text rfl (Gen.yields_freshName base)
  | temporary base => exact yields_text rfl (Gen.yields_declareTemporary base)
  | helper helper =>
    exact yields_text rfl (Gen.yields_provide (Language.helper_key hm) _ fun name hn =>
      Helper.isSection_source hrowed hn)
  | require library =>
    have hapart : ∀ key ∈ libraryKeys, key ∉ helperKeys := by decide
    have hword : IsWord library.source := of_decide_eq_true hrowed
    exact yields_none rfl (Gen.yields_define hword.isSection (by simp) fun _ =>
      hapart _ (Language.library_key hm))
  | hoist key name source =>
    obtain ⟨before, rest, hsplit⟩ := List.append_of_mem hm
    cases (Language.steps_before_hoist hsplit).1

end JavaScript

/-! ## Procedures of blocks -/

/-- what a visit adds to the procedures of a block with these blocks in its slots -/
def Block.visitCount (values statements : List (Nat × Block)) (visit : Visit) : Nat :=
  (Finding.procedures (visit.findings (surveys values) (surveys statements))).length

theorem Block.visitCount_statement (values statements : List (Nat × Block)) {slot : Nat} (h : slot < Slots.limit) :
    visitCount values statements (.statement slot) =
      match Slots.get? slot statements with
      | none => 0
      | some first => (Finding.procedures first.survey.chain).length := by
  rw [visitCount, Visit.findings, if_pos h, surveys_eq_map, Slots.get?_map]
  cases Slots.get? slot statements with
  | none => rfl
  | some first => rfl

theorem Finding.length_procedures_flatMap (visits : List Visit) (found : Visit → List Finding) :
    (procedures (visits.flatMap found)).length = (visits.map fun visit => (procedures (found visit)).length).sum := by
  induction visits with
  | nil => rfl
  | cons visit rest ih => rw [List.flatMap_cons, procedures_append, List.length_append, ih, List.map_cons, List.sum_cons]

section Blocks

variable {head : Head} {values statements : List (Nat × Block)} {next : Option Block} {form : Form}

theorem Block.counts_visitCount (hv : ∀ slot, .value slot ∈ form.visits → ∀ child, Slots.get? slot values = some child →
      Finding.procedures child.survey.own = []) : Counts (visitCount values statements) form.visits := by
  refine ⟨fun slot hm => ?_, fun _ => rfl, fun _ => rfl⟩
  rw [visitCount, Visit.findings, surveys_eq_map, Slots.get?_map]
  cases hc : Slots.get? slot values with
  | none => rfl
  | some child => simpa using hv slot hm child hc

/-- the procedures of a block are those that its visits add -/
theorem Block.length_procedures_own (hf : head.form = .ok form) :
    (Finding.procedures (mk head values statements next).survey.own).length =
      (form.visits.map (visitCount values statements)).sum := by
  rw [survey, Head.findings, hf]
  exact Finding.length_procedures_flatMap _ _

theorem Block.IsValue.procedures_own {block : Block} (h : block.IsValue) :
    Finding.procedures block.survey.own = [] := by
  induction block with
  | mk head values statements next ihv _ _ =>
    cases hf : head.form with
    | error cause =>
      rw [survey, Head.findings, hf]
      rfl
    | ok form =>
      obtain ⟨hform, hchildren⟩ := h.of_form hf
      have hcounts : Counts (visitCount values statements) form.visits := by
        refine counts_visitCount fun slot hm child hc => ?_
        have hchild := hchildren slot hm child hc
        obtain ⟨entry, he, rfl⟩ := Slots.mem_of_get? hc
        exact ihv entry he hchild
      rw [← List.length_eq_zero_iff, length_procedures_own hf, hcounts.expression hform]

/-- **The code of a chain** in JavaScript opens a function for each procedure in it. -/
theorem Block.yields_opens {block : Block} (h : block.WellPlugged) :
    (block.chainCode (.standard .javascript)).Yields (Pass.Rowed .javascript) fun code =>
      Opens .javascript code (Finding.procedures block.survey.chain).length := by
  induction block with
  | mk head values statements next _ ihs ihn =>
    have hrowed : ∀ form, head.form = .ok form → Site.Rowed (Pass.Rowed .javascript)
        ⟨emissions (.standard .javascript) values, emissions (.standard .javascript) statements⟩ form.visits :=
      fun form hf => h.rowed hf
    cases h with
    | mk hvalues hstatements hnext =>
    have hcounted : ∀ form, head.form = .ok form → Site.Counted (visitCount values statements)
        ⟨emissions (.standard .javascript) values, emissions (.standard .javascript) statements⟩ form.visits := by
      intro form hf
      refine ⟨fun slot hv hslot first hc => ?_, fun slot hv hslot hc => ?_⟩
      · obtain ⟨plugged, hp, rfl⟩ := exists_of_get?_emissions hc
        have hchain := hstatements form hf slot hv plugged hp
        rw [visitCount_statement _ _ hslot, hp]
        obtain ⟨entry, he, rfl⟩ := Slots.mem_of_get? hp
        exact ihs entry he hchain
      · rw [get?_emissions, Option.map_eq_none_iff] at hc
        rw [visitCount_statement _ _ hslot, hc]
    have hcode : ((mk head values statements next).code (.standard .javascript) true).Yields (Pass.Rowed .javascript)
        fun text => ∃ form, head.form = .ok form ∧ Opens .javascript (form.line .javascript text)
          (Finding.procedures (mk head values statements next).survey.own).length := by
      refine yields_code_of _ next fun form hf => ?_
      have hsteps := Step.yields_runAll_of (fun step hm => Step.yields_counted hm (hrowed form hf) (hcounted form hf)) []
      refine hsteps.imp fun texts htexts => ?_
      obtain ⟨left, rfl, hleft⟩ := htexts
      rw [length_procedures_own hf]
      refine Form.opens_line (counts_visitCount fun slot hv child hc => ?_) hleft fun hform => ?_
      · exact (hvalues form hf slot hv child hc).procedures_own
      · exact Template.isWord_render hform (Step.CountedAll.fits hleft) true
    have hlink : (head.link ((mk head values statements next).code (.standard .javascript))).Yields
        (Pass.Rowed .javascript) fun own => ∃ form, head.form = .ok form ∧ Opens .javascript own
          (Finding.procedures (mk head values statements next).survey.own).length :=
      Head.yields_line (fun _ hp => hp.language) hcode
    refine hlink.bind fun own hown => ?_
    obtain ⟨-, -, hown⟩ := hown
    have hbelow : (nextChain (.standard .javascript) next).Yields (Pass.Rowed .javascript) fun rest =>
        Opens .javascript rest (Finding.procedures (nextFindings next)).length := by
      cases next with
      | none => exact Gen.yields_pure Opens.empty
      | some below => exact ihn below rfl (hnext below rfl)
    refine hbelow.bind fun rest hrest => Gen.yields_pure ?_
    rw [survey, Finding.procedures_append, List.length_append]
    exact hown.append hrest

end Blocks

/-! ## Python -/

namespace Outline

def functions : Outline → Nat
  | done => 0
  | line text suite below =>
    (if Language.python.opensFunction text then 1 else 0) + suite.functions + below.functions

theorem functions_append (outline other : Outline) :
    (outline ++ other).functions = outline.functions + other.functions := by
  induction outline with
  | done => rw [done_append, functions, Nat.zero_add]
  | line text suite below _ ih =>
    rw [line_append, functions, functions, ih]
    omega

theorem functions_filled (outline : Outline) : outline.filled.functions = outline.functions := by
  cases outline with
  | done => decide
  | line => rfl

theorem functions_ofSuites {suites : List (String × Outline)}
    (h : ∀ entry ∈ suites, Language.python.opensFunction entry.1 = false) :
    (ofSuites suites).functions = (suites.map fun entry => entry.2.functions).sum := by
  induction suites with
  | nil => rfl
  | cons entry rest ih =>
    obtain ⟨hentry, hrest⟩ := List.forall_mem_cons.1 h
    rw [ofSuites, functions, hentry, ih hrest, List.map_cons, List.sum_cons]
    simp

theorem countP_lines (indent : Nat) (outline : Outline) :
    (outline.lines indent).countP (fun line => Language.python.opensFunction line.2) = outline.functions := by
  induction outline generalizing indent with
  | done => rfl
  | line text suite below ihs ihb =>
    simp only [lines, List.countP_cons, List.countP_append, ihs, ihb, functions]
    omega

/-- the lines of a text that open functions are those of its outline -/
theorem Proper.functionLines_text {outline : Outline} (h : outline.Proper) (indent : Nat) :
    functionLines .python (outline.text indent) = outline.functions := by
  rw [functionLines, h.entries_text, countP_lines]

theorem Proper.opens {outline : Outline} (h : outline.Proper) : Opens .python (outline.text 0) outline.functions := by
  refine ⟨?_, h.functionLines_text 0⟩
  rw [IsRows, text, String.toList_ofList]
  exact Text.flow_ended h.isWord_row

end Outline

/-- a line that starts with another keyword opens no function -/
theorem opensFunction_of_keyword {keyword : String}
    (h : ∀ rest, "def ".toList.isPrefixOf (keyword.toList ++ rest) = false) (rest : String) :
    Language.python.opensFunction (keyword ++ rest) = false := by
  rw [Language.opensFunction, String.toList_append, Bool.and_eq_false_iff]
  exact .inl (h rest.toList)

theorem IsPhrase.opensFunction {text : String} (h : IsPhrase text) : Language.python.opensFunction text = false := by
  rw [Language.opensFunction, Bool.and_eq_false_iff]
  right
  rw [beq_eq_false_iff_ne]
  exact h.2.2

section Python

variable {count : Visit → Nat} {suites : Nat → Outline} {own : Outline}

theorem Counts.single {form : Form} (hc : Counts count form.visits) (hs : ∀ slot, .statement slot ∉ form.visits)
    (hp : form.procedure? = none) (h : ∃ text, IsPhrase text ∧ own = .single text) :
    own.functions = (form.visits.map count).sum := by
  obtain ⟨text, hphrase, rfl⟩ := h
  rw [hc.sum_eq_zero hs hp, Outline.single, Outline.functions, hphrase.opensFunction]
  rfl

theorem choice_opensFunction (condition : Nat → String) (suites : Nat → Outline) (elseifs : Nat) (otherwise : Bool) :
    ∀ entry ∈ ((List.range (elseifs + 1)).map fun n =>
      ((if n = 0 then "if " else "elif ") ++ condition n ++ ":", (suites n).filled)) ++
        (if otherwise then [("else:", (suites (elseifs + 1)).filled)] else []),
      Language.python.opensFunction entry.1 = false := by
  refine List.forall_mem_append.2 ⟨fun entry hm => ?_, fun entry hm => ?_⟩
  · obtain ⟨n, -, rfl⟩ := List.mem_map.1 hm
    rw [String.append_assoc]
    split_ifs
    · exact opensFunction_of_keyword (fun _ => rfl) _
    · exact opensFunction_of_keyword (fun _ => rfl) _
  · cases otherwise with
    | false => cases hm
    | true =>
      have helse : Language.python.opensFunction "else:" = false := by decide
      rw [List.mem_singleton.1 hm]
      exact helse

theorem procedure_opensFunction (named : String) :
    Language.python.opensFunction ("def " ++ named ++ "():") = true := by
  rw [Language.opensFunction, Bool.and_eq_true]
  refine ⟨?_, ?_⟩
  · rw [String.append_assoc, String.toList_append, List.isPrefixOf_iff_prefix]
    exact List.prefix_append _ _
  · rw [String.toList_append, List.getLast?_append]
    rfl

/-- **The lines of a construct** in Python. -/
theorem Form.Lays.functions {form : Form} {result : Bool} (hc : Counts count form.visits)
    (hs : ∀ slot, .statement slot ∈ form.visits → (suites slot).functions = count (.statement slot))
    (h : form.Lays suites result own) : own.functions = (form.visits.map count).sum := by
  have hheader : ∀ {keyword clause : String} (slot : Nat), .statement slot ∈ form.visits →
      (∀ rest, "def ".toList.isPrefixOf (keyword.toList ++ rest) = false) →
      (Outline.line (keyword ++ clause ++ ":") (suites slot).filled .done).functions = count (.statement slot) := by
    intro keyword clause slot hslot hkeyword
    rw [Outline.functions, String.append_assoc, opensFunction_of_keyword hkeyword, Outline.functions_filled,
      hs slot hslot, Outline.functions]
    simp
  cases form with
  | choice elseifs otherwise =>
    obtain ⟨condition, rfl⟩ := h
    have hbranches : ((List.range (elseifs + 1)).map fun n => (suites n).filled.functions) =
        (List.range (elseifs + 1)).map fun n => count (.statement n) := by
      refine List.map_congr_left fun n hn => ?_
      rw [Outline.functions_filled]
      exact hs n (List.mem_append_left _ (List.mem_flatMap.2 ⟨n, hn, by simp⟩))
    rw [Outline.functions_ofSuites (choice_opensFunction condition suites elseifs otherwise), hc.choice,
      List.map_append, List.sum_append, List.map_map]
    refine congrArg₂ (· + ·) (congrArg List.sum hbranches) ?_
    cases otherwise with
    | false => rfl
    | true =>
      have hlast := hs (elseifs + 1) (by simp [visits])
      simpa [Outline.functions_filled] using hlast
  | loop mode =>
    obtain ⟨condition, rfl⟩ := h
    rw [hheader 0 (by simp [visits]) fun _ => rfl]
    simp [visits, hc.value 0 (by simp [visits])]
  | count name =>
    obtain ⟨range, rfl⟩ := h
    rw [hheader 0 (by simp [visits]) fun _ => rfl]
    simp [visits, hc.value 0 (by simp [visits]), hc.value 1 (by simp [visits]), hc.variableName]
  | forEach name =>
    obtain ⟨range, rfl⟩ := h
    rw [hheader 0 (by simp [visits]) fun _ => rfl]
    simp [visits, hc.value 0 (by simp [visits]), hc.variableName]
  | procedure name =>
    obtain ⟨named, value, rfl⟩ := h
    have hbody : (if result then suites 0 ++ .single ("return " ++ value) else (suites 0).filled).functions =
        count (.statement 0) := by
      rw [← hs 0 (by simp [visits])]
      split_ifs
      · rw [Outline.functions_append, Outline.single, Outline.functions, opensFunction_of_keyword fun _ => rfl]
        rfl
      · exact Outline.functions_filled _
    rw [Outline.functions, procedure_opensFunction, hbody]
    simp [visits, Outline.functions, hc.value 0 (by simp [visits]), hc.procedureName]
  | _ => exact hc.single (by simp [visits]) rfl h

end Python

/-- **The outline of a chain** has a line that opens a function for each procedure in it. -/
theorem Block.Laid.functions {block : Block} {outline : Outline} (hw : block.WellPlugged) (h : block.Laid outline) :
    outline.functions = (Finding.procedures block.survey.chain).length := by
  induction block generalizing outline with
  | mk head values statements next _ ihs ihn =>
    cases hw with
    | mk hvalues hstatements hnext =>
    cases h with
    | @mk _ _ _ _ form suites own rest hf hslots hlaid hnone hlays hbelow hend =>
    have hcounts : Counts (visitCount values statements) form.visits :=
      counts_visitCount fun slot hv child hc => (hvalues form hf slot hv child hc).procedures_own
    have hsuites : ∀ slot, .statement slot ∈ form.visits →
        (suites slot).functions = visitCount values statements (.statement slot) := by
      intro slot hv
      rw [visitCount_statement _ _ (hslots slot hv)]
      cases hc : Slots.get? slot statements with
      | none =>
        rw [hnone slot hv hc]
        rfl
      | some first =>
        have hplugged := hstatements form hf slot hv first hc
        have hfirst := hlaid slot hv first hc
        obtain ⟨entry, he, rfl⟩ := Slots.mem_of_get? hc
        exact ihs entry he hplugged hfirst
    have hrest : rest.functions = (Finding.procedures (nextFindings next)).length := by
      cases next with
      | none =>
        rw [hend rfl]
        rfl
      | some below => exact ihn below rfl (hnext below rfl) (hbelow below rfl)
    have hchain : (Block.mk head values statements next).survey.chain =
        (Block.mk head values statements next).survey.own ++ nextFindings next := rfl
    rw [Outline.functions_append, hlays.functions hcounts hsuites, hrest, hchain, Finding.procedures_append,
      List.length_append, length_procedures_own hf]

/-! ## Whole programs -/

theorem Block.yields_functionLines {language : Language} {inv : Pass → Prop} {blocks : List Block}
    (h : ∀ block ∈ blocks, (block.chainCode (.standard language)).Yields inv fun code =>
      Opens language code (Finding.procedures block.survey.chain).length) :
    (chainsCode (.standard language) blocks).Yields inv fun body =>
      Opens language body (Block.procedures blocks).length := by
  induction blocks with
  | nil => exact Gen.yields_pure Opens.empty
  | cons block rest ih =>
    obtain ⟨hblock, hrest⟩ := List.forall_mem_cons.1 h
    refine hblock.bind fun first hfirst => (ih hrest).bind fun others hothers => Gen.yields_pure ?_
    have hprocedures : Block.procedures (block :: rest) =
        Finding.procedures block.survey.chain ++ Block.procedures rest := Finding.procedures_append _ _
    rw [hprocedures, List.length_append]
    exact hfirst.append hothers

/-- **Outside Dart the body of a program opens a function for each procedure block** that is visited, if all value slots
that are visited hold value kinds. -/
theorem functionLines_body {language : Language} (hl : language ≠ .dart) {blocks : List Block}
    (hb : ∀ block ∈ blocks, block.WellPlugged) {body : String} {pass : Pass}
    (h : programRun language blocks = (.ok body, pass)) :
    functionLines language body = (Block.procedures blocks).length := by
  cases language with
  | dart => exact absurd rfl hl
  | javascript =>
    have hyields := Block.yields_functionLines fun block hm => Block.yields_opens (hb block hm)
    exact ((hyields (.start .javascript) (Pass.rowed_start _)).2 body (congrArg Prod.fst h)).lines
  | python =>
    have hchain : ∀ block ∈ blocks, (block.chainCode (.standard .python)).Yields (Pass.Reachable .python) fun code =>
        Opens .python code (Finding.procedures block.survey.chain).length := by
      intro block hm
      refine (Block.yields_outline (hb block hm)).imp fun code hcode => ?_
      obtain ⟨outline, hlaid, hproper, rfl⟩ := hcode
      rw [← hlaid.functions (hb block hm)]
      exact hproper.opens
    exact ((Block.yields_functionLines hchain (.start .python) .start).2 body (congrArg Prod.fst h)).lines

/-- what becomes of the procedures of a workspace where functions are hoisted -/
structure HoistedOnce (blocks : List Block) (functions : List Definition) : Prop where
  /-- each procedure block that is visited makes a function of its own -/
  own : (ownFunctions blocks).length = (Block.procedures blocks).length
  /-- of those with one name, the function that was made first is kept -/
  first : ∀ function, function ∈ functions ↔ ∃ before after, ownFunctions blocks = before ++ function :: after ∧
    function.key ∉ before.map Definition.key
  /-- one function is kept for each title -/
  length : functions.length = (Block.procedures blocks).dedup.length
  /-- so none is lost just when no two blocks have one title -/
  lossless : functions.length = (Block.procedures blocks).length ↔ (Block.procedures blocks).Nodup
  /-- and then the functions are those that the blocks made -/
  all : (Block.procedures blocks).Nodup → functions = ownFunctions blocks

theorem hoistedOnce {blocks : List Block} {body : String} {pass : Pass} (h : programRun .dart blocks = (.ok body, pass)) :
    HoistedOnce blocks pass.registry.functions := by
  obtain ⟨hown, hlength, hall⟩ := programRun_functions_length h
  refine ⟨hown, fun function => ?_, hlength, ?_, hall⟩
  · rw [programRun_functions h, mem_foldl_put_iff]
  · rw [hlength]
    exact nodup_iff_length_dedup.symm

/-- every function stands in the program, in a section of its own -/
theorem function_mem_sections {blocks : List Block} {body : String} {pass : Pass}
    (h : programRun .dart blocks = (.ok body, pass)) :
    ∀ function ∈ pass.registry.functions, function.source ∈ pass.registry.sections := by
  intro function hm
  obtain ⟨before, after, hsplit, -⟩ := ((hoistedOnce h).first function).1 hm
  have hown : function ∈ ownFunctions blocks := hsplit ▸ List.mem_append_right _ List.mem_cons_self
  obtain ⟨procedure, -, hfunction⟩ := List.mem_map.1 hown
  have hnamed : function.source ∈ (pass.registry.entries.filter (·.name.isSome)).map Definition.source := by
    refine List.mem_map_of_mem (List.mem_filter.2 ⟨(List.mem_filter.1 hm).1, ?_⟩)
    rw [← hfunction]
    rfl
  unfold Registry.sections
  simp only
  split_ifs
  · exact hnamed
  · exact List.mem_cons_of_mem _ hnamed

/-- **When a procedure is lost.** Let a workspace be generated in Dart. Each procedure block that is visited, wherever it
stands, makes a function of its own, but only one is hoisted for each title, the one that was made first: none is lost
just when no two of these blocks have one title. The other targets generate the workspace too, hoist no procedure, and
generate a function for each of the blocks: their programs have as many lines that open a function as there are
procedure blocks visited, if all value slots that are visited hold value kinds. -/
theorem procedures_hoisted_iff_distinct {blocks : List Block} {program : String}
    (h : generate .dart blocks = .ok program) :
    (∃ body pass, programRun .dart blocks = (.ok body, pass) ∧ program = pass.finish body ∧
      HoistedOnce blocks pass.registry.functions ∧
      ∀ function ∈ pass.registry.functions, function.source ∈ pass.registry.sections) ∧
    ∀ language, language ≠ .dart → ∃ body pass, programRun language blocks = (.ok body, pass) ∧
      generate language blocks = .ok (pass.finish body) ∧ pass.registry.functions = [] ∧
      (generatedProcedures (programChronicle language blocks)).length = (Block.procedures blocks).length ∧
      ((∀ block ∈ blocks, block.WellPlugged) → functionLines language body = (Block.procedures blocks).length) := by
  refine ⟨?_, fun language hl => ?_⟩
  · obtain ⟨body, pass, hrun, rfl⟩ := generate_ok_iff.1 h
    exact ⟨body, pass, hrun, rfl, hoistedOnce hrun, function_mem_sections hrun⟩
  · obtain ⟨other, hother⟩ := generate_ok_of_ok language h
    obtain ⟨body, pass, hrun, rfl⟩ := generate_ok_iff.1 hother
    have hlength := (programRun_tracks hrun).1.length_eq
    rw [List.length_map] at hlength
    exact ⟨body, pass, hrun, hother, programRun_functions_eq_nil hl hrun, hlength, fun hb => functionLines_body hl hb hrun⟩

def printer (title text : String) : Block :=
  .mk { Head.bare Kind.procedure.name with titles := [(0, title)] } []
    [(0, .mk (Head.bare Kind.print.name) [(0, .text text)] [] none)] none

def distinctPrinters : List Block :=
  [.mk { Head.bare Kind.procedure.name with titles := [(0, "g")] } [] [(0, printer "f" "a")] (some (printer "h" "b"))]

theorem wellPlugged_printer (title text : String) : (printer title text).WellPlugged := by
  have htext : (Block.text text).IsValue := .of_values .text rfl rfl (List.forall_mem_nil _)
  refine .mk (fun _ _ _ _ _ hc => nomatch hc) (fun _ _ slot _ first hc => ?_) nofun
  obtain ⟨entry, he, rfl⟩ := Slots.mem_of_get? hc
  rw [List.mem_singleton.1 he]
  refine .mk (fun _ _ slot _ child hc => ?_) (fun _ _ _ _ _ hc => nomatch hc) nofun
  obtain ⟨entry, he, rfl⟩ := Slots.mem_of_get? hc
  rw [List.mem_singleton.1 he]
  exact htext

theorem wellPlugged_distinctPrinters : ∀ block ∈ distinctPrinters, block.WellPlugged := by
  refine List.forall_mem_singleton.2 (.mk (fun _ _ _ _ _ hc => nomatch hc) (fun _ _ slot _ first hc => ?_) ?_)
  · obtain ⟨entry, he, rfl⟩ := Slots.mem_of_get? hc
    rw [List.mem_singleton.1 he]
    exact wellPlugged_printer "f" "a"
  · rintro below ⟨⟩
    exact wellPlugged_printer "h" "b"

/-- with different titles each procedure has its function in every target -/
theorem distinctPrinters_hoisted :
    Block.procedures distinctPrinters = ["g", "f", "h"] ∧
      (∃ body pass, programRun .dart distinctPrinters = (.ok body, pass) ∧ pass.registry.functions.length = 3) ∧
      ∀ language, language ≠ .dart → ∃ body pass, programRun language distinctPrinters = (.ok body, pass) ∧
        functionLines language body = 3 := by
  have htitles : Block.procedures distinctPrinters = ["g", "f", "h"] := by decide +kernel
  have hprogram : generate .dart distinctPrinters = .ok ("dynamic f() \x7b\n  print('a');\n\x7d\n\n" ++
      "dynamic g() \x7b\n  ;\n\x7d\n\n" ++ "dynamic h() \x7b\n  print('b');\n\x7d\n\nmain() \x7b\n\x7d\n") := by decide +kernel
  obtain ⟨⟨body, pass, hrun, -, hoisted, -⟩, hothers⟩ := procedures_hoisted_iff_distinct hprogram
  refine ⟨htitles, ⟨body, pass, hrun, ?_⟩, fun language hl => ?_⟩
  · rw [hoisted.length, htitles]
    rfl
  · obtain ⟨body, pass, hrun, -, -, -, hlines⟩ := hothers language hl
    exact ⟨body, pass, hrun, (hlines wellPlugged_distinctPrinters).trans (by rw [htitles]; rfl)⟩

/-- two procedures of one title -/
def twinPrinters : List Block :=
  [printer "f" "a", printer "f" "b"]

/-- Dart has no function for the second of them, and reports no error. The other targets have both. -/
theorem twinPrinters_lose_one :
    Block.procedures twinPrinters = ["f", "f"] ∧
      generate .dart twinPrinters = .ok "dynamic f() \x7b\n  print('a');\n\x7d\n\nmain() \x7b\n\x7d\n" ∧
      generate .javascript twinPrinters =
        .ok "function f() \x7b\n  console.log('a');\n\x7d\nfunction f() \x7b\n  console.log('b');\n\x7d\n" ∧
      generate .python twinPrinters = .ok "def f():\n  print('a')\ndef f():\n  print('b')\n" ∧
      ¬ ∀ blocks program, generate .dart blocks = .ok program →
        (programRun .dart blocks).2.registry.functions.length = (Block.procedures blocks).length := by
  have htitles : Block.procedures twinPrinters = ["f", "f"] := by decide +kernel
  have hprogram : generate .dart twinPrinters =
      .ok "dynamic f() \x7b\n  print('a');\n\x7d\n\nmain() \x7b\n\x7d\n" := by decide +kernel
  have hone : (programRun .dart twinPrinters).2.registry.functions.length = 1 := by decide +kernel
  refine ⟨htitles, hprogram, by decide +kernel, by decide +kernel, fun hall => ?_⟩
  have htwo := hall twinPrinters _ hprogram
  rw [hone, htitles] at htwo
  cases htwo

end Blockwork
