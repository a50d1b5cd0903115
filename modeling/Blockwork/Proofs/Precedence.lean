/-
Generated arithmetic reads back as the expression it stands for.

- `Stands`: what the code of a formula can look like. It is held together by itself, or it starts with a minus
  sign, or, where its place needs no brackets, it has an operator with blanks around it. Each of the guards that
  templates put around operands turns such code into code that is held together (`Stands.guardMinus`,
  `Stands.receiver`).
- `stands_number`, `stands_random`, `stands_arithmetic`, `stands_modulo`, `stands_single`: the templates of the
  targets, given operands that stand for their trees, give code that stands for theirs.
-/
import Blockwork.Proofs.Formula
import Blockwork.Proofs.Spelling

namespace Blockwork

open Grammar

variable {language : Language}

/-! ## Code that stands for a tree -/

/-- up to its end, a literal is either scanned whole or not at all -/
theorem scanLiteral_of_closesAtEnd {cs : List Char} (h : Text.closesAtEnd cs) :
    ∀ u rest, scanLiteral cs = some (u, rest) → rest = [] := by
  induction cs using Text.closesAtEnd.induct with
  | case1 => cases h
  | case2 =>
    intro u rest hs
    obtain ⟨-, rfl⟩ := Prod.mk.inj (Option.some.inj hs)
    rfl
  | case3 cs hcs =>
    rw [Text.closesAtEnd] at h
    · cases h
    · exact hcs
  | case4 c cs ih =>
    intro u rest hs
    simp only [Text.closesAtEnd, Bool.and_eq_true] at h
    simp only [scanLiteral, Option.map_eq_some_iff, Prod.mk.injEq] at hs
    obtain ⟨⟨v, r⟩, hr, -, rfl⟩ := hs
    exact ih h.2 v r hr
  | case5 => cases h
  | case6 c cs hq hq' hb hb' ih =>
    intro u rest hs
    rw [Text.closesAtEnd] at h
    · by_cases hn : c = '\n'
      · subst hn
        cases hs
      · rw [scanLiteral] at hs
        · simp only [Option.map_eq_some_iff, Prod.mk.injEq] at hs
          obtain ⟨⟨v, r⟩, hr, -, rfl⟩ := hs
          exact ih h v r hr
        all_goals assumption
    all_goals assumption

/-- an expression that is one whole literal is held together by itself -/
theorem Grammar.Reading.of_isLiteral {cs : List Char} {t : Tree} (h : Reading language .sum cs t)
    (hl : Text.isLiteral cs) : Reading language .primary cs t := by
  obtain ⟨ts, hlex, hread⟩ := h
  obtain ⟨ds, rfl, hclose⟩ : ∃ ds, cs = '\'' :: ds ∧ Text.closesAtEnd ds := by
    unfold Text.isLiteral at hl
    split at hl
    · exact ⟨_, rfl, hl⟩
    · cases hl
  have htokens := hlex.tokens_eq
  cases hs : scanLiteral ds with
  | none =>
    have hscan : scan language ('\'' :: ds) = none := by simp [scan, hs]
    rw [tokens_of_scan_none hscan] at htokens
    cases htokens
  | some pair =>
    obtain ⟨u, rest⟩ := pair
    obtain rfl := scanLiteral_of_closesAtEnd hclose u rest hs
    have hscan : scan language ('\'' :: ds) = some ([.literal u], []) := by simp [scan, hs]
    rw [tokens_of_scan hscan, tokens_nil] at htokens
    obtain rfl : [.literal u] = ts := by simpa using htokens
    have hliteral : Reads language .sum [.literal u] (.literal u) :=
      (Reads.literal u).ofPrimary.ofPowered.ofSigned.ofProduct
    obtain rfl := hread.unique hliteral
    exact ⟨_, hlex, .literal u⟩

/-- code for a place that needs brackets around an operator or not -/
inductive Stands (language : Language) (bare : Bool) (code : String) (t : Tree) : Prop
  /-- it is held together by itself -/
  | primary : Reading language .primary code.toList t → Stands language bare code t
  /-- it starts with a minus sign -/
  | signed : Reading language .signed code.toList t → code.toList.head? = some '-' → Stands language bare code t
  /-- it has an operator outside all brackets, and its place needs none -/
  | loose : bare = true → Reading language .sum code.toList t → ' ' ∈ code.toList → Stands language bare code t

namespace Stands

variable {bare bare' : Bool} {code : String} {t : Tree}

theorem toSum (h : Stands language bare code t) : Reading language .sum code.toList t := by
  cases h with
  | primary h => exact h.toSigned.toSum
  | signed h _ => exact h.toSum
  | loose _ h _ => exact h

theorem toSigned (h : Stands language false code t) : Reading language .signed code.toList t := by
  cases h with
  | primary h => exact h.toSigned
  | signed h _ => exact h
  | loose hb _ _ => cases hb

theorem ne_empty (h : Stands language bare code t) : code.isEmpty = false := by
  have hne := h.toSum.ne_nil
  rw [Ne, String.toList_eq_nil_iff, ← String.isEmpty_iff] at hne
  exact Bool.eq_false_iff.2 hne

theorem reading_bracketed (h : Reading language .sum code.toList t) :
    Reading language .primary (bracketed code).toList t := by
  unfold bracketed
  rw [String.toList_append, String.toList_append]
  exact h.bracketed

/-- an operator outside all brackets gets brackets where its place asks for them -/
theorem parenthesize (h : Reading language .sum code.toList t) (hs : ' ' ∈ code.toList) (bare : Bool) :
    Stands language bare (parenthesize code bare) t := by
  cases bare with
  | true => exact .loose rfl h hs
  | false => exact .primary (reading_bracketed h)

/-- a leading minus sign is an operator outside all brackets as well -/
theorem parenthesize_signed (h : Reading language .signed code.toList t) (hs : code.toList.head? = some '-')
    (bare : Bool) : Stands language bare (Blockwork.parenthesize code bare) t := by
  cases bare with
  | true => exact .signed h hs
  | false => exact .primary (reading_bracketed h.toSum)

/-- a minus sign behind the guard never meets another one -/
theorem guardMinus (h : Stands language false code t) : Reading language .primary (guardMinus code).toList t ∧
    (Blockwork.guardMinus code).toList.head? ≠ some '-' := by
  unfold Blockwork.guardMinus
  split_ifs with hm
  · refine ⟨reading_bracketed h.toSum, ?_⟩
    unfold bracketed
    rw [String.toList_append, String.toList_append]
    exact (by decide : some '(' ≠ some '-')
  · simp only [beq_iff_eq] at hm
    cases h with
    | primary h => exact ⟨h, hm⟩
    | signed _ hs => exact absurd hs hm
    | loose hb _ _ => cases hb

/-- a method behind the guard applies to all of the code -/
theorem receiver (h : Stands language bare code t) : Reading language .primary (receiver code).toList t := by
  unfold Blockwork.receiver
  split_ifs with hr
  · -- neither a minus sign nor a blank is part of a word or a path
    have hmark : ∀ c ∈ code.toList, (Text.isWordChar c || c == '.') = false → Text.isLiteral code.toList := by
      intro c hc hf
      simp only [isReceiver, Bool.or_eq_true, Bool.and_eq_true, List.all_eq_true] at hr
      rcases hr with ⟨-, hall⟩ | hl
      · have hw := hall c hc
        rw [← Bool.or_eq_true, hf] at hw
        cases hw
      · exact hl
    cases h with
    | primary h => exact h
    | signed h hs =>
      have hm : '-' ∈ code.toList := List.mem_of_mem_head? hs
      exact h.toSum.of_isLiteral (hmark '-' hm (by decide +kernel))
    | loose _ h hs => exact h.of_isLiteral (hmark ' ' hs (by decide +kernel))
  · exact reading_bracketed h.toSum

end Stands

/-! ## The shapes of the templates -/

theorem breaks_closing (rest : List Char) : Breaks language (")".toList ++ rest) :=
  breaks_cons (by decide) (by decide) rest

theorem breaks_blank (cs rest : List Char) : Breaks language (' ' :: cs ++ rest) :=
  breaks_cons (by decide) (by decide) (cs ++ rest)

theorem spells_closing : Spells language ")".toList [.closing] := fun _ => tokens_of_scan rfl

section

variable {bare bare' : Bool} {code other before after : String} {first : String} {members : List String} {t u : Tree}

theorem stands_call (hbefore : Spells language before.toList (pathTokens first members ++ [Token.opening]))
    (h : Stands language bare' code t) :
    Stands language bare (before ++ (code ++ (")" ++ ""))) (.call (path first members) [t]) := by
  refine .primary ?_
  simp only [String.toList_append, String.append_empty]
  exact Reading.call hbefore (reads_path first members) spells_closing breaks_closing h.toSum

theorem stands_callAfterTen
    (hbefore : Spells language before.toList (pathTokens first members ++ [Token.opening, .number "10".toList, .comma]))
    (h : Stands language bare' code t) :
    Stands language bare (before ++ (code ++ (")" ++ ""))) (.call (path first members) [.number "10".toList, t]) := by
  refine .primary ?_
  simp only [String.toList_append, String.append_empty]
  exact Reading.callAfter hbefore (reads_path first members) spells_closing breaks_closing h.toSum

theorem stands_callTwo (hbefore : Spells language before.toList (pathTokens first members ++ [Token.opening]))
    (h : Stands language true code t) (h' : Stands language true other u) :
    Stands language bare (before ++ (code ++ (", " ++ (other ++ (")" ++ "")))))
      (.call (path first members) [t, u]) := by
  have hcomma : Spells language ", ".toList [.comma] := spells_ofList 2 fun _ => rfl
  refine .primary ?_
  simp only [String.toList_append, String.append_empty]
  exact Reading.callTwo hbefore (reads_path first members) hcomma
    (fun rest => breaks_cons (by decide) (by decide) _) spells_closing breaks_closing h.toSum h'.toSum

theorem stands_ofDegrees {cs half : List Char} {pi : String} {piMembers : List String}
    (hbefore : Spells language before.toList (pathTokens first members ++ [Token.opening]))
    (hafter : Spells language (String.ofList (' ' :: cs)).toList
      ([Token.sign .divide, .number half, .sign .times] ++ pathTokens pi piMembers ++ [Token.closing]))
    (h : Stands language false code t) :
    Stands language bare (before ++ (code ++ (String.ofList (' ' :: cs) ++ "")))
      (.call (path first members) [.binary .times (.binary .divide t (.number half)) (path pi piMembers)]) := by
  rw [String.toList_ofList] at hafter
  refine .primary ?_
  simp only [String.toList_append, String.append_empty, String.toList_ofList]
  exact Reading.ofDegrees hbefore (reads_path first members) hafter (reads_path pi piMembers)
    (fun rest => breaks_blank cs rest) h.toSigned

/-- a quotient of a call; what is behind the call starts with its closing bracket -/
theorem stands_callOver {cs : List Char} {divisor : List Token} {d : Tree}
    (hbefore : Spells language before.toList (pathTokens first members ++ [Token.opening]))
    (hafter : Lexes language (String.ofList (')' :: ' ' :: cs)).toList ([Token.closing, .sign .divide] ++ divisor))
    (hd : Reads language .primary divisor d) (h : Stands language bare' code t) :
    Stands language bare (parenthesize (before ++ (code ++ (String.ofList (')' :: ' ' :: cs) ++ ""))) bare)
      (.binary .divide (.call (path first members) [t]) d) := by
  rw [String.toList_ofList] at hafter
  refine Stands.parenthesize ?_ (by simp) bare
  simp only [String.toList_append, String.append_empty, String.toList_ofList]
  exact Reading.callOver hbefore (reads_path first members) hafter hd
    (fun rest => breaks_cons (by decide) (by decide) _) h.toSum

theorem stands_toDegrees {cs : List Char} {pi : String} {piMembers : List String}
    (hbefore : Spells language before.toList (pathTokens first members ++ [Token.opening]))
    (hafter : Lexes language (String.ofList (')' :: ' ' :: cs)).toList
      ([Token.closing, .sign .divide] ++ pathTokens pi piMembers ++ [Token.sign .times, .number "180".toList]))
    (h : Stands language bare' code t) :
    Stands language bare (parenthesize (before ++ (code ++ (String.ofList (')' :: ' ' :: cs) ++ ""))) bare)
      (.binary .times (.binary .divide (.call (path first members) [t]) (path pi piMembers))
        (.number "180".toList)) := by
  rw [String.toList_ofList] at hafter
  refine Stands.parenthesize ?_ (by simp) bare
  simp only [String.toList_append, String.append_empty, String.toList_ofList]
  exact Reading.toDegrees hbefore (reads_path first members) hafter (reads_path pi piMembers)
    (fun rest => breaks_cons (by decide) (by decide) _) h.toSum

/-- a method of a guarded receiver; only Dart lets a point that no digit follows end a number -/
theorem stands_method {c : Char} {cs name : List Char}
    (hafter : Spells .dart (String.ofList ('.' :: c :: cs)).toList [.point, .name name, .opening, .closing])
    (hd : c.isDigit = false) (h : Stands .dart bare' code t) :
    Stands .dart bare (receiver code ++ (String.ofList ('.' :: c :: cs) ++ "")) (.call (.member t name) []) := by
  rw [String.toList_ofList] at hafter
  refine .primary ?_
  simp only [String.toList_append, String.append_empty, String.toList_ofList]
  refine Reading.method hafter (fun rest => ?_) h.receiver
  intro d ds he
  obtain ⟨rfl, rfl⟩ := List.cons.inj he
  exact ⟨by decide, fun _ => ⟨rfl, by simpa using hd⟩⟩

theorem stands_neg (h : Stands language false code t) :
    Stands language bare (parenthesize ("-" ++ (guardMinus code ++ "")) bare) (.negate t) := by
  obtain ⟨hread, hhead⟩ := h.guardMinus
  refine Stands.parenthesize_signed ?_ ?_ bare
  · simp only [String.toList_append, String.append_empty]
    exact hread.toSigned.negate (.inr hhead)
  · rw [String.toList_append]
    rfl

/-- the negative of code, where two minus signs in a row are two tokens -/
theorem stands_neg_python (h : Stands .python false code t) :
    Stands .python bare (parenthesize ("-" ++ (code ++ "")) bare) (.negate t) := by
  refine Stands.parenthesize_signed ?_ ?_ bare
  · simp only [String.toList_append, String.append_empty]
    exact h.toSigned.negate (.inl rfl)
  · rw [String.toList_append]
    rfl

theorem stands_binary {op : List Char} {sign : Sign}
    (hop : ∀ rest, scans language 2 (op ++ ' ' :: rest) = some ([.sign sign], rest))
    (hs : sign.isAdditive ∨ sign.isMultiplicative)
    (h : Stands language false code t) (h' : Stands language false other u) :
    Stands language bare (parenthesize (code ++ (" " ++ (String.ofList op ++ (" " ++ (other ++ ""))))) bare)
      (.binary sign t u) := by
  have hspaced : Spells language (' ' :: (op ++ [' '])) [.sign sign] := by
    intro rest
    have hblank : scan language (' ' :: (op ++ [' '] ++ rest)) = some ([], op ++ ' ' :: rest) := by simp [scan]
    rw [List.cons_append, tokens_of_scan hblank, tokens_of_scans (hop rest), Option.map_map]
    simp [Function.comp_def]
  refine Stands.parenthesize ?_ (by simp) bare
  have hread := Reading.binary hspaced (fun rest => breaks_blank _ rest) hs h.toSigned h'.toSigned
  simpa using hread

end

/-! ## The templates -/

section

variable {bare : Bool} {code : String} {t : Tree}

/-- what is behind a function whose value is an angle, to turn it into degrees -/
def Language.turn : Language → String
  | javascript => ") / Math.PI * 180"
  | dart => ") / Math.pi * 180"
  | python => ") / math.pi * 180"

theorem lexes_turn (language : Language) : Lexes language language.turn.toList ([Token.closing, .sign .divide] ++
    pathTokens language.library [language.piName] ++ [Token.sign .times, .number "180".toList]) := by
  have hnumber : Lexes language "180".toList [.number "180".toList] :=
    lexes_number (.whole (by decide) (List.all_eq_true.1 rfl))
  cases language with
  | javascript =>
    have hbefore : Spells .javascript ") / Math.PI * ".toList
        ([Token.closing, .sign .divide] ++ pathTokens "Math" ["PI"] ++ [Token.sign .times]) :=
      spells_ofList 10 fun _ => rfl
    exact hbefore.append_lexes hnumber
  | dart =>
    have hbefore : Spells .dart ") / Math.pi * ".toList
        ([Token.closing, .sign .divide] ++ pathTokens "Math" ["pi"] ++ [Token.sign .times]) :=
      spells_ofList 10 fun _ => rfl
    exact hbefore.append_lexes hnumber
  | python =>
    have hbefore : Spells .python ") / math.pi * ".toList
        ([Token.closing, .sign .divide] ++ pathTokens "math" ["pi"] ++ [Token.sign .times]) :=
      spells_ofList 10 fun _ => rfl
    exact hbefore.append_lexes hnumber

/-- the decimal logarithm: a quotient of two logarithms, or a function of its own -/
theorem stands_log10 (h : Stands language true code t) :
    Stands language bare ((language.template (.single .log10)).render [code] bare) (language.singleTree .log10 t) := by
  cases language with
  | javascript =>
    have hafter : Spells .javascript ") / Math.log(10)".toList ([Token.closing, .sign .divide] ++
        (pathTokens "Math" ["log"] ++ [Token.opening, .number "10".toList, .closing])) := spells_ofList 10 fun _ => rfl
    have hten : Reads .javascript .sum [.number "10".toList] (.number "10".toList) :=
      (Reads.number _).ofPrimary.ofPowered.ofSigned.ofProduct
    exact stands_callOver (spells_ofList 4 fun _ => rfl) hafter.lexes
      ((reads_path "Math" ["log"]).callAll (.cons hten .nil)) h
  | dart =>
    have hbefore : Spells .dart ") / Math.".toList [.closing, .sign .divide, .name "Math".toList, .point] :=
      spells_ofList 6 fun _ => rfl
    have hname : Lexes .dart "ln10".toList [.name "ln10".toList] :=
      lexes_name ⟨'l', ['n', '1', '0'], rfl, by decide, by decide, List.all_eq_true.1 rfl⟩
    have hafter : Lexes .dart ") / Math.ln10".toList ([Token.closing, .sign .divide] ++ pathTokens "Math" ["ln10"]) :=
      hbefore.append_lexes hname
    exact stands_callOver (spells_ofList 4 fun _ => rfl) hafter (reads_path "Math" ["ln10"]) h
  | python => exact stands_call (spells_ofList 4 fun _ => rfl) h

/-- rounding: a function of the library, a method in Dart, a function of its own in Python -/
theorem stands_round (h : Stands language true code t) :
    Stands language bare ((language.template (.single .round)).render [code] bare) (language.singleTree .round t) := by
  cases language with
  | javascript => exact stands_call (spells_ofList 4 fun _ => rfl) h
  | dart => exact stands_method (spells_ofList 4 fun _ => rfl) rfl h
  | python =>
    have hbefore : Spells .python "round(".toList (pathTokens "round" [] ++ [Token.opening]) :=
      spells_ofList 2 fun _ => rfl
    exact stands_call hbefore h

/-- **A function of one number is written as it is to be read**, in every target. -/
theorem stands_single (op : Single) (h : Stands language (!Target.JavaScript.besideOperator op) code t) :
    Stands language bare ((language.template (.single op)).render [code] bare) (language.singleTree op t) := by
  cases op with
  | root => cases language <;> exact stands_call (spells_ofList 4 fun _ => rfl) h
  | ln => cases language <;> exact stands_call (spells_ofList 4 fun _ => rfl) h
  | exp => cases language <;> exact stands_call (spells_ofList 4 fun _ => rfl) h
  | pow10 => cases language <;> exact stands_callAfterTen (spells_ofList 7 fun _ => rfl) h
  | sin => cases language <;> exact stands_ofDegrees (spells_ofList 4 fun _ => rfl) (spells_ofList 11 fun _ => rfl) h
  | cos => cases language <;> exact stands_ofDegrees (spells_ofList 4 fun _ => rfl) (spells_ofList 11 fun _ => rfl) h
  | tan => cases language <;> exact stands_ofDegrees (spells_ofList 4 fun _ => rfl) (spells_ofList 11 fun _ => rfl) h
  | asin => cases language <;> exact stands_toDegrees (spells_ofList 4 fun _ => rfl) (lexes_turn _) h
  | acos => cases language <;> exact stands_toDegrees (spells_ofList 4 fun _ => rfl) (lexes_turn _) h
  | atan => cases language <;> exact stands_toDegrees (spells_ofList 4 fun _ => rfl) (lexes_turn _) h
  | log10 => exact stands_log10 h
  | round => exact stands_round h
  | abs =>
    cases language with
    | dart => exact stands_method (spells_ofList 4 fun _ => rfl) rfl h
    | _ => exact stands_call (spells_ofList 4 fun _ => rfl) h
  | roundUp =>
    cases language with
    | dart => exact stands_method (spells_ofList 4 fun _ => rfl) rfl h
    | _ => exact stands_call (spells_ofList 4 fun _ => rfl) h
  | roundDown =>
    cases language with
    | dart => exact stands_method (spells_ofList 4 fun _ => rfl) rfl h
    | _ => exact stands_call (spells_ofList 4 fun _ => rfl) h
  | neg =>
    cases language with
    | python => exact stands_neg_python h
    | _ => exact stands_neg h

end

section

variable {bare : Bool} {code other : String} {t u : Tree}

/-- whether the operands of an operator need no brackets of their own: they are arguments of a call -/
def Language.bareOperands (language : Language) (op : Arithmetic) : Bool :=
  op = .power && language ≠ .python

theorem stands_power (h : Stands .python false code t) (h' : Stands .python false other u) :
    Stands .python bare (parenthesize (guardMinus code ++ (" ** " ++ (other ++ ""))) bare) (.binary .power t u) := by
  have hop : Spells .python " ** ".toList [.sign .power] := spells_ofList 3 fun _ => rfl
  refine Stands.parenthesize ?_ (by simp) bare
  simp only [String.toList_append, String.append_empty]
  exact Reading.power rfl hop (fun rest => breaks_blank _ rest) h.guardMinus.1 h'.toSigned

/-- **An operator is written as it is to be read**, in every target. -/
theorem stands_arithmetic (op : Arithmetic) (h : Stands language (language.bareOperands op) code t)
    (h' : Stands language (language.bareOperands op) other u) :
    Stands language bare ((language.template (.arithmetic op)).render [code, other] bare)
      (language.arithmeticTree op t u) := by
  cases op with
  | add => cases language <;> exact stands_binary (fun _ => rfl) (.inl rfl) h h'
  | minus => cases language <;> exact stands_binary (fun _ => rfl) (.inl rfl) h h'
  | multiply => cases language <;> exact stands_binary (fun _ => rfl) (.inr rfl) h h'
  | divide => cases language <;> exact stands_binary (fun _ => rfl) (.inr rfl) h h'
  | power =>
    cases language with
    | javascript => exact stands_callTwo (spells_ofList 4 fun _ => rfl) h h'
    | dart => exact stands_callTwo (spells_ofList 4 fun _ => rfl) h h'
    | python => exact stands_power h h'

/-- a remainder, whose sign is one text with the blanks around it -/
theorem stands_modulo (h : Stands language false code t) (h' : Stands language false other u) :
    Stands language bare ((language.template .modulo).render [code, other] bare) (.binary .remainder t u) := by
  have hop : Spells language " % ".toList [.sign .remainder] := spells_ofList 3 fun _ => rfl
  have hcode : Stands language bare (parenthesize (code ++ (" % " ++ (other ++ ""))) bare)
      (.binary .remainder t u) := by
    refine Stands.parenthesize ?_ (by simp) bare
    simp only [String.toList_append, String.append_empty]
    exact Reading.binary hop (fun rest => breaks_blank _ rest) (.inr rfl) h.toSigned h'.toSigned
  cases language <;> exact hcode

theorem stands_random :
    Stands language bare ((language.template .randomFraction).render [] bare) language.randomTree := by
  refine .primary ?_
  cases language with
  | javascript =>
    have hspells : Spells .javascript "Math.random()".toList
        (pathTokens "Math" ["random"] ++ [Token.opening, .closing]) :=
      spells_ofList 5 fun _ => rfl
    exact ⟨_, hspells.lexes, (reads_path "Math" ["random"]).callAll .nil⟩
  | dart =>
    have hspells : Spells .dart "Math.Random().nextDouble()".toList ((pathTokens "Math" ["Random"] ++
        [Token.opening, .closing] ++ [Token.point, .name "nextDouble".toList]) ++ [Token.opening, .closing]) :=
      spells_ofList 9 fun _ => rfl
    have hrandom : Reads .dart .primary (pathTokens "Math" ["Random"] ++ [Token.opening, .closing])
        (.call (path "Math" ["Random"]) []) := (reads_path "Math" ["Random"]).callAll .nil
    exact ⟨_, hspells.lexes, (hrandom.member "nextDouble".toList).callAll .nil⟩
  | python =>
    have hspells : Spells .python "random.random()".toList
        (pathTokens "random" ["random"] ++ [Token.opening, .closing]) :=
      spells_ofList 5 fun _ => rfl
    exact ⟨_, hspells.lexes, (reads_path "random" ["random"]).callAll .nil⟩

theorem stands_name {name : String} (h : Names.IsIdentifier name) :
    Stands language bare (name ++ "") (.name name.toList) := by
  rw [String.append_empty]
  exact .primary ⟨_, lexes_name h, .name name.toList⟩

theorem stands_numeral {cs : List Char} (h : IsNumeral cs) (negative : Bool)
    (hcode : code.toList = (if negative then ['-'] else []) ++ cs) :
    Stands language bare code (if negative then .negate (.number cs) else .number cs) := by
  have hread : Reading language .primary cs (.number cs) := ⟨_, lexes_number h, .number cs⟩
  cases negative with
  | false => exact .primary (by rw [hcode]; exact hread)
  | true =>
    have hdigit : cs.head? ≠ some '-' := by
      have hfirst : ∀ {ds es : List Char}, ds ≠ [] → (∀ c ∈ ds, c.isDigit) → (ds ++ es).head? ≠ some '-' := by
        intro ds es hne hd hm
        obtain ⟨d, ds, rfl⟩ := List.exists_cons_of_ne_nil hne
        obtain rfl : d = '-' := by simpa using hm
        exact absurd (hd '-' List.mem_cons_self) (by decide)
      cases h with
      | whole hne hd => exact List.append_nil cs ▸ hfirst hne hd
      | fraction hne hd _ _ => exact hfirst hne hd
    refine .signed ?_ (by rw [hcode]; rfl)
    rw [hcode]
    exact hread.toSigned.negate (.inr hdigit)

theorem stands_member {before first : String} (hbefore : Spells language before.toList [.name first.toList, .point])
    (last : String) (hlast : Names.IsIdentifier last) (hcode : code = before ++ last) :
    Stands language bare code (path first [last]) := by
  refine .primary ?_
  rw [hcode, String.toList_append]
  exact ⟨_, hbefore.append_lexes (lexes_name hlast), reads_path first [last]⟩

/-- a number that is written as a conversion of its name -/
theorem stands_float {interior : List Char}
    (h : Spells .python code.toList (pathTokens "float" [] ++ [Token.opening, .literal interior, .closing])) :
    Stands .python bare code (.call (.name "float".toList) [.literal interior]) := by
  have hliteral : Reads .python .sum [.literal interior] (.literal interior) :=
    (Reads.literal interior).ofPrimary.ofPowered.ofSigned.ofProduct
  exact .primary ⟨_, h.lexes, (reads_path "float" []).callAll (.cons hliteral .nil)⟩

/-- **A number is written as it is to be read**, in every target. -/
theorem stands_number (x : Binary64) : Stands language bare (language.numberLiteral x) (language.numberTree x) := by
  have hword : ∀ {word : String}, Names.IsIdentifier word → Reading language .primary word.toList (.name word.toList) :=
    fun h => ⟨_, lexes_name h, .name _⟩
  have hdouble : Spells .dart "double.".toList [.name "double".toList, .point] := spells_ofList 2 fun _ => rfl
  cases x with
  | nan =>
    cases language with
    | javascript => exact .primary (hword ⟨'N', ['a', 'N'], rfl, by decide, by decide, List.all_eq_true.1 rfl⟩)
    | dart => exact stands_member hdouble "nan" ⟨'n', ['a', 'n'], rfl, by decide, by decide, List.all_eq_true.1 rfl⟩ rfl
    | python => exact stands_float (spells_ofList 4 fun _ => rfl)
  | infinite negative =>
    have hinfinity : Names.IsIdentifier "Infinity" :=
      ⟨'I', "nfinity".toList, rfl, by decide, by decide, List.all_eq_true.1 rfl⟩
    cases language with
    | javascript =>
      cases negative with
      | false => exact .primary (hword hinfinity)
      | true => exact .signed ((hword hinfinity).toSigned.negate (.inr (by decide))) rfl
    | dart =>
      cases negative with
      | false =>
        exact stands_member hdouble "infinity"
          ⟨'i', "nfinity".toList, rfl, by decide, by decide, List.all_eq_true.1 rfl⟩ rfl
      | true =>
        exact stands_member hdouble "negativeInfinity"
          ⟨'n', "egativeInfinity".toList, rfl, by decide, by decide, List.all_eq_true.1 rfl⟩ rfl
    | python => cases negative <;> exact stands_float (spells_ofList 4 fun _ => rfl)
  | finite negative m p =>
    by_cases hm : m = 0
    · subst hm
      have hzero : Stands language bare "0" (.number ['0']) :=
        stands_numeral (.whole (by decide) (List.all_eq_true.1 rfl)) false rfl
      rw [language.numberLiteral_zero]
      simpa [Language.numberTree] using hzero
    · have hnumber : Stands language bare (language.numberLiteral (.finite negative m p)) _ :=
        stands_numeral (language.isNumeral_magnitude m p) negative (language.numberLiteral_finite negative hm p)
      simpa [Language.numberTree, hm] using hnumber

end

end Blockwork
