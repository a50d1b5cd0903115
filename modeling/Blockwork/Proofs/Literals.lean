/-
Code that differs only inside string literals.

`blank` removes the interior of every literal. `Alike` relates two codes that are the same text outside
literals and have literals at the same places, each closed on its own line; so it survives putting codes
together, indenting them and cutting the line ends off, and `blank_eq` makes the two codes one.

Every adjustment of code to its place looks at the text alone. `AlikeCode.receiver` and its companions say that
none of these looks can tell two alike codes apart: a code with a literal in it is no numeral, no word and no
path, and whether it is one whole literal shows outside.
-/
import Blockwork.Template.Basic
import Mathlib.Data.List.DropRight
import Mathlib.Tactic

namespace Blockwork.Text

/-! ## Blanking -/

/-- a text without the interior of its literals, `inside` one or not at its start; inside, a backslash takes
the character behind it along -/
def blankFrom : Bool → List Char → List Char
  | _, [] => []
  | false, c :: cs => c :: blankFrom (c == '\'') cs
  | true, '\'' :: cs => '\'' :: blankFrom false cs
  | true, '\\' :: _ :: cs => blankFrom true cs
  | true, _ :: cs => blankFrom true cs

/-- a program without the interior of its single-quoted literals -/
def blank (code : String) : String :=
  String.ofList (blankFrom false code.toList)

/-- what may stand between the quotes of a literal: characters and escapes, no line end -/
inductive Interior : List Char → Prop
  | nil : Interior []
  | escape {u : List Char} (c : Char) : c ≠ '\n' → c ≠ '\r' → Interior u → Interior ('\\' :: c :: u)
  | plain {u : List Char} (c : Char) : c ≠ '\'' → c ≠ '\\' → c ≠ '\n' → c ≠ '\r' → Interior u → Interior (c :: u)

/-- two codes with the same text outside their literals -/
inductive Alike : List Char → List Char → Prop
  | nil : Alike [] []
  | char {s t : List Char} (c : Char) : c ≠ '\'' → Alike s t → Alike (c :: s) (c :: t)
  | literal {s t : List Char} (u v : List Char) : Interior u → Interior v → Alike s t →
      Alike ('\'' :: (u ++ '\'' :: s)) ('\'' :: (v ++ '\'' :: t))

theorem blankFrom_interior {u : List Char} (h : Interior u) (s : List Char) :
    blankFrom true (u ++ '\'' :: s) = '\'' :: blankFrom false s := by
  induction h with
  | nil => simp [blankFrom]
  | escape c _ _ _ ih => simpa [blankFrom] using ih
  | plain c hq hb _ _ _ ih =>
    rw [List.cons_append, blankFrom]
    · exact ih
    · exact hq
    · intro d ds hd _
      exact hb hd

namespace Alike

variable {s t s' t' : List Char}

/-- **Blanking makes two alike codes one.** -/
theorem blank_eq (h : Alike s t) : blankFrom false s = blankFrom false t := by
  induction h with
  | nil => rfl
  | char c hc _ ih => simp [blankFrom, beq_false_of_ne hc, ih]
  | literal u v hu hv _ ih => simp [blankFrom, blankFrom_interior hu, blankFrom_interior hv, ih]

theorem append (h : Alike s t) (h' : Alike s' t') : Alike (s ++ s') (t ++ t') := by
  induction h with
  | nil => exact h'
  | char c hc _ ih => exact .char c hc ih
  | literal u v hu hv _ ih => simpa using Alike.literal u v hu hv ih

theorem refl_of_not_mem (h : '\'' ∉ s) : Alike s s := by
  induction s with
  | nil => exact .nil
  | cons c s ih =>
    simp only [List.mem_cons, not_or] at h
    exact .char c (Ne.symm h.1) (ih h.2)

/-- two alike codes are the same, or both hold a literal -/
theorem eq_or_mem (h : Alike s t) : s = t ∨ ('\'' ∈ s ∧ '\'' ∈ t) := by
  induction h with
  | nil => exact .inl rfl
  | char c _ _ ih =>
    rcases ih with rfl | ⟨h1, h2⟩
    · exact .inl rfl
    · exact .inr ⟨List.mem_cons_of_mem c h1, List.mem_cons_of_mem c h2⟩
  | literal u v => exact .inr ⟨List.mem_cons_self, List.mem_cons_self⟩

/-- a look that a quote anywhere settles cannot tell two alike codes apart -/
theorem look_eq {α : Type} (h : Alike s t) (look : List Char → α) (blind : α)
    (hl : ∀ u, '\'' ∈ u → look u = blind) : look s = look t := by
  rcases h.eq_or_mem with rfl | ⟨h1, h2⟩
  · rfl
  · rw [hl s h1, hl t h2]

theorem head?_eq (h : Alike s t) : s.head? = t.head? := by
  cases h <;> rfl

theorem nil_iff (h : Alike s t) : s = [] ↔ t = [] := by
  cases h <;> simp

theorem isEmpty_eq (h : Alike s t) : s.isEmpty = t.isEmpty := by
  cases h <;> rfl

/-- whether a code is one whole literal shows outside it -/
theorem isLiteral_eq (h : Alike s t) : isLiteral s = isLiteral t := by
  have hclose : ∀ {u : List Char}, Interior u → ∀ s : List Char, closesAtEnd (u ++ '\'' :: s) = s.isEmpty := by
    intro u hu s
    induction hu with
    | nil => cases s <;> simp [closesAtEnd]
    | escape c hn _ _ ih => simp [closesAtEnd, hn, ih]
    | plain c hq hb _ _ _ ih =>
      rw [List.cons_append, closesAtEnd]
      · exact ih
      all_goals grind
  cases h with
  | nil => rfl
  | char c hc _ => simp [isLiteral, hc]
  | literal u v hu hv h => simp only [isLiteral, hclose hu, hclose hv, h.isEmpty_eq]

/-! ## Lines -/

end Alike

/-- a text put in front of the first of some lines -/
def attach (w : List Char) : List (List Char) → List (List Char)
  | [] => [w]
  | l :: ls => (w ++ l) :: ls

theorem lines_cons_of_ne {c : Char} (hn : c ≠ '\n') (hr : c ≠ '\r') (s : List Char) :
    lines (c :: s) = attach [c] (lines s) := by
  rw [lines]
  · cases lines s <;> rfl
  · exact hn
  · intro _ h _
    exact hr h

/-- a carriage return with no line feed behind it is part of its line -/
theorem lines_return {s : List Char} (h : s.head? ≠ some '\n') : lines ('\r' :: s) = attach ['\r'] (lines s) := by
  rw [lines]
  · cases lines s <;> rfl
  · decide
  · intro _ _ hs
    exact h (by rw [hs]; rfl)

/-- a text without line ends only lengthens the line that follows it -/
theorem lines_append {w : List Char} (hw : ∀ c ∈ w, c ≠ '\n' ∧ c ≠ '\r') (hne : w ≠ []) (s : List Char) :
    lines (w ++ s) = attach w (lines s) := by
  induction w with
  | nil => exact absurd rfl hne
  | cons c w ih =>
    obtain ⟨⟨hn, hr⟩, hw⟩ := List.forall_mem_cons.1 hw
    rw [List.cons_append, lines_cons_of_ne hn hr]
    cases w with
    | nil => rfl
    | cons d w =>
      rw [ih hw (by simp)]
      cases lines s <;> rfl

theorem Interior.not_line_end {u : List Char} (h : Interior u) : ∀ c ∈ u, c ≠ '\n' ∧ c ≠ '\r' := by
  induction h with
  | nil => exact fun _ h => nomatch h
  | escape c hn hr _ ih => exact List.forall_mem_cons.2 ⟨by decide, List.forall_mem_cons.2 ⟨⟨hn, hr⟩, ih⟩⟩
  | plain c _ _ hn hr _ ih => exact List.forall_mem_cons.2 ⟨⟨hn, hr⟩, ih⟩

theorem lines_literal {u : List Char} (hu : Interior u) (s : List Char) :
    lines ('\'' :: (u ++ '\'' :: s)) = attach ('\'' :: (u ++ ['\''])) (lines s) := by
  have hw : ∀ c ∈ '\'' :: (u ++ ['\'']), c ≠ '\n' ∧ c ≠ '\r' := by
    intro c hc
    simp only [List.mem_cons, List.mem_append, List.not_mem_nil, or_false] at hc
    rcases hc with rfl | hc | rfl
    · decide
    · exact hu.not_line_end c hc
    · decide
  have h := lines_append hw (by simp) s
  simpa using h

theorem Alike.attach {w w' : List Char} {ls ls' : List (List Char)} (hw : Alike w w') (h : List.Forall₂ Alike ls ls') :
    List.Forall₂ Alike (attach w ls) (attach w' ls') := by
  cases h with
  | nil => exact .cons hw .nil
  | cons hl hls => exact .cons (hw.append hl) hls

theorem Alike.lines {s t : List Char} (h : Alike s t) : List.Forall₂ Alike (lines s) (lines t) := by
  induction h with
  | nil => exact .nil
  | @char s t c hc h ih =>
    by_cases hn : c = '\n'
    · subst hn
      rw [Text.lines, Text.lines]
      exact .cons .nil ih
    by_cases hr : c = '\r'
    · subst hr
      -- it belongs to a line end exactly when a line feed follows, on both sides alike
      by_cases hs : s.head? = some '\n'
      · obtain ⟨s', rfl⟩ := List.head?_eq_some_iff.1 hs
        obtain ⟨t', rfl⟩ := List.head?_eq_some_iff.1 (h.head?_eq ▸ hs)
        exact ih
      · rw [lines_return hs, lines_return (h.head?_eq ▸ hs)]
        exact Alike.attach (.char '\r' hc .nil) ih
    · rw [lines_cons_of_ne hn hr, lines_cons_of_ne hn hr]
      exact Alike.attach (.char c hc .nil) ih
  | literal u v hu hv _ ih =>
    rw [lines_literal hu, lines_literal hv]
    exact Alike.attach (.literal u v hu hv .nil) ih

theorem Alike.indentChars {s t lead : List Char} (h : Alike s t) (hl : '\'' ∉ lead) :
    Alike (indentChars lead s) (indentChars lead t) := by
  have hlines := h.lines
  unfold Text.indentChars
  generalize Text.lines s = ls at hlines ⊢
  generalize Text.lines t = ls' at hlines ⊢
  induction hlines with
  | nil => exact .nil
  | cons hline _ ih =>
    refine Alike.append ?_ ih
    unfold indentLine
    rw [hline.isEmpty_eq]
    split_ifs
    · exact .char '\n' (by decide) .nil
    · exact ((refl_of_not_mem hl).append hline).append (.char '\n' (by decide) .nil)

theorem rdropWhile_append {p : Char → Bool} (w s : List Char) :
    (w ++ s).rdropWhile p = if s.rdropWhile p = [] then w.rdropWhile p else w ++ s.rdropWhile p := by
  simp only [List.rdropWhile, List.reverse_append, List.dropWhile_append, List.isEmpty_iff, List.reverse_eq_nil_iff]
  split_ifs <;> simp

/-- alike codes stay alike when the line feeds at their end are dropped -/
theorem Alike.rdropWhile_newline {s t : List Char} (h : Alike s t) :
    Alike (s.rdropWhile (· == '\n')) (t.rdropWhile (· == '\n')) := by
  -- a piece in front stays as it is unless nothing is left behind it
  have hfront : ∀ {w w' s t : List Char}, Alike w w' → Alike (w.rdropWhile (· == '\n')) (w'.rdropWhile (· == '\n')) →
      Alike (s.rdropWhile (· == '\n')) (t.rdropWhile (· == '\n')) →
      Alike ((w ++ s).rdropWhile (· == '\n')) ((w' ++ t).rdropWhile (· == '\n')) := by
    intro w w' s t hw hd hs
    rw [rdropWhile_append, rdropWhile_append]
    by_cases he : s.rdropWhile (· == '\n') = []
    · rw [if_pos he, if_pos (hs.nil_iff.1 he)]
      exact hd
    · rw [if_neg he, if_neg (mt hs.nil_iff.2 he)]
      exact hw.append hs
  induction h with
  | nil => exact .nil
  | char c hc _ ih =>
    have hone : Alike [c] [c] := .char c hc .nil
    refine hfront hone ?_ ih
    refine refl_of_not_mem fun hm => hc ?_
    exact (List.mem_singleton.1 ((List.rdropWhile_prefix _ _).subset hm)).symm
  | literal u v hu hv _ ih =>
    have hlast : ∀ w : List Char, ('\'' :: (w ++ ['\''])).rdropWhile (· == '\n') = '\'' :: (w ++ ['\'']) := by
      intro w
      rw [show '\'' :: (w ++ ['\'']) = ('\'' :: w) ++ ['\''] from rfl, List.rdropWhile_concat_neg]
      decide
    have hone : Alike ('\'' :: (u ++ ['\''])) ('\'' :: (v ++ ['\''])) := .literal u v hu hv .nil
    have h := hfront hone (by rw [hlast, hlast]; exact hone) ih
    simpa using h

/-! ## Fixed texts and quoted texts -/

/-- whether every literal of a text is closed, and on its own line; `inside` a literal or not at its start -/
def isClosed : Bool → List Char → Bool
  | inside, [] => !inside
  | false, c :: cs => isClosed (c == '\'') cs
  | true, '\'' :: cs => isClosed false cs
  | true, '\\' :: c :: cs => c != '\n' && c != '\r' && isClosed true cs
  | true, '\\' :: [] => false
  | true, c :: cs => c != '\n' && c != '\r' && isClosed true cs

theorem alike_of_isClosed_aux (inside : Bool) (s : List Char) (h : isClosed inside s) :
    if inside then ∃ u r, Interior u ∧ s = u ++ '\'' :: r ∧ Alike r r else Alike s s := by
  fun_induction isClosed inside s with
  | case1 inside =>
    obtain rfl : inside = false := by simpa using h
    exact .nil
  | case2 c cs ih =>
    have hi := ih h
    by_cases hc : c = '\''
    · subst hc
      obtain ⟨u, r, hu, rfl, hr⟩ := hi
      exact .literal u u hu hu hr
    · rw [beq_false_of_ne hc] at hi
      exact .char c hc hi
  | case3 cs ih => exact ⟨[], cs, .nil, rfl, ih h⟩
  | case4 c cs ih =>
    simp only [Bool.and_eq_true, bne_iff_ne] at h
    obtain ⟨⟨hn, hr⟩, h⟩ := h
    obtain ⟨u, r, hu, rfl, hr'⟩ := ih h
    exact ⟨'\\' :: c :: u, r, .escape c hn hr hu, rfl, hr'⟩
  | case5 => exact absurd h Bool.false_ne_true
  | case6 c cs hq hb hb' ih =>
    simp only [Bool.and_eq_true, bne_iff_ne] at h
    obtain ⟨⟨hn, hr⟩, h⟩ := h
    obtain ⟨u, r, hu, rfl, hr'⟩ := ih h
    refine ⟨c :: u, r, .plain c hq ?_ hn hr hu, rfl, hr'⟩
    intro hc
    cases u with
    | nil => exact hb _ _ hc rfl
    | cons d u => exact hb _ _ hc rfl

/-- a text whose literals are closed is alike to itself -/
theorem alike_of_isClosed {s : List Char} (h : isClosed false s) : Alike s s :=
  alike_of_isClosed_aux false s h

theorem interior_escape (dollar : Bool) (c : Char) {u : List Char} (hu : Interior u) :
    Interior (escapeChar dollar c ++ u) := by
  unfold escapeChar
  split
  · exact .escape '\\' (by decide) (by decide) hu
  · exact .escape '\'' (by decide) (by decide) hu
  · exact .escape 'n' (by decide) (by decide) hu
  · exact .escape 'r' (by decide) (by decide) hu
  · exact .escape 't' (by decide) (by decide) hu
  · cases dollar
    · exact .plain '$' (by decide) (by decide) (by decide) (by decide) hu
    · exact .escape '$' (by decide) (by decide) hu
  · rename_i hb hq hn hr _ _
    exact .plain c hq hb hn hr hu

/-- whatever the text, its escapes stay between the quotes -/
theorem interior_flatMap_escape (dollar : Bool) (cs : List Char) : Interior (cs.flatMap (escapeChar dollar)) := by
  induction cs with
  | nil => exact .nil
  | cons c cs ih =>
    rw [List.flatMap_cons]
    exact interior_escape dollar c ih

/-- **The literals of any two texts are alike.** -/
theorem alike_quoteChars (dollar : Bool) (cs ds : List Char) : Alike (quoteChars dollar cs) (quoteChars dollar ds) :=
  .literal _ _ (interior_flatMap_escape dollar cs) (interior_flatMap_escape dollar ds) .nil

end Blockwork.Text

namespace Blockwork

/-! ## Adjusting code to its place -/

theorem not_mem_of_all {p : Char → Bool} {c : Char} {cs : List Char} (hp : p c = false) (h : cs.all p) : c ∉ cs := by
  intro hm
  rw [List.all_eq_true] at h
  exact absurd (h _ hm) (by rw [hp]; decide)

theorem readNatural?_of_mem {c : Char} {cs : List Char} (hdigit : c.isDigit = false) (h : c ∈ cs) :
    Text.readNatural? cs = none := by
  unfold Text.readNatural?
  rw [if_neg]
  intro hall
  simp only [Bool.and_eq_true] at hall
  exact not_mem_of_all hdigit hall.2 h

/-- a text with a character in it that is no digit, no sign and no point is no numeral -/
theorem numericLiteral?_of_mem {c : Char} {cs : List Char} (hdigit : Text.isDecimalDigit c = false) (hsign : c ≠ '-')
    (hpoint : c ≠ '.') (h : c ∈ cs) : numericLiteral? (String.ofList cs) = none := by
  -- the character is no digit of the whole part, so it is in what follows them
  have hrest : ∀ cs : List Char, c ∈ cs → c ∈ cs.drop (Numeral.leadingDigits cs).length := by
    intro cs h
    have hsplit := List.prefix_iff_eq_append.1 (List.takeWhile_prefix Text.isDecimalDigit (l := cs))
    rw [← hsplit, List.mem_append] at h
    exact h.resolve_left (not_mem_of_all hdigit List.all_takeWhile)
  unfold numericLiteral?
  rw [String.toList_ofList]
  split
  rename_i negative rest he
  have hm : c ∈ rest := by
    split at he
    · obtain ⟨-, rfl⟩ := Prod.mk.inj he
      exact (List.mem_cons.1 h).resolve_left hsign
    · obtain ⟨-, rfl⟩ := Prod.mk.inj he
      exact h
  have hr := hrest rest hm
  refine ite_eq_left_iff.2 fun _ => ?_
  split
  · rename_i he
    exact absurd (he ▸ hr) List.not_mem_nil
  · rename_i fraction he
    rw [he, List.mem_cons] at hr
    have hf := hr.resolve_left hpoint
    rw [if_neg]
    intro hrun
    simp only [Text.isDigitRun, Bool.and_eq_true] at hrun
    exact not_mem_of_all hdigit hrun.2 hf
  · rfl

/-- codes that differ only inside literals -/
def AlikeCode (a b : String) : Prop := Text.Alike a.toList b.toList

namespace AlikeCode

variable {a b c d : String}

theorem empty : AlikeCode "" "" := .nil

theorem append (h : AlikeCode a b) (h' : AlikeCode c d) : AlikeCode (a ++ c) (b ++ d) := by
  unfold AlikeCode
  rw [String.toList_append, String.toList_append]
  exact Text.Alike.append h h'

theorem of_isClosed (h : Text.isClosed false a.toList) : AlikeCode a a := Text.alike_of_isClosed h

theorem of_not_mem (h : '\'' ∉ a.toList) : AlikeCode a a := Text.Alike.refl_of_not_mem h

theorem isEmpty_eq (h : AlikeCode a b) : a.isEmpty = b.isEmpty := by
  have he := Text.Alike.nil_iff h
  rw [String.toList_eq_nil_iff, String.toList_eq_nil_iff] at he
  rw [Bool.eq_iff_iff, String.isEmpty_iff, String.isEmpty_iff, he]

theorem bracketed (h : AlikeCode a b) : AlikeCode (bracketed a) (bracketed b) :=
  ((of_isClosed rfl).append h).append (of_isClosed rfl)

theorem parenthesize (h : AlikeCode a b) (bare : Bool) : AlikeCode (parenthesize a bare) (parenthesize b bare) := by
  cases bare
  · exact h.bracketed
  · exact h

/-- a code put into brackets where a look at it says so -/
theorem bracketed_unless (h : AlikeCode a b) {p q : Bool} (hl : p = q) :
    AlikeCode (if p then a else Blockwork.bracketed a) (if q then b else Blockwork.bracketed b) := by
  rw [hl]
  split_ifs
  · exact h
  · exact h.bracketed

theorem isReceiver_eq (h : AlikeCode a b) : isReceiver a.toList = isReceiver b.toList := by
  unfold isReceiver
  rw [Text.Alike.isEmpty_eq h, Text.Alike.isLiteral_eq h]
  rw [Text.Alike.look_eq h (fun cs => cs.all fun c => Text.isWordChar c || c == '.') false]
  intro u hu
  exact Bool.eq_false_iff.2 fun hall => not_mem_of_all (by decide +kernel) hall hu

theorem isBareWord_eq (h : AlikeCode a b) : Text.isBareWord a.toList = Text.isBareWord b.toList := by
  refine Text.Alike.look_eq h Text.isBareWord false fun u hu => Bool.eq_false_iff.2 fun hall => ?_
  simp only [Text.isBareWord, Bool.and_eq_true] at hall
  exact not_mem_of_all (by decide +kernel) hall.2 hu

theorem receiver (h : AlikeCode a b) : AlikeCode (receiver a) (receiver b) :=
  h.bracketed_unless h.isReceiver_eq

theorem guardWord (h : AlikeCode a b) : AlikeCode (guardWord a) (guardWord b) :=
  h.bracketed_unless h.isBareWord_eq

theorem guardMinus (h : AlikeCode a b) : AlikeCode (guardMinus a) (guardMinus b) := by
  unfold Blockwork.guardMinus
  rw [Text.Alike.head?_eq h]
  split_ifs
  · exact h.bracketed
  · exact h

theorem naturalBelow?_eq (h : AlikeCode a b) (limit : Nat) : naturalBelow? limit a = naturalBelow? limit b := by
  unfold naturalBelow?
  rw [Text.Alike.look_eq h Text.readNatural? none fun u hu => readNatural?_of_mem (by decide) hu]

theorem numericLiteral?_eq (h : AlikeCode a b) : numericLiteral? a = numericLiteral? b := by
  have he := Text.Alike.look_eq h (fun cs => numericLiteral? (String.ofList cs)) none
    fun u hu => numericLiteral?_of_mem (by decide) (by decide) (by decide) hu
  simpa using he

theorem natural (n : Nat) : AlikeCode (toString n) (toString n) := by
  refine of_not_mem fun hm => ?_
  rw [show (toString n).toList = Nat.toDigits 10 n from Nat.toList_repr] at hm
  exact absurd (Nat.isDigit_of_mem_toDigits (by decide) (by decide) hm) (by decide)

theorem integer (n : Int) : AlikeCode (toString n) (toString n) := by
  cases n with
  | ofNat n => exact natural n
  | negSucc n => exact append (a := "-") (b := "-") (of_isClosed rfl) (natural (n + 1))

/-- a numeral where the code is one, and otherwise the code with a fixed text behind it -/
theorem adjusted (h : AlikeCode a b) (limit : Nat) {numeral : Nat → String} {suffix : String}
    (hn : ∀ n, AlikeCode (numeral n) (numeral n)) (hs : Text.isClosed false suffix.toList) :
    AlikeCode (match naturalBelow? limit a with | some n => numeral n | none => a ++ suffix)
      (match naturalBelow? limit b with | some n => numeral n | none => b ++ suffix) := by
  rw [h.naturalBelow?_eq]
  split
  · exact hn _
  · exact h.append (of_isClosed hs)

theorem boundAbove (h : AlikeCode a b) : AlikeCode (boundAbove a) (boundAbove b) :=
  h.adjusted _ (fun n => natural (n + 1)) rfl

theorem indexBefore (h : AlikeCode a b) : AlikeCode (indexBefore a) (indexBefore b) :=
  h.adjusted _ (fun n => integer (n - 1)) rfl

theorem indexBeforeClamped (h : AlikeCode a b) : AlikeCode (indexBeforeClamped a) (indexBeforeClamped b) :=
  h.adjusted _ (fun n => natural (n - 1)) rfl

theorem rangeStart (h : AlikeCode a b) : AlikeCode (rangeStart a) (rangeStart b) := by
  unfold Blockwork.rangeStart
  rw [h.numericLiteral?_eq]
  split_ifs
  · exact empty
  · exact h.append (of_isClosed rfl)

theorem procedureBody (h : AlikeCode a b) (h' : AlikeCode c d) {stop noop : String}
    (hs : Text.isClosed false stop.toList) (hn : Text.isClosed false noop.toList) :
    AlikeCode (procedureBody a c stop noop) (procedureBody b d stop noop) := by
  unfold Blockwork.procedureBody
  rw [h.isEmpty_eq, h'.isEmpty_eq]
  split_ifs
  · exact (((h.append (of_isClosed rfl)).append (of_isClosed rfl)).append h').append (of_isClosed hs)
  · exact h
  · exact ((of_isClosed rfl).append (of_isClosed hn)).append (of_isClosed rfl)

/-! ## Putting code together -/

theorem prefixLines (h : AlikeCode a b) {lead : String} (hl : '\'' ∉ lead.toList) :
    AlikeCode (Text.prefixLines a lead) (Text.prefixLines b lead) := by
  unfold AlikeCode Text.prefixLines
  rw [String.toList_ofList, String.toList_ofList]
  exact Text.Alike.indentChars h hl

theorem dropFinalNewlines (h : AlikeCode a b) :
    AlikeCode (Text.dropFinalNewlines a) (Text.dropFinalNewlines b) := by
  unfold AlikeCode Text.dropFinalNewlines
  rw [String.toList_ofList, String.toList_ofList]
  exact Text.Alike.rdropWhile_newline h

theorem joinWith {as bs : List String} {separator : String} (hs : Text.isClosed false separator.toList)
    (h : List.Forall₂ AlikeCode as bs) : AlikeCode (Text.joinWith separator as) (Text.joinWith separator bs) := by
  induction h with
  | nil => exact empty
  | cons h1 hrest ih =>
    cases hrest with
    | nil => exact h1
    | cons h2 hrest => exact (h1.append (of_isClosed hs)).append ih

end AlikeCode

end Blockwork
