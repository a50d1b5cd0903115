/-
Balanced code: every literal closed on its own line, and every bracket outside literals closed by its match, in
properly nested order.

`Balanced` is a check that scans a text. What it finds of a whole is what it finds of the parts: balanced code put
beside balanced code (`Balanced.append`), into brackets (`Balanced.between`), under another indentation
(`Balanced.prefixLines`) or without its last line ends is balanced. Two facts carry this. Brackets of texts with
closed literals add up (`Text.Alike.brackets_append`), and a balanced text may stand wherever brackets are open
already (`Text.nest_within`).
-/
import Blockwork.Proofs.Naming
import Blockwork.Proofs.SafeTemplates

namespace Blockwork

namespace Text

/-! ## Brackets outside literals -/

/-- the bracket that closes an opening one -/
def closing? : Char → Option Char
  | '(' => some ')'
  | '[' => some ']'
  | '\x7b' => some '\x7d'
  | _ => none

def isBracket (c : Char) : Bool :=
  c == '(' || c == ')' || c == '[' || c == ']' || c == '\x7b' || c == '\x7d'

/-- the brackets of a text that stand outside its literals -/
def brackets (cs : List Char) : List Char :=
  (blankFrom false cs).filter isBracket

/-- the closing brackets expected after one more bracket; none when it is not the one expected -/
def meet (expected : List Char) (c : Char) : Option (List Char) :=
  match closing? c, expected with
  | some close, _ => some (close :: expected)
  | none, [] => none
  | none, close :: rest => if c = close then some rest else none

/-- the closing brackets expected after brackets in a row -/
def nest (expected cs : List Char) : Option (List Char) :=
  cs.foldlM meet expected

theorem nest_append (expected cs ds : List Char) :
    nest expected (cs ++ ds) = (nest expected cs).bind fun after => nest after ds :=
  List.foldlM_append

theorem nest_cons (expected : List Char) (c : Char) (cs : List Char) :
    nest expected (c :: cs) = (meet expected c).bind fun after => nest after cs :=
  List.foldlM_cons

theorem nest_outer {expected after cs : List Char} (h : nest expected cs = some after) (outer : List Char) :
    nest (expected ++ outer) cs = some (after ++ outer) := by
  induction cs generalizing expected with
  | nil =>
    obtain rfl := Option.some.inj h
    rfl
  | cons c cs ih =>
    rw [nest_cons] at h ⊢
    obtain ⟨between, hmeet, hrest⟩ := Option.bind_eq_some_iff.1 h
    have hmeet' : meet (expected ++ outer) c = some (between ++ outer) := by
      unfold meet at hmeet ⊢
      cases hc : closing? c with
      | some close =>
        rw [hc] at hmeet
        cases hmeet
        rfl
      | none =>
        rw [hc] at hmeet
        cases expected with
        | nil => cases hmeet
        | cons close rest =>
          simp only [List.cons_append] at hmeet ⊢
          split_ifs at hmeet ⊢
          cases hmeet
          rfl
    rw [hmeet']
    exact ih hrest

/-- **Balanced brackets may stand anywhere**: they leave what is expected as it was. -/
theorem nest_within {cs : List Char} (h : nest [] cs = some []) (expected : List Char) :
    nest expected cs = some expected :=
  nest_outer h expected

theorem nest_insert {inner : List Char} (h : nest [] inner = some []) (expected before after : List Char) :
    nest expected (before ++ (inner ++ after)) = nest expected (before ++ after) := by
  rw [nest_append, nest_append]
  congr 1
  funext between
  rw [nest_append, nest_within h]
  rfl

/-! ## Closed literals -/

theorem isClosed_interior {u : List Char} (hu : Interior u) (s : List Char) :
    isClosed true (u ++ '\'' :: s) = isClosed false s := by
  induction hu with
  | nil => simp [isClosed]
  | escape c hn hr _ ih => simp [isClosed, hn, hr, ih]
  | plain c hq hb hn hr _ ih =>
    rw [List.cons_append, isClosed]
    · simp [hn, hr, ih]
    · exact hq
    · intro d ds hd _
      exact hb hd
    · intro hd _
      exact hb hd

/-- what is alike to something has closed literals -/
theorem Alike.isClosed {s t : List Char} (h : Alike s t) : isClosed false s := by
  induction h with
  | nil => rfl
  | char c hc _ ih =>
    rw [Text.isClosed, beq_false_of_ne hc]
    exact ih
  | literal u v hu _ _ ih =>
    change Text.isClosed true _ = true
    rw [isClosed_interior hu]
    exact ih

theorem Alike.blankFrom_append {s t : List Char} (h : Alike s t) (r : List Char) :
    blankFrom false (s ++ r) = blankFrom false s ++ blankFrom false r := by
  induction h with
  | nil => rfl
  | char c hc _ ih => simp [blankFrom, beq_false_of_ne hc, ih]
  | literal u v hu _ _ ih => simp [blankFrom, blankFrom_interior hu, ih]

/-- **The brackets of two texts add up** if the literals of the first are closed. -/
theorem Alike.brackets_append {s t : List Char} (h : Alike s t) (r : List Char) :
    brackets (s ++ r) = brackets s ++ brackets r := by
  unfold brackets
  rw [h.blankFrom_append, List.filter_append]

def isPlain (c : Char) : Bool :=
  c != '\'' && !isBracket c

theorem isPlain_of_isNameChar {c : Char} (h : Names.isNameChar c) : isPlain c := by
  simp only [isPlain, isBracket, Bool.and_eq_true, bne_iff_ne, Bool.not_eq_true', Bool.or_eq_false_iff,
    beq_eq_false_iff_ne]
  refine ⟨?_, ⟨⟨⟨⟨?_, ?_⟩, ?_⟩, ?_⟩, ?_⟩, ?_⟩ <;>
  · rintro rfl
    exact absurd h (by decide)

theorem brackets_cons_of_isPlain {c : Char} (h : isPlain c) (s : List Char) : brackets (c :: s) = brackets s := by
  simp only [isPlain, Bool.and_eq_true, bne_iff_ne, Bool.not_eq_true'] at h
  simp [brackets, blankFrom, beq_false_of_ne h.1, h.2]

theorem brackets_of_isPlain {cs : List Char} (h : ∀ c ∈ cs, isPlain c) : brackets cs = [] := by
  induction cs with
  | nil => rfl
  | cons c cs ih =>
    obtain ⟨hc, hcs⟩ := List.forall_mem_cons.1 h
    rw [brackets_cons_of_isPlain hc, ih hcs]

theorem quote_not_mem_of_isPlain {cs : List Char} (h : ∀ c ∈ cs, isPlain c) : '\'' ∉ cs :=
  fun hm => absurd (h _ hm) (by decide)

theorem brackets_literal {u : List Char} (hu : Interior u) (s : List Char) :
    brackets ('\'' :: (u ++ '\'' :: s)) = brackets s := by
  have hquote : isBracket '\'' = false := by decide
  simp [brackets, blankFrom, blankFrom_interior hu, hquote]

/-! ## Lines -/

theorem brackets_attach {w w' : List Char} (hw : Alike w w') (ls : List (List Char)) :
    (attach w ls).flatMap brackets = brackets w ++ ls.flatMap brackets := by
  cases ls with
  | nil => rfl
  | cons l ls => simp only [attach, List.flatMap_cons, hw.brackets_append, List.append_assoc]

theorem Alike.brackets_lines {s t : List Char} (h : Alike s t) : (Text.lines s).flatMap brackets = brackets s := by
  induction h with
  | nil => rfl
  | @char s t c hc h ih =>
    have hone : Alike [c] [c] := .char c hc .nil
    by_cases hn : c = '\n'
    · subst hn
      rw [Text.lines, List.flatMap_cons, ih, brackets_cons_of_isPlain (by decide)]
      rfl
    by_cases hr : c = '\r'
    · subst hr
      by_cases hs : s.head? = some '\n'
      · -- the carriage return belongs to the line end behind it
        obtain ⟨s', rfl⟩ := List.head?_eq_some_iff.1 hs
        rw [brackets_cons_of_isPlain (by decide), ← ih]
        rfl
      · rw [lines_return hs, brackets_attach hone, ih, ← hone.brackets_append]
        rfl
    · rw [lines_cons_of_ne hn hr, brackets_attach hone, ih, ← hone.brackets_append]
      rfl
  | literal u v hu _ _ ih =>
    have hone : Alike ('\'' :: (u ++ ['\''])) ('\'' :: (u ++ ['\''])) := .literal u u hu hu .nil
    rw [lines_literal hu, brackets_attach hone, ih, brackets_literal hu, brackets_literal hu]
    rfl

/-- a line under indentation has closed literals and the same brackets -/
theorem Alike.indentLine {line line' lead : List Char} (h : Alike line line') (hl : ∀ c ∈ lead, isPlain c) :
    Alike (indentLine lead line) (indentLine lead line') ∧ brackets (indentLine lead line) = brackets line := by
  have hlead : Alike lead lead := .refl_of_not_mem (quote_not_mem_of_isPlain hl)
  have hend : Alike ['\n'] ['\n'] := .char '\n' (by decide) .nil
  unfold Text.indentLine
  rw [h.isEmpty_eq]
  cases line' with
  | nil =>
    rw [h.nil_iff.2 rfl]
    exact ⟨hend, rfl⟩
  | cons c cs =>
    have hall := (hlead.append h).append hend
    refine ⟨hall, ?_⟩
    change brackets (lead ++ line ++ ['\n']) = brackets line
    rw [(hlead.append h).brackets_append, hlead.brackets_append, brackets_of_isPlain hl]
    exact List.append_nil _

theorem Alike.brackets_indentChars {s t lead : List Char} (h : Alike s t) (hl : ∀ c ∈ lead, isPlain c) :
    brackets (Text.indentChars lead s) = brackets s := by
  have hlines := h.lines
  rw [← h.brackets_lines]
  unfold Text.indentChars
  generalize Text.lines s = ls at hlines ⊢
  generalize Text.lines t = ls' at hlines ⊢
  induction hlines with
  | nil => rfl
  | cons hline _ ih =>
    obtain ⟨halike, hsame⟩ := hline.indentLine hl
    rw [List.flatMap_cons, List.flatMap_cons, halike.brackets_append, hsame, ih]

/-- the line ends at the end of a text hold no bracket -/
theorem Alike.brackets_rdropWhile {s t : List Char} (h : Alike s t) :
    brackets (s.rdropWhile (· == '\n')) = brackets s := by
  have hplain : ∀ c ∈ s.rtakeWhile (· == '\n'), isPlain c := by
    intro c hc
    rw [show c = '\n' by simpa using List.mem_rtakeWhile_imp hc]
    decide
  have hsplit := h.rdropWhile_newline.brackets_append (s.rtakeWhile (· == '\n'))
  rw [List.rdropWhile_append_rtakeWhile, brackets_of_isPlain hplain, List.append_nil] at hsplit
  exact hsplit.symm

end Text

/-! ## Balanced code -/

/-- code whose literals are closed, each on its own line, and whose brackets outside literals are properly nested -/
structure Balanced (code : String) : Prop where
  closed : Text.isClosed false code.toList
  nested : Text.nest [] (Text.brackets code.toList) = some []

instance : DecidablePred Balanced := fun code =>
  decidable_of_iff (Text.isClosed false code.toList ∧ Text.nest [] (Text.brackets code.toList) = some [])
    ⟨fun h => ⟨h.1, h.2⟩, fun h => ⟨h.closed, h.nested⟩⟩

theorem Names.IsIdentifier.isPlain {name : String} (h : Names.IsIdentifier name) :
    ∀ c ∈ name.toList, Text.isPlain c := by
  obtain ⟨c, cs, hname, hc, -, hcs⟩ := h
  rw [hname]
  exact List.forall_mem_cons.2 ⟨Text.isPlain_of_isNameChar hc, fun d hd => Text.isPlain_of_isNameChar (hcs d hd)⟩

theorem IsNumeral.isPlain {cs : List Char} (h : IsNumeral cs) : ∀ c ∈ cs, Text.isPlain c := by
  have hdigits : ∀ ds : List Char, (∀ c ∈ ds, c.isDigit) → ∀ c ∈ ds, Text.isPlain c :=
    fun ds hd c hc => Text.isPlain_of_isNameChar (Names.isNameChar_of_isDigit (hd c hc))
  cases h with
  | whole _ hd => exact hdigits _ hd
  | fraction _ hd _ he =>
    exact List.forall_mem_append.2 ⟨hdigits _ hd, List.forall_mem_cons.2 ⟨by decide, hdigits _ he⟩⟩

namespace Balanced

variable {a b : String}

theorem alike (h : Balanced a) : AlikeCode a a := .of_isClosed h.closed

theorem ofList {cs : List Char} (hc : Text.isClosed false cs) (hn : Text.nest [] (Text.brackets cs) = some []) :
    Balanced (String.ofList cs) := by
  constructor
  · rw [String.toList_ofList]
    exact hc
  · rw [String.toList_ofList]
    exact hn

theorem of_isPlain (h : ∀ c ∈ a.toList, Text.isPlain c) : Balanced a := by
  constructor
  · exact Text.isClosed_of_not_mem (Text.quote_not_mem_of_isPlain h)
  · rw [Text.brackets_of_isPlain h]
    rfl

theorem empty : Balanced "" := .of_isPlain (List.forall_mem_nil _)

theorem append (ha : Balanced a) (hb : Balanced b) : Balanced (a ++ b) := by
  constructor
  · exact (ha.alike.append hb.alike).isClosed
  · rw [String.toList_append, ha.alike.brackets_append, Text.nest_append, ha.nested]
    exact hb.nested

/-- balanced code between an opening text and the text that closes it -/
theorem between {before after : String} (h : Balanced a) (hb : Text.isClosed false before.toList)
    (ha : Text.isClosed false after.toList)
    (hn : Text.nest [] (Text.brackets before.toList ++ Text.brackets after.toList) = some []) :
    Balanced (before ++ a ++ after) := by
  have hbefore : AlikeCode before before := .of_isClosed hb
  constructor
  · exact ((hbefore.append h.alike).append (.of_isClosed ha)).isClosed
  · rw [String.toList_append, (hbefore.append h.alike).brackets_append, String.toList_append,
      hbefore.brackets_append, List.append_assoc, Text.nest_insert h.nested]
    exact hn

theorem bracketed (h : Balanced a) : Balanced (bracketed a) := h.between rfl rfl rfl

theorem parenthesize (h : Balanced a) (bare : Bool) : Balanced (parenthesize a bare) := by
  cases bare
  · exact h.bracketed
  · exact h

theorem receiver (h : Balanced a) : Balanced (receiver a) := by
  unfold Blockwork.receiver
  split_ifs
  · exact h
  · exact h.bracketed

theorem guardMinus (h : Balanced a) : Balanced (guardMinus a) := by
  unfold Blockwork.guardMinus
  split_ifs
  · exact h.bracketed
  · exact h

theorem guardWord (h : Balanced a) : Balanced (guardWord a) := by
  unfold Blockwork.guardWord
  split_ifs
  · exact h
  · exact h.bracketed

theorem natural (n : Nat) : Balanced (toString n) := by
  refine of_isPlain fun c hc => Text.isPlain_of_isNameChar (Names.isNameChar_of_isDigit ?_)
  rw [show (toString n).toList = Nat.toDigits 10 n from Nat.toList_repr] at hc
  exact Nat.isDigit_of_mem_toDigits (by decide) (by decide) hc

theorem integer (n : Int) : Balanced (toString n) := by
  cases n with
  | ofNat n => exact natural n
  | negSucc n =>
    have hminus : Balanced "-" := ⟨rfl, rfl⟩
    exact hminus.append (natural (n + 1))

theorem boundAbove (h : Balanced a) : Balanced (boundAbove a) := by
  unfold Blockwork.boundAbove
  split
  · exact natural _
  · exact h.append ⟨rfl, rfl⟩

theorem indexBefore (h : Balanced a) : Balanced (indexBefore a) := by
  unfold Blockwork.indexBefore
  split
  · exact integer _
  · exact h.append ⟨rfl, rfl⟩

theorem indexBeforeClamped (h : Balanced a) : Balanced (indexBeforeClamped a) := by
  unfold Blockwork.indexBeforeClamped
  split
  · exact natural _
  · exact h.append ⟨rfl, rfl⟩

theorem rangeStart (h : Balanced a) : Balanced (rangeStart a) := by
  unfold Blockwork.rangeStart
  split_ifs
  · exact empty
  · exact h.append ⟨rfl, rfl⟩

theorem procedureBody (ha : Balanced a) (hb : Balanced b) {stop noop : String} (hs : Balanced stop)
    (hn : Balanced noop) : Balanced (procedureBody a b stop noop) := by
  have hindentation : Balanced Text.indentation := ⟨rfl, rfl⟩
  unfold Blockwork.procedureBody
  split_ifs
  · exact (((ha.append hindentation).append ⟨rfl, rfl⟩).append hb).append hs
  · exact ha
  · exact (hindentation.append hn).append ⟨rfl, rfl⟩

theorem prefixLines (h : Balanced a) : Balanced (Text.prefixLines a Text.indentation) := by
  have hlead : ∀ c ∈ Text.indentation.toList, Text.isPlain c := List.all_eq_true.1 rfl
  constructor
  · exact (h.alike.prefixLines (by decide)).isClosed
  · unfold Text.prefixLines
    rw [String.toList_ofList, h.alike.brackets_indentChars hlead]
    exact h.nested

theorem dropFinalNewlines (h : Balanced a) : Balanced (Text.dropFinalNewlines a) := by
  constructor
  · exact h.alike.dropFinalNewlines.isClosed
  · have hsame := h.alike.brackets_rdropWhile
    unfold Text.dropFinalNewlines
    rw [String.toList_ofList]
    exact hsame ▸ h.nested

theorem joinWith {separator : String} (hs : Balanced separator) {texts : List String}
    (h : ∀ text ∈ texts, Balanced text) : Balanced (Text.joinWith separator texts) := by
  induction texts with
  | nil => exact empty
  | cons text rest ih =>
    obtain ⟨htext, hrest⟩ := List.forall_mem_cons.1 h
    cases rest with
    | nil => exact htext
    | cons next rest => exact (htext.append hs).append (ih hrest)

theorem concat {texts : List String} (h : ∀ text ∈ texts, Balanced text) : Balanced (texts.foldr (· ++ ·) "") := by
  induction texts with
  | nil => exact empty
  | cons text rest ih =>
    obtain ⟨htext, hrest⟩ := List.forall_mem_cons.1 h
    exact htext.append (ih hrest)

theorem identifier (h : Names.IsIdentifier a) : Balanced a := of_isPlain h.isPlain

theorem numberLiteral (language : Language) (x : Binary64) : Balanced (language.numberLiteral x) := by
  cases x with
  | nan => cases language <;> exact ⟨rfl, rfl⟩
  | infinite negative => cases language <;> cases negative <;> exact ⟨rfl, rfl⟩
  | finite negative m p =>
    by_cases hm : m = 0
    · subst hm
      rw [language.numberLiteral_zero]
      exact ⟨rfl, rfl⟩
    · refine of_isPlain ?_
      rw [language.numberLiteral_finite negative hm p]
      refine List.forall_mem_append.2 ⟨?_, (language.isNumeral_magnitude m p).isPlain⟩
      cases negative <;> exact List.all_eq_true.1 rfl

/-- the literal of a text is balanced, whatever the text -/
theorem quote (language : Language) (text : String) : Balanced (language.quote text) := by
  have hinterior := Text.interior_flatMap_escape language.interpolates text.toList
  refine ofList ?_ ?_
  · exact (Text.alike_quoteChars language.interpolates text.toList text.toList).isClosed
  · rw [Text.quoteChars, Text.brackets_literal hinterior]
    rfl

end Balanced

end Blockwork
