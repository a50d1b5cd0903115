/-
String literals stand for the texts that they were made from.

- `Mark`: a character as it is written in a literal, plain or with a backslash in front. `Text.literal?` cuts a literal
  into marks, from its opening quote up to the first quote that no backslash stands in front of.
- `Mark.decode?`: the character that a mark stands for, if the target knows the escape.
- `Text.escapeChar_cases`: the two ways in which a character is written; `Text.exists_marks`: so a text is written in
  marks that stand for it, which `Spells` says.
- `Text.marks?_chars`: marks without a plain quote are read up to the quote behind them.
- `literals_decode`: the main statement.
-/
import Blockwork.Language
import Blockwork.Proofs.Literals

namespace Blockwork.Text

/-! ## Marks -/

/-- a character as it is written in a literal -/
inductive Mark
  | plain (c : Char)
  | escaped (c : Char)
  deriving DecidableEq

namespace Mark

/-- the character that a mark stands for, `dollar` telling whether a plain `$` starts an interpolation; none for an
escape that is not known -/
def decode? (dollar : Bool) : Mark → Option Char
  | plain c => if dollar && c == '$' then none else some c
  | escaped '\\' => some '\\'
  | escaped '\'' => some '\''
  | escaped 'n' => some '\n'
  | escaped 'r' => some '\r'
  | escaped 't' => some '\t'
  | escaped '$' => if dollar then some '$' else none
  | escaped _ => none

def chars : Mark → List Char
  | plain c => [c]
  | escaped c => ['\\', c]

/-- a mark that is one by itself: a plain quote would end the literal, and a plain backslash takes the next character
along -/
def IsWhole : Mark → Prop
  | plain c => c ≠ '\'' ∧ c ≠ '\\'
  | escaped _ => True

end Mark

/-- the marks up to the first quote that is not escaped, and what stands behind the quote -/
def marks? : List Char → Option (List Mark × List Char)
  | [] => none
  | '\'' :: behind => some ([], behind)
  | '\\' :: [] => none
  | '\\' :: c :: cs => (marks? cs).map fun (marks, behind) => (.escaped c :: marks, behind)
  | c :: cs => (marks? cs).map fun (marks, behind) => (.plain c :: marks, behind)

/-- the marks of a literal at the front of a text, and what stands behind the literal -/
def literal? : List Char → Option (List Mark × List Char)
  | '\'' :: cs => marks? cs
  | _ => none

/-- the characters that no literal holds as they are -/
def controls : List Char := ['\n', '\r', '\t']

/-- **A character is written in one of two ways**: with a backslash and a letter or sign that stands for it, or as it
is. -/
theorem escapeChar_cases (dollar : Bool) (c : Char) :
    (∃ d, escapeChar dollar c = ['\\', d] ∧ (Mark.escaped d).decode? dollar = some c ∧ d ∉ controls) ∨
      (escapeChar dollar c = [c] ∧ (Mark.plain c).decode? dollar = some c ∧ (Mark.plain c).IsWhole ∧ c ∉ controls) := by
  unfold escapeChar
  split
  · exact .inl ⟨'\\', rfl, rfl, by decide⟩
  · exact .inl ⟨'\'', rfl, rfl, by decide⟩
  · exact .inl ⟨'n', rfl, rfl, by decide⟩
  · exact .inl ⟨'r', rfl, rfl, by decide⟩
  · exact .inl ⟨'t', rfl, rfl, by decide⟩
  · cases dollar with
    | true => exact .inl ⟨'$', rfl, rfl, by decide⟩
    | false => exact .inr ⟨rfl, rfl, ⟨by decide, by decide⟩, by decide⟩
  next hbackslash hquote hfeed hreturn htab hdollar =>
    have hplain : (Mark.plain c).decode? dollar = some c := by
      have hne : (c == '$') = false := beq_false_of_ne hdollar
      simp [Mark.decode?, hne]
    have hcontrols : c ∉ controls := by
      simp only [controls, List.mem_cons, List.not_mem_nil, or_false, not_or]
      exact ⟨hfeed, hreturn, htab⟩
    exact .inr ⟨rfl, hplain, ⟨hquote, hbackslash⟩, hcontrols⟩

/-- what the marks between the quotes of a literal say about a text and its spelling -/
structure Spells (dollar : Bool) (marks : List Mark) (text written : List Char) : Prop where
  chars : written = marks.flatMap Mark.chars
  decode : marks.mapM (Mark.decode? dollar) = some text
  stands : ∀ mark ∈ marks, ∃ c, mark.decode? dollar = some c
  whole : ∀ mark ∈ marks, mark.IsWhole
  clean : ∀ c ∈ written, c ∉ controls

namespace Spells

variable {dollar : Bool} {marks : List Mark} {text written : List Char}

theorem cons {mark : Mark} {c : Char} (hone : mark.decode? dollar = some c) (hwhole : mark.IsWhole)
    (hclean : ∀ d ∈ mark.chars, d ∉ controls) (h : Spells dollar marks text written) :
    Spells dollar (mark :: marks) (c :: text) (mark.chars ++ written) where
  chars := by rw [List.flatMap_cons, ← h.chars]
  decode := by rw [List.mapM_cons, hone, h.decode]; rfl
  stands := List.forall_mem_cons.2 ⟨⟨c, hone⟩, h.stands⟩
  whole := List.forall_mem_cons.2 ⟨hwhole, h.whole⟩
  clean := List.forall_mem_append.2 ⟨hclean, h.clean⟩

end Spells

theorem exists_marks (dollar : Bool) (cs : List Char) :
    ∃ marks, Spells dollar marks cs (cs.flatMap (escapeChar dollar)) := by
  induction cs with
  | nil => exact ⟨[], rfl, rfl, List.forall_mem_nil _, List.forall_mem_nil _, List.forall_mem_nil _⟩
  | cons c cs ih =>
    obtain ⟨marks, hmarks⟩ := ih
    rw [List.flatMap_cons]
    rcases escapeChar_cases dollar c with ⟨d, hd, hone, hclean⟩ | ⟨hc, hone, hwhole, hclean⟩
    · rw [hd]
      have hboth : ∀ e ∈ ['\\', d], e ∉ controls :=
        List.forall_mem_cons.2 ⟨by decide, List.forall_mem_singleton.2 hclean⟩
      exact ⟨.escaped d :: marks, hmarks.cons hone trivial hboth⟩
    · rw [hc]
      exact ⟨.plain c :: marks, hmarks.cons hone hwhole (List.forall_mem_singleton.2 hclean)⟩

/-- **Marks are read one by one**, up to the quote behind them. -/
theorem marks?_chars {marks : List Mark} (h : ∀ mark ∈ marks, mark.IsWhole) (behind : List Char) :
    marks? (marks.flatMap Mark.chars ++ '\'' :: behind) = some (marks, behind) := by
  induction marks with
  | nil => rfl
  | cons mark marks ih =>
    obtain ⟨hmark, hmarks⟩ := List.forall_mem_cons.1 h
    rw [List.flatMap_cons, List.append_assoc]
    cases mark with
    | escaped c =>
      change marks? ('\\' :: c :: (marks.flatMap Mark.chars ++ '\'' :: behind)) = _
      rw [marks?, ih hmarks]
      rfl
    | plain c =>
      change marks? (c :: (marks.flatMap Mark.chars ++ '\'' :: behind)) = _
      rw [marks?, ih hmarks]
      · rfl
      · exact hmark.1
      · exact fun hc _ => hmark.2 hc
      · exact fun d ds hc _ => hmark.2 hc

end Blockwork.Text

namespace Blockwork

open Text

/-- a literal is written in single quotes around the marks of its text -/
theorem Language.exists_quote_eq (language : Language) (text : String) :
    ∃ marks written, (language.quote text).toList = '\'' :: (written ++ ['\'']) ∧
      Spells language.interpolates marks text.toList written := by
  obtain ⟨marks, hmarks⟩ := exists_marks language.interpolates text.toList
  refine ⟨marks, _, ?_, hmarks⟩
  rw [quote, String.toList_ofList, quoteChars]

/-- **Literals stand for their texts.** The literal of a text starts and ends with a single quote, and none of its
characters is a line feed, carriage return or tab. Read from its opening quote it ends with its last character, whatever
stands behind; the characters between the quotes, each escape decoded, are those of the text; and where `$` starts an
interpolation, none stands there without a backslash. So different texts have different literals. -/
theorem literals_decode (language : Language) :
    (∀ text : String, ∃ marks : List Mark,
      (language.quote text).toList = '\'' :: (marks.flatMap Mark.chars ++ ['\'']) ∧
      (∀ behind, literal? ((language.quote text).toList ++ behind) = some (marks, behind)) ∧
      marks.mapM (Mark.decode? language.interpolates) = some text.toList ∧
      (∀ c ∈ (language.quote text).toList, c ≠ '\n' ∧ c ≠ '\r' ∧ c ≠ '\t') ∧
      (language.interpolates → Mark.plain '$' ∉ marks)) ∧
    Function.Injective language.quote := by
  have hread : ∀ {text : String} {marks : List Mark} {written : List Char},
      (language.quote text).toList = '\'' :: (written ++ ['\'']) →
      Spells language.interpolates marks text.toList written →
      ∀ behind, literal? ((language.quote text).toList ++ behind) = some (marks, behind) := by
    intro text marks written hquote hmarks behind
    rw [hquote, List.cons_append, List.append_assoc, hmarks.chars]
    exact marks?_chars hmarks.whole behind
  constructor
  · intro text
    obtain ⟨marks, written, hquote, hmarks⟩ := language.exists_quote_eq text
    refine ⟨marks, hmarks.chars ▸ hquote, hread hquote hmarks, hmarks.decode, ?_, ?_⟩
    · have hclean : ∀ c ∈ (language.quote text).toList, c ∉ controls := by
        rw [hquote]
        refine List.forall_mem_cons.2 ⟨by decide, List.forall_mem_append.2 ⟨hmarks.clean, ?_⟩⟩
        exact List.forall_mem_singleton.2 (by decide)
      intro c hc
      simpa [controls] using hclean c hc
    · intro hdollar hmem
      obtain ⟨c, hc⟩ := hmarks.stands _ hmem
      rw [hdollar] at hc
      cases hc
  · -- a literal gives its marks back, and the marks give the text back
    intro text other h
    obtain ⟨marks, written, hquote, hmarks⟩ := language.exists_quote_eq text
    obtain ⟨marks', written', hquote', hmarks'⟩ := language.exists_quote_eq other
    have hsame : some (marks, ([] : List Char)) = some (marks', []) := by
      rw [← hread hquote hmarks [], ← hread hquote' hmarks' [], h]
    obtain rfl : marks = marks' := congrArg Prod.fst (Option.some.inj hsame)
    exact String.toList_injective (Option.some.inj (hmarks.decode.symm.trans hmarks'.decode))

end Blockwork
