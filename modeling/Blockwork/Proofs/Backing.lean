/-
Libraries behind words: what a template mentions of a library, it has asked for by then.

- `Backed`: a code whose literals are closed and whose words, where they stand for a library, have that library in
  the registry.
- `Piece.joinAll`: no two pieces in a row can run together into one word.
- `Template.isBacked`: both as a check on a template as data. The templates of every target pass it
  (`Language.template_isBacked`), so what they render is backed if the texts in their places are
  (`Template.backed_render`).
-/
import Blockwork.Proofs.Balance
import Blockwork.Proofs.Words

namespace Blockwork

/-! ## Words that stand for a library -/

/-- the words that stand for a library, or for something in it, each with the key of the library -/
def Language.modules : Language → List (String × String)
  | javascript => []
  | dart => [("Math", "import_dart_math")]
  | python =>
    [("math", "import_math"), ("random", "import_random"), ("re", "import_re"),
     ("Number", "from_numbers_import_number")]

/-- whether the library behind each of the words, if there is one, is among those with the keys -/
def Language.covers (language : Language) (keys : List String) (words : List (List Char)) : Bool :=
  language.modules.all fun entry => !words.contains entry.1.toList || keys.contains entry.2

/-- such a word is reserved, and has a letter in it -/
theorem Language.modules_reserved (language : Language) :
    ∀ entry ∈ language.modules, entry.1 ∈ language.reservedWords ∧ entry.1.toList.any Char.isAlpha := by
  cases language <;> decide

theorem Language.covers_append (language : Language) (keys : List String) (words more : List (List Char)) :
    language.covers keys (words ++ more) ↔ language.covers keys words ∧ language.covers keys more := by
  simp only [covers, List.all_eq_true, Bool.or_eq_true, Bool.not_eq_true', List.contains_eq_mem, List.mem_append,
    decide_eq_false_iff_not, decide_eq_true_eq, not_or]
  constructor
  · intro h
    exact ⟨fun entry hm => (h entry hm).imp And.left id, fun entry hm => (h entry hm).imp And.right id⟩
  · rintro ⟨h1, h2⟩ entry hm
    rcases h1 entry hm with h1 | hk
    · exact (h2 entry hm).imp (fun h2 => ⟨h1, h2⟩) id
    · exact .inr hk

theorem Language.covers_of_subset {language : Language} {keys : List String} {words more : List (List Char)}
    (h : language.covers keys more) (hs : words ⊆ more) : language.covers keys words := by
  simp only [covers, List.all_eq_true, Bool.or_eq_true, Bool.not_eq_true', List.contains_eq_mem,
    decide_eq_false_iff_not, decide_eq_true_eq] at h ⊢
  exact fun entry hm => (h entry hm).imp (fun hout hin => hout (hs hin)) id

/-- a character that is neither a quote nor a letter -/
def Text.isMark (c : Char) : Bool :=
  c != '\'' && !c.isAlpha

theorem Text.isMark_of_isDigit {c : Char} (h : c.isDigit) : Text.isMark c := by
  simp only [isMark, Bool.and_eq_true, bne_iff_ne, Bool.not_eq_true', ← Bool.not_eq_true]
  constructor
  · rintro rfl
    exact absurd h (by decide)
  · change ¬ ((decide (c.val ≥ 65 ∧ c.val ≤ 90) || (decide (c.val ≥ 97) && decide (c.val ≤ 122))) = true)
    simp only [Char.isDigit, Bool.and_eq_true, Bool.or_eq_true, decide_eq_true_eq, UInt32.le_iff_toNat_le,
      ge_iff_le] at h ⊢
    change 48 ≤ c.toNat ∧ c.toNat ≤ 57 at h
    change ¬ ((65 ≤ c.toNat ∧ c.toNat ≤ 90) ∨ (97 ≤ c.toNat ∧ c.toNat ≤ 122))
    omega

theorem IsNumeral.isMark {cs : List Char} (h : IsNumeral cs) : ∀ c ∈ cs, Text.isMark c := by
  cases h with
  | whole _ hd => exact fun c hc => Text.isMark_of_isDigit (hd c hc)
  | fraction _ hd _ he =>
    refine List.forall_mem_append.2 ⟨fun c hc => Text.isMark_of_isDigit (hd c hc), ?_⟩
    exact List.forall_mem_cons.2 ⟨rfl, fun c hc => Text.isMark_of_isDigit (he c hc)⟩

/-- code with closed literals whose words have the libraries behind them in the registry -/
structure Backed (language : Language) (registry : Registry) (code : String) : Prop where
  alike : AlikeCode code code
  library : ∀ entry ∈ language.modules, entry.1.toList ∈ Text.words code.toList → registry.contains entry.2

namespace Backed

variable {language : Language} {registry later : Registry} {a b : String}

theorem mono (h : Backed language registry a) (hentries : registry.entries <+: later.entries) :
    Backed language later a :=
  ⟨h.alike, fun entry hm hw => Registry.contains_of_prefix hentries (h.library entry hm hw)⟩

/-- a code whose words are covered by keys that are there -/
theorem of_covers {keys : List String} (hc : Text.isClosed false a.toList)
    (h : language.covers keys (Text.words a.toList)) (hk : ∀ key ∈ keys, registry.contains key) :
    Backed language registry a := by
  refine ⟨.of_isClosed hc, fun entry hm hw => hk _ ?_⟩
  have hentry := List.all_eq_true.1 h entry hm
  simpa [hw] using hentry

/-- a code without quotes and letters has no such word -/
theorem of_marks (h : a.toList.all Text.isMark) : Backed language registry a := by
  simp only [List.all_eq_true, Text.isMark, Bool.and_eq_true, bne_iff_ne, Bool.not_eq_true'] at h
  have hquote : '\'' ∉ a.toList := fun hm => (h _ hm).1 rfl
  refine ⟨.of_not_mem hquote, fun entry hm hw => ?_⟩
  obtain ⟨c, hc, halpha⟩ := List.any_eq_true.1 (language.modules_reserved entry hm).2
  rw [Text.words, Text.blankFrom_of_not_mem hquote] at hw
  rw [(h c (Text.subset_of_mem_runs hw hc)).2] at halpha
  cases halpha

theorem empty : Backed language registry "" := of_marks rfl

theorem append (ha : Backed language registry a) (hb : Backed language registry b)
    (hapart : Text.endsApart a.toList ∨ Text.startsApart b.toList) : Backed language registry (a ++ b) := by
  refine ⟨ha.alike.append hb.alike, fun entry hm hw => ?_⟩
  rw [String.toList_append, ha.alike.words_append hapart] at hw
  rcases List.mem_append.1 hw with hw | hw
  · exact ha.library entry hm hw
  · exact hb.library entry hm hw

theorem bracketed (h : Backed language registry a) : Backed language registry (bracketed a) := by
  have hopen : Backed language registry "(" := of_marks rfl
  have hclose : Backed language registry ")" := of_marks rfl
  exact (hopen.append h (.inl rfl)).append hclose (.inr rfl)

theorem parenthesize (h : Backed language registry a) (bare : Bool) :
    Backed language registry (parenthesize a bare) := by
  cases bare
  · exact h.bracketed
  · exact h

theorem bracketed_if (h : Backed language registry a) (look : Bool) :
    Backed language registry (if look then a else Blockwork.bracketed a) := by
  cases look
  · exact h.bracketed
  · exact h

theorem natural (n : Nat) : Backed language registry (toString n) := by
  refine of_marks (List.all_eq_true.2 fun c hc => Text.isMark_of_isDigit ?_)
  rw [show (toString n).toList = Nat.toDigits 10 n from Nat.toList_repr] at hc
  exact Nat.isDigit_of_mem_toDigits (by decide) (by decide) hc

theorem integer (n : Int) : Backed language registry (toString n) := by
  cases n with
  | ofNat n => exact natural n
  | negSucc n =>
    have hminus : Backed language registry "-" := of_marks rfl
    exact hminus.append (natural (n + 1)) (.inl rfl)

/-- a numeral, or the code with a fixed text behind it that starts with a separator -/
theorem adjusted (h : Backed language registry a) (limit : Nat) {numeral : Nat → String} {suffix : String}
    (hn : ∀ n, Backed language registry (numeral n)) (hs : Backed language registry suffix)
    (hapart : Text.startsApart suffix.toList) :
    Backed language registry (match naturalBelow? limit a with | some n => numeral n | none => a ++ suffix) := by
  split
  · exact hn _
  · exact h.append hs (.inr hapart)

theorem boundAbove (h : Backed language registry a) : Backed language registry (boundAbove a) :=
  h.adjusted _ (fun n => natural (n + 1)) (of_marks rfl) rfl

theorem indexBefore (h : Backed language registry a) : Backed language registry (indexBefore a) :=
  h.adjusted _ (fun n => integer (n - 1)) (of_marks rfl) rfl

theorem indexBeforeClamped (h : Backed language registry a) : Backed language registry (indexBeforeClamped a) :=
  h.adjusted _ (fun n => natural (n - 1)) (of_marks rfl) rfl

theorem guardMinus (h : Backed language registry a) : Backed language registry (guardMinus a) := by
  unfold Blockwork.guardMinus
  split_ifs
  · exact h.bracketed
  · exact h

theorem rangeStart (h : Backed language registry a) :
    Backed language registry (rangeStart a) ∧ Text.endsApart (rangeStart a).toList := by
  unfold Blockwork.rangeStart
  split_ifs
  · exact ⟨empty, rfl⟩
  · refine ⟨h.append (of_marks rfl) (.inr rfl), ?_⟩
    exact Text.endsApart_concat rfl (by decide) _

theorem prefixLines (h : Backed language registry a) : Backed language registry (Text.prefixLines a Text.indentation) ∧
    Text.endsApart (Text.prefixLines a Text.indentation).toList := by
  have hplain : ∀ c ∈ Text.indentation.toList, Text.isPlain c := List.all_eq_true.1 rfl
  have hblank : ∀ c ∈ Text.indentation.toList, !Names.isNameChar c := List.all_eq_true.1 rfl
  refine ⟨⟨h.alike.prefixLines (by decide), fun entry hm hw => h.library entry hm ?_⟩, ?_⟩
  · rw [Text.prefixLines, String.toList_ofList, h.alike.words_indentChars hplain hblank] at hw
    exact hw
  · rw [Text.prefixLines, String.toList_ofList]
    exact Text.endsApart_indentChars _ _

theorem identifier (h : Names.IsIdentifier a) (hr : a ∉ language.reservedWords) : Backed language registry a := by
  refine ⟨.of_not_mem h.quote_not_mem, fun entry hm hw => absurd ?_ hr⟩
  obtain ⟨c, cs, hname, hc, -, hcs⟩ := h
  have hall : ∀ d ∈ c :: cs, Names.isNameChar d := List.forall_mem_cons.2 ⟨hc, hcs⟩
  have hquote : '\'' ∉ c :: cs := fun hm => absurd (hall _ hm) (by decide)
  rw [hname, Text.words, Text.blankFrom_of_not_mem hquote, Text.runs_of_isNameChar (List.cons_ne_nil c cs) hall,
    List.mem_singleton, ← hname, String.toList_inj] at hw
  exact hw ▸ (language.modules_reserved entry hm).1

theorem quote (text : String) : Backed language registry (language.quote text) := by
  have hinterior := Text.interior_flatMap_escape language.interpolates text.toList
  have hchars : (language.quote text).toList = Text.quoteChars language.interpolates text.toList := by
    rw [Language.quote, String.toList_ofList]
  refine ⟨?_, fun entry hm hw => ?_⟩
  · unfold AlikeCode
    rw [hchars]
    exact Text.alike_quoteChars _ _ _
  · have hblank : Text.blankFrom false (language.quote text).toList = ['\'', '\''] := by
      rw [hchars]
      simp [Text.quoteChars, Text.blankFrom, Text.blankFrom_interior hinterior]
    rw [Text.words, hblank] at hw
    cases hw

theorem numberLiteral (x : Binary64) : Backed language registry (language.numberLiteral x) := by
  have hfixed : ∀ {code : String}, Text.isClosed false code.toList → language.covers [] (Text.words code.toList) →
      Backed language registry code := fun hc h => of_covers hc h (List.forall_mem_nil _)
  cases x with
  | nan => cases language <;> exact hfixed rfl rfl
  | infinite negative => cases language <;> cases negative <;> exact hfixed rfl rfl
  | finite negative m p =>
    by_cases hm : m = 0
    · subst hm
      rw [language.numberLiteral_zero]
      exact of_marks rfl
    · refine of_marks (List.all_eq_true.2 ?_)
      rw [language.numberLiteral_finite negative hm p]
      refine List.forall_mem_append.2 ⟨?_, (language.isNumeral_magnitude m p).isMark⟩
      cases negative <;> exact List.all_eq_true.1 rfl

end Backed

/-! ## Texts that do not run together -/

def Piece.words : Piece → List (List Char)
  | text code => Text.words code.toList
  | procedureBody _ _ stop noop => Text.words "return ".toList ++ (Text.words stop.toList ++ Text.words noop.toList)
  | _ => []

/-- whether what stands before a piece and the piece together end apart, if no word of the one can run into the other;
`ends` says which of the texts are known to end apart -/
def Piece.join (ends : List Bool) (apart : Bool) : Piece → Option Bool
  | text code =>
    if apart || Text.startsApart code.toList then
      some ((apart || !code.toList.isEmpty) && Text.endsApart code.toList)
    else none
  | hole i => if apart then some (ends.getD i false) else none
  | rangeStart _ => if apart then some true else none
  | procedureBody statements _ stop _ =>
    if apart && ends.getD statements false && !stop.toList.isEmpty && Text.startsApart stop.toList &&
      Text.endsApart stop.toList then some true else none
  | _ => if apart then some false else none

def Piece.joinAll (ends : List Bool) (apart : Bool) (pieces : List Piece) : Option Bool :=
  pieces.foldlM (join ends) apart

section

variable {language : Language} {registry : Registry} {texts : List String} {ends : List Bool} {keys : List String}

/-- texts for the places of a template, and what is known about their ends -/
structure Filled (language : Language) (registry : Registry) (ends : List Bool) (texts : List String) : Prop where
  backed : ∀ text ∈ texts, Backed language registry text
  apart : ∀ i, ends.getD i false → Text.endsApart (Piece.textAt texts i).toList

theorem Filled.textAt (h : Filled language registry ends texts) (i : Nat) :
    Backed language registry (Piece.textAt texts i) := by
  unfold Piece.textAt
  rw [List.getD_eq_getElem?_getD]
  cases hi : texts[i]? with
  | none => exact .empty
  | some text => exact h.backed text (List.mem_of_getElem? hi)

theorem Backed.procedureBody {statements result stop noop : String} (hs : Backed language registry statements)
    (hr : Backed language registry result) (hstop : Backed language registry stop)
    (hnoop : Backed language registry noop) (hreturn : Backed language registry "return ")
    (hstart : Text.startsApart stop.toList) :
    Backed language registry (procedureBody statements result stop noop) := by
  have hindentation : Backed language registry Text.indentation := .of_marks rfl
  unfold Blockwork.procedureBody
  split_ifs
  · have hlead := (hs.append hindentation (.inr rfl)).append hreturn (.inl ?_)
    · refine (hlead.append hr (.inl ?_)).append hstop (.inr hstart)
      exact Text.endsApart_concat rfl (by decide) _
    · exact Text.endsApart_concat rfl (by decide) _
  · exact hs
  · have hend : Backed language registry "\n" := .of_marks rfl
    exact (hindentation.append hnoop (.inl rfl)).append hend (.inr rfl)

theorem Text.endsApart_procedureBody {statements stop : String} (hs : Text.endsApart statements.toList)
    (hstop : Text.endsApart stop.toList) (hne : stop.toList ≠ []) (result noop : String) :
    Text.endsApart (Blockwork.procedureBody statements result stop noop).toList := by
  unfold Blockwork.procedureBody
  split_ifs
  · exact Text.endsApart_concat hstop hne _
  · exact hs
  · exact Text.endsApart_concat rfl (by decide) _

theorem Piece.backed_render (h : Filled language registry ends texts) {piece : Piece} {apart apart' : Bool}
    (hs : piece.isSafe) (hc : language.covers keys piece.words) (hk : ∀ key ∈ keys, registry.contains key)
    (hj : piece.join ends apart = some apart') : Backed language registry (piece.render texts) := by
  cases piece with
  | text code => exact .of_covers hs hc hk
  | hole i => exact h.textAt i
  | receiver i => exact (h.textAt i).bracketed_if _
  | guardMinus i => exact (h.textAt i).guardMinus
  | guardWord i => exact (h.textAt i).bracketed_if _
  | boundAbove i => exact (h.textAt i).boundAbove
  | indexBefore i => exact (h.textAt i).indexBefore
  | indexBeforeClamped i => exact (h.textAt i).indexBeforeClamped
  | rangeStart i => exact (h.textAt i).rangeStart.1
  | procedureBody statements result stop noop =>
    simp only [isSafe, Bool.and_eq_true] at hs
    simp only [words, Language.covers_append] at hc
    simp only [join, Option.ite_none_right_eq_some, Bool.and_eq_true] at hj
    exact (h.textAt statements).procedureBody (h.textAt result) (.of_covers hs.1 hc.2.1 hk) (.of_covers hs.2 hc.2.2 hk)
      (.of_covers rfl hc.1 hk) hj.1.1.2

/-- a piece keeps apart from what stands before it, and what is known of its end holds -/
theorem Piece.apart_render (h : Filled language registry ends texts) {piece : Piece} {apart apart' : Bool}
    {before : List Char} (hb : apart → Text.endsApart before) (hj : piece.join ends apart = some apart') :
    (Text.endsApart before ∨ Text.startsApart (piece.render texts).toList) ∧
      (apart' → Text.endsApart (before ++ (piece.render texts).toList)) := by
  cases piece with
  | text code =>
    simp only [join, Option.ite_none_right_eq_some, Option.some.injEq, Bool.or_eq_true] at hj
    obtain ⟨hstart, rfl⟩ := hj
    refine ⟨hstart.imp hb id, fun hend => ?_⟩
    simp only [Bool.and_eq_true, Bool.or_eq_true, Bool.not_eq_true'] at hend
    refine Text.endsApart_append hend.2 fun hnil => ?_
    rcases hend.1 with hapart | hempty
    · exact hb hapart
    · change code.toList = [] at hnil
      rw [hnil] at hempty
      cases hempty
  | hole i =>
    simp only [join, Option.ite_none_right_eq_some, Option.some.injEq] at hj
    obtain ⟨hapart, rfl⟩ := hj
    exact ⟨.inl (hb hapart), fun hend => Text.endsApart_append (h.apart i hend) fun _ => hb hapart⟩
  | rangeStart i =>
    simp only [join, Option.ite_none_right_eq_some, Option.some.injEq] at hj
    obtain ⟨hapart, rfl⟩ := hj
    exact ⟨.inl (hb hapart), fun _ => Text.endsApart_append (h.textAt i).rangeStart.2 fun _ => hb hapart⟩
  | procedureBody statements result stop noop =>
    simp only [join, Option.ite_none_right_eq_some, Option.some.injEq, Bool.and_eq_true, Bool.not_eq_true'] at hj
    obtain ⟨⟨⟨⟨⟨hapart, hstatements⟩, hne⟩, -⟩, hend⟩, rfl⟩ := hj
    have hstop : stop.toList ≠ [] := fun hnil => by
      rw [hnil] at hne
      cases hne
    have hbody := Text.endsApart_procedureBody (h.apart statements hstatements) hend hstop (Piece.textAt texts result)
      noop
    exact ⟨.inl (hb hapart), fun _ => Text.endsApart_append hbody fun _ => hb hapart⟩
  | _ =>
    simp only [join, Option.ite_none_right_eq_some, Option.some.injEq] at hj
    obtain ⟨hapart, rfl⟩ := hj
    exact ⟨.inl (hb hapart), fun hend => nomatch hend⟩

/-- **Pieces that do not run together are backed** if what stands in their places is. -/
theorem Piece.backed_renderAll (h : Filled language registry ends texts) (hk : ∀ key ∈ keys, registry.contains key)
    {pieces : List Piece} {apart apart' : Bool} {before : String} (hbefore : Backed language registry before)
    (hb : apart → Text.endsApart before.toList) (hs : pieces.all isSafe)
    (hc : language.covers keys (pieces.flatMap words)) (hj : joinAll ends apart pieces = some apart') :
    Backed language registry (before ++ renderAll texts pieces) ∧
      (apart' → Text.endsApart (before ++ renderAll texts pieces).toList) := by
  induction pieces generalizing apart before with
  | nil =>
    obtain rfl := Option.some.inj hj
    rw [renderAll, String.append_empty]
    exact ⟨hbefore, hb⟩
  | cons piece rest ih =>
    simp only [List.all_cons, Bool.and_eq_true] at hs
    rw [List.flatMap_cons, Language.covers_append] at hc
    rw [joinAll, List.foldlM_cons] at hj
    obtain ⟨between, hpiece, hrest⟩ := Option.bind_eq_some_iff.1 hj
    obtain ⟨hapart, hend⟩ := apart_render h hb hpiece
    have hnext := hbefore.append (backed_render h hs.1 hc.1 hk hpiece) hapart
    rw [renderAll, ← String.append_assoc]
    refine ih hnext (fun hbetween => ?_) hs.2 hc.2 hrest
    rw [String.toList_append]
    exact hend hbetween

end

/-! ## Templates that ask for what they mention -/

/-- whether the text that a step leaves ends apart: the lines of a body do -/
def Step.endsApart : Step → Bool
  | branch _ => true
  | body _ => true
  | _ => false

def Step.asks : Step → List String
  | require library => [library.key]
  | _ => []

/-- whether the lines of a helper keep apart from its name, and mention no library but those with the keys -/
def Helper.isBacked (language : Language) (keys : List String) (helper : Helper) : Bool :=
  Text.endsApart helper.before.toList && Text.startsApart helper.after.toList &&
    language.covers keys (Text.words helper.before.toList ++ (Text.words helper.after.toList ++
      helper.body.flatMap fun line => Text.words line.toList))

/-- the check on a step; `keys` are those of the libraries asked for before it -/
def Step.isBacked (language : Language) (ends : List Bool) (keys : List String) : Step → Bool
  | value _ _ absent => language.covers keys (Text.words absent.toList)
  | helper h => h.isBacked language keys
  | require library =>
    !library.source.toList.isEmpty && language.covers [library.key] (Text.words library.source.toList)
  | hoist _ _ source => (Piece.joinAll ends true source).isSome && language.covers keys (source.flatMap Piece.words)
  | _ => true

def Step.areBacked (language : Language) (ends : List Bool) (keys : List String) : List Step → Bool
  | [] => true
  | step :: rest => step.isBacked language ends keys && areBacked language ends (keys ++ step.asks) rest

def Layout.isBacked (language : Language) (ends : List Bool) (keys : List String) (statement : Bool)
    (layout : Layout) : Bool :=
  language.covers keys (layout.pieces.flatMap Piece.words) &&
    match Piece.joinAll ends true layout.pieces with
    | some apart => !statement || (apart && !layout.isLoose)
    | none => false

def Shape.isBacked (language : Language) (ends : List Bool) (keys : List String) (statement : Bool) : Shape → Bool
  | always layout => layout.isBacked language ends keys statement
  | ordered _ _ rising falling unknown =>
    rising.isBacked language ends keys statement && falling.isBacked language ends keys statement &&
      unknown.isBacked language ends keys statement

/-- which of the texts left by a template's steps end apart -/
def Template.ends (template : Template) : List Bool :=
  (template.steps.filter Step.leavesText).map Step.endsApart

def Template.isBacked (language : Language) (statement : Bool) (template : Template) : Bool :=
  Step.areBacked language template.ends [] template.steps &&
    template.shape.isBacked language template.ends (template.steps.flatMap Step.asks) statement

-- the lines are handed to the check as their characters: decoding them first is what takes time
theorem Helper.isBacked_of_chars {language : Language} {keys : List String} {before after : List Char}
    {lines : List (List Char)} {helper : Helper} (hb : helper.before = String.ofList before)
    (ha : helper.after = String.ofList after) (hl : helper.body = lines.map String.ofList)
    (h : Text.endsApart before && Text.startsApart after &&
      language.covers keys (Text.words before ++ (Text.words after ++ lines.flatMap Text.words))) :
    helper.isBacked language keys := by
  rw [isBacked, hb, ha, hl, List.flatMap_map]
  simpa only [String.toList_ofList] using h

theorem Target.JavaScript.helpers_isBacked (keys : List String) : mean.isBacked .javascript keys ∧
    median.isBacked .javascript keys ∧ modes.isBacked .javascript keys ∧ deviation.isBacked .javascript keys ∧
    randomItem.isBacked .javascript keys ∧ titleCase.isBacked .javascript keys := by
  refine ⟨?_, ?_, ?_, ?_, ?_, ?_⟩ <;>
  · apply Helper.isBacked_of_chars rfl rfl
    · repeat apply Helper.chars_cons
      exact (List.map_nil).symm
    · rfl

theorem Target.Dart.helpers_isBacked : mean.isBacked .dart [] ∧ median.isBacked .dart [] ∧
    modes.isBacked .dart [math.key] ∧ deviation.isBacked .dart [math.key] ∧ randomItem.isBacked .dart [math.key] ∧
    titleCase.isBacked .dart [] := by
  refine ⟨?_, ?_, ?_, ?_, ?_, ?_⟩ <;>
  · apply Helper.isBacked_of_chars rfl rfl
    · repeat apply Helper.chars_cons
      exact (List.map_nil).symm
    · decide +kernel

theorem Target.Python.helpers_isBacked : mean.isBacked .python [] ∧ median.isBacked .python [numbers.key] ∧
    modes.isBacked .python [] ∧ deviation.isBacked .python [math.key, numbers.key] ∧
    titleCase.isBacked .python [re.key] := by
  refine ⟨?_, ?_, ?_, ?_, ?_⟩ <;>
  · apply Helper.isBacked_of_chars rfl rfl
    · repeat apply Helper.chars_cons
      exact (List.map_nil).symm
    · decide +kernel

theorem Step.areBacked_of_forall {language : Language} {ends : List Bool} {steps : List Step}
    (h : ∀ step ∈ steps, ∀ keys, step.isBacked language ends keys) (keys : List String) :
    Step.areBacked language ends keys steps := by
  induction steps generalizing keys with
  | nil => rfl
  | cons step rest ih =>
    obtain ⟨hstep, hrest⟩ := List.forall_mem_cons.1 h
    simp only [areBacked, hstep keys, ih hrest, Bool.and_self]

namespace Piece

theorem joinAll_append (ends : List Bool) (apart : Bool) (before after : List Piece) :
    joinAll ends apart (before ++ after) = (joinAll ends apart before).bind fun apart => joinAll ends apart after :=
  List.foldlM_append

theorem joinAll_composes (ends : List Bool) : Composes fun pieces => joinAll ends true pieces = some true :=
  ⟨rfl, fun hb ha => by rw [joinAll_append, hb]; exact ha⟩

theorem covers_composes (language : Language) (keys : List String) :
    Composes fun pieces => language.covers keys (pieces.flatMap words) where
  nil := by cases language <;> rfl
  append hb ha := by
    rw [List.flatMap_append, Language.covers_append]
    exact ⟨hb, ha⟩

theorem joinAll_cons {ends : List Bool} {apart apart' : Bool} {piece : Piece} (h : join ends apart piece = some apart')
    (rest : List Piece) : joinAll ends apart (piece :: rest) = joinAll ends apart' rest := by
  rw [joinAll, List.foldlM_cons, h]
  rfl

theorem joinAll_hole {ends : List Bool} {last : String} (h : ∀ apart, join ends apart (.text last) = some true)
    (i : Nat) (rest : List Piece) : joinAll ends true (.hole i :: .text last :: rest) = joinAll ends true rest := by
  have hhole : join ends true (.hole i) = some (ends.getD i false) := rfl
  rw [joinAll_cons hhole, joinAll_cons (h _)]

/-- places with a comma between them do not run together -/
theorem joinAll_separated {ends : List Bool} {places : List (List Piece)}
    (h : ∀ place ∈ places, ∃ apart, joinAll ends true place = some apart) :
    ∃ apart, joinAll ends true (Template.separated [", "] places) = some apart := by
  induction places with
  | nil => exact ⟨true, rfl⟩
  | cons place rest ih =>
    obtain ⟨hplace, hrest⟩ := List.forall_mem_cons.1 h
    cases rest with
    | nil => exact hplace
    | cons next rest =>
      obtain ⟨apart, hplace⟩ := hplace
      obtain ⟨apart', hothers⟩ := ih hrest
      have hcomma : joinAll ends apart [", "] = some true := by cases apart <;> rfl
      refine ⟨apart', ?_⟩
      rw [Template.separated, joinAll_append, joinAll_append, hplace]
      · change ((joinAll ends apart [", "]).bind fun apart => _) = _
        rw [hcomma]
        exact hothers
      · exact List.cons_ne_nil next rest

end Piece

namespace Template

theorem choice_ends (falsity : String) (elseifs : Nat) (otherwise : Bool) {ends : List Bool}
    (he : ends = ((choiceSteps falsity elseifs otherwise).filter Step.leavesText).map Step.endsApart) :
    (∀ n ≤ elseifs, ends.getD (2 * n + 1) false = true) ∧
      (otherwise = true → ends.getD (2 * (elseifs + 1)) false = true) := by
  obtain ⟨hpairs, hlast⟩ := getElem?_choiceSteps falsity elseifs otherwise
  rw [he, choiceSteps_leaving]
  refine ⟨fun n hn => ?_, fun ho => ?_⟩
  · rw [List.getD_eq_getElem?_getD, List.getElem?_map, (hpairs n hn).2]
    rfl
  · rw [List.getD_eq_getElem?_getD, List.getElem?_map, hlast ho]
    rfl

/-- a choice, whatever stands around its conditions and branches -/
theorem choice_isBacked {language : Language} {falsity : String}
    (hf : ∀ keys, language.covers keys (Text.words falsity.toList)) (elseifs : Nat) (otherwise : Bool)
    {condition : Nat → List Piece} {rest : List (List Piece)}
    (hc : ∀ n ≤ elseifs, ∀ keys, language.covers keys ((condition n).flatMap Piece.words))
    (hr : ∀ keys, language.covers keys (rest.flatten.flatMap Piece.words))
    (hj : ∀ ends, (∀ n ≤ elseifs, ends.getD (2 * n + 1) false = true) →
      (otherwise → ends.getD (2 * (elseifs + 1)) false = true) →
      (∀ n ≤ elseifs, Piece.joinAll ends true (condition n) = some true) ∧
        Piece.joinAll ends true rest.flatten = some true) :
    (tight (choiceSteps falsity elseifs otherwise)
      (.flatten ((List.range (elseifs + 1)).flatMap condition :: rest))).isBacked language true := by
  obtain ⟨hbranches, hlast⟩ := choice_ends falsity elseifs otherwise rfl
  obtain ⟨hconditions, hrest⟩ := hj _ hbranches hlast
  have hjoin : Piece.joinAll ((choiceSteps falsity elseifs otherwise).filter Step.leavesText |>.map Step.endsApart) true
      ((List.range (elseifs + 1)).flatMap condition ++ rest.flatten) = some true := by
    refine (Piece.joinAll_composes _).append ((Piece.joinAll_composes _).flatMap fun n hn => ?_) hrest
    exact hconditions n (Nat.lt_succ_iff.1 (List.mem_range.1 hn))
  have hwords : ∀ keys, language.covers keys
      (((List.range (elseifs + 1)).flatMap condition ++ rest.flatten).flatMap Piece.words) := by
    intro keys
    have hcomposes := Piece.covers_composes language keys
    exact hcomposes.append (hcomposes.flatMap fun n hn => hc n (Nat.lt_succ_iff.1 (List.mem_range.1 hn)) keys) (hr keys)
  have hsteps : ∀ ends, Step.areBacked language ends [] (choiceSteps falsity elseifs otherwise) := fun ends =>
    Step.areBacked_of_forall (choiceSteps_forall (fun _ keys => hf keys) (fun _ _ => rfl) _ _) []
  simp only [isBacked, tight, hsteps, Shape.isBacked, Layout.isBacked, Layout.tight, ends, List.flatten_cons, hwords,
    hjoin, Bool.and_self, Bool.not_false, Bool.not_true, Bool.false_or]

/-- a list of joined texts, whatever stands around each of them -/
theorem list_isBacked {language : Language} (items : Nat) {before after : List Piece} {place : Nat → List Piece}
    (hb : ∀ ends, Piece.joinAll ends true before = some true)
    (hp : ∀ ends i, ∃ apart, Piece.joinAll ends true (place i) = some apart)
    (ha : ∀ ends apart, ∃ apart', Piece.joinAll ends apart after = some apart')
    (hw : ∀ keys, language.covers keys (before.flatMap Piece.words) ∧ language.covers keys (after.flatMap Piece.words))
    (hpw : ∀ keys i, language.covers keys ((place i).flatMap Piece.words)) :
    (tight ((List.range items).map fun slot => string slot true)
      (.flatten [before, separated [", "] ((List.range items).map place), after])).isBacked language false := by
  have hsteps : ∀ ends, Step.areBacked language ends [] ((List.range items).map fun slot => string slot true) :=
    fun ends => Step.areBacked_of_forall (strings_forall (fun _ _ => by cases language <;> rfl) items) []
  have hflatten : List.flatten [before, separated [", "] ((List.range items).map place), after] =
      before ++ (separated [", "] ((List.range items).map place) ++ after) := by simp
  have hjoin : ∀ ends, ∃ apart, Piece.joinAll ends true
      (.flatten [before, separated [", "] ((List.range items).map place), after]) = some apart := by
    intro ends
    have hplaces : ∃ apart, Piece.joinAll ends true (separated [", "] ((List.range items).map place)) = some apart := by
      refine Piece.joinAll_separated fun pieces hm => ?_
      obtain ⟨i, -, rfl⟩ := List.mem_map.1 hm
      exact hp ends i
    obtain ⟨apart, hplaces⟩ := hplaces
    obtain ⟨apart', hafter⟩ := ha ends apart
    refine ⟨apart', ?_⟩
    rw [hflatten, Piece.joinAll_append, hb, Option.bind_some, Piece.joinAll_append, hplaces]
    exact hafter
  have hwords : ∀ keys, language.covers keys
      ((List.flatten [before, separated [", "] ((List.range items).map place), after]).flatMap Piece.words) := by
    intro keys
    have hcomposes := Piece.covers_composes language keys
    have hcomma : language.covers keys (([", "] : List Piece).flatMap Piece.words) := by cases language <;> rfl
    rw [hflatten]
    exact hcomposes.append (hw keys).1 (hcomposes.append (hcomposes.separated hcomma fun i _ => hpw keys i) (hw keys).2)
  simp only [isBacked, tight, hsteps, Shape.isBacked, Layout.isBacked, Layout.tight, hwords, Bool.true_and]
  obtain ⟨apart, hall⟩ := hjoin (ends ⟨(List.range items).map fun slot => string slot true, .always ⟨false, _⟩⟩)
  rw [hall]
  rfl

end Template

/-- in braces, every branch is set off by what follows it -/
theorem Target.Brace.joinAll_choice (ends : List Bool) (elseifs : Nat) (otherwise : Bool) :
    (∀ n ≤ elseifs, Piece.joinAll ends true (conditionPieces n) = some true) ∧
      Piece.joinAll ends true (List.flatten [if otherwise then
        [" else \x7b\n", .hole (2 * (elseifs + 1)), "\x7d"] else [], ["\n"]]) = some true := by
  have hset : ∀ apart, Piece.join ends apart ") \x7b\n" = some true := fun apart => by cases apart <;> rfl
  have hclose : ∀ apart, Piece.join ends apart "\x7d" = some true := fun apart => by cases apart <;> rfl
  have hcondition : ∀ n, Piece.joinAll ends true ["if (", .hole (2 * n), ") \x7b\n", .hole (2 * n + 1), "\x7d"] =
      some true := by
    intro n
    have hif : Piece.join ends true "if (" = some true := rfl
    rw [Piece.joinAll_cons hif, Piece.joinAll_hole hset, Piece.joinAll_hole hclose]
    rfl
  constructor
  · intro n _
    cases n with
    | zero => exact hcondition 0
    | succ n =>
      have helse : Piece.join ends true " else " = some true := rfl
      exact (Piece.joinAll_cons helse _).trans (hcondition (n + 1))
  · cases otherwise with
    | false => rfl
    | true =>
      have helse : Piece.join ends true " else \x7b\n" = some true := rfl
      exact (Piece.joinAll_cons helse _).trans (Piece.joinAll_hole hclose _ _)

/-- where lines alone set a branch off, it ends with one -/
theorem Target.Python.joinAll_choice {ends : List Bool} {elseifs : Nat} {otherwise : Bool}
    (hb : ∀ n ≤ elseifs, ends.getD (2 * n + 1) false = true)
    (ho : otherwise → ends.getD (2 * (elseifs + 1)) false = true) :
    (∀ n ≤ elseifs, Piece.joinAll ends true (conditionPieces n) = some true) ∧
      Piece.joinAll ends true (List.flatten [if otherwise then
        ["else:\n", .hole (2 * (elseifs + 1))] else []]) = some true := by
  constructor
  · intro n hn
    have hset : ∀ apart, Piece.join ends apart ":\n" = some true := fun apart => by cases apart <;> rfl
    have hif : Piece.join ends true (if n = 0 then "if " else "elif ") = some true := by cases n <;> rfl
    have hbranch : Piece.join ends true (.hole (2 * n + 1)) = some true := congrArg some (hb n hn)
    rw [conditionPieces, Piece.joinAll_cons hif, Piece.joinAll_hole hset, Piece.joinAll_cons hbranch]
    rfl
  · cases otherwise with
    | false => rfl
    | true =>
      have helse : Piece.join ends true "else:\n" = some true := rfl
      have hbranch : Piece.join ends true (.hole (2 * (elseifs + 1))) = some true := congrArg some (ho rfl)
      exact (Piece.joinAll_cons helse _).trans (Piece.joinAll_cons hbranch _)

theorem Language.template_isBacked (language : Language) (form : Form) (h : ∀ content, form ≠ .text content)
    (hn : ∀ literal, form ≠ .number literal) :
    (language.template form).isBacked language form.isStatement := by
  cases form using Form.byData with
  | plain form hm =>
    have hplain : ∀ form ∈ Form.plain, (language.template form).isBacked language form.isStatement := by
      cases language <;> decide +kernel
    exact hplain form hm
  | number literal => exact absurd rfl (hn literal)
  | text content => exact absurd rfl (h content)
  | list items =>
    have hafter : ∀ (ends : List Bool) (apart : Bool) (after : String), after ∈ ["].join('')", "])"] →
        ∃ apart', Piece.joinAll ends apart [.text after] = some apart' := by
      intro ends apart after hm
      rcases List.mem_pair.1 hm with rfl | rfl <;> cases apart <;> exact ⟨true, rfl⟩
    cases language with
    | javascript =>
      exact Template.list_isBacked (items + 3) (fun _ => rfl) (fun _ _ => ⟨_, rfl⟩)
        (fun ends apart => hafter ends apart _ (by decide)) (fun _ => ⟨rfl, rfl⟩) fun _ _ => rfl
    | dart =>
      exact Template.list_isBacked (items + 3) (fun _ => rfl) (fun _ _ => ⟨_, rfl⟩)
        (fun ends apart => hafter ends apart _ (by decide)) (fun _ => ⟨rfl, rfl⟩) fun _ _ => rfl
    | python =>
      refine Template.list_isBacked (items + 3) (fun _ => rfl) (fun ends i => ⟨true, ?_⟩)
        (fun ends apart => hafter ends apart _ (by decide)) (fun _ => ⟨rfl, rfl⟩) fun _ _ => rfl
      have hset : ∀ apart, Piece.join ends apart ")" = some true := fun apart => by cases apart <;> rfl
      have hstr : Piece.join ends true "str(" = some true := rfl
      exact (Piece.joinAll_cons hstr _).trans (Piece.joinAll_hole hset _ _)
  | choice elseifs otherwise =>
    cases language with
    | javascript =>
      exact Template.choice_isBacked (fun _ => rfl) elseifs otherwise (fun n _ _ => by cases n <;> rfl)
        (fun _ => by cases otherwise <;> rfl) fun ends _ _ => Target.Brace.joinAll_choice ends elseifs otherwise
    | dart =>
      exact Template.choice_isBacked (fun _ => rfl) elseifs otherwise (fun n _ _ => by cases n <;> rfl)
        (fun _ => by cases otherwise <;> rfl) fun ends _ _ => Target.Brace.joinAll_choice ends elseifs otherwise
    | python =>
      exact Template.choice_isBacked (fun _ => rfl) elseifs otherwise (fun n _ _ => by cases n <;> rfl)
        (fun _ => by cases otherwise <;> rfl) fun ends hb ho => Target.Python.joinAll_choice hb ho
  | onList op =>
    obtain ⟨j1, j2, j3, j4, j5, -⟩ := Target.JavaScript.helpers_isBacked []
    obtain ⟨d1, d2, d3, d4, d5, -⟩ := Target.Dart.helpers_isBacked
    obtain ⟨p1, p2, p3, p4, -⟩ := Target.Python.helpers_isBacked
    cases language <;> cases op <;>
      simp only [template, Target.JavaScript.template, Target.JavaScript.onList, Target.JavaScript.onListBy,
        Target.Dart.template, Target.Dart.onList, Target.Python.template, Target.Python.onList, Template.isBacked,
        Template.tight, Template.list, Step.areBacked, Step.isBacked, Step.asks, List.append_nil, List.nil_append,
        List.cons_append, j1, j2, j3, j4, j5, d1, d2, d3, d4, d5, p1, p2, p3, p4, Bool.true_and] <;> rfl
  | changeCase style =>
    obtain ⟨-, -, -, -, -, jt⟩ := Target.JavaScript.helpers_isBacked []
    obtain ⟨-, -, -, -, -, dt⟩ := Target.Dart.helpers_isBacked
    obtain ⟨-, -, -, -, pt⟩ := Target.Python.helpers_isBacked
    cases language <;> cases style <;>
      simp only [template, Target.JavaScript.template, Target.JavaScript.changeCase, Target.Dart.template,
        Target.Dart.changeCase, Target.Python.template, Target.Python.changeCase, Template.isBacked, Template.tight,
        Template.string, Step.areBacked, Step.isBacked, Step.asks, List.append_nil, List.nil_append, jt, dt,
        pt, Bool.true_and] <;> rfl
  | _ => cases language <;> rfl

/-! ## Rendering backed texts -/

section

variable {language : Language} {registry : Registry} {texts : List String} {keys : List String}

theorem Layout.backed_render {layout : Layout} {ends : List Bool} {statement : Bool}
    (h : Filled language registry ends texts) (hk : ∀ key ∈ keys, registry.contains key)
    (hs : layout.pieces.all Piece.isSafe) (hl : layout.isBacked language ends keys statement) (bare : Bool) :
    Backed language registry (layout.render texts bare) ∧
      (statement → Text.endsApart (layout.render texts bare).toList) := by
  simp only [isBacked, Bool.and_eq_true] at hl
  cases hj : Piece.joinAll ends true layout.pieces with
  | none =>
    rw [hj] at hl
    exact absurd hl.2 Bool.false_ne_true
  | some apart =>
    rw [hj] at hl
    obtain ⟨hcode, hend⟩ := Piece.backed_renderAll h hk .empty (fun _ => rfl) hs hl.1 hj
    rw [String.empty_append] at hcode hend
    unfold render
    simp only
    cases hloose : layout.isLoose with
    | false =>
      refine ⟨hcode, fun hstatement => hend ?_⟩
      simpa [hstatement, hloose] using hl.2
    | true =>
      refine ⟨hcode.parenthesize bare, fun hstatement => ?_⟩
      simp [hstatement, hloose] at hl

theorem Shape.layout_isBacked {shape : Shape} {ends : List Bool} {statement : Bool}
    (h : shape.isBacked language ends keys statement) (texts : List String) :
    (shape.layout texts).isBacked language ends keys statement := by
  cases shape with
  | always layout => exact h
  | ordered first second rising falling unknown =>
    simp only [isBacked, Bool.and_eq_true] at h
    exact layout_ordered (P := fun layout => layout.isBacked language ends keys statement) h.1.1 h.1.2 h.2 texts

/-- **The code of a construct is backed** if the texts in its places are and the libraries it asks for are there; the
code of a statement ends apart. -/
theorem Template.backed_render (form : Form) (h : Filled language registry (language.template form).ends texts)
    (hk : ∀ key ∈ (language.template form).steps.flatMap Step.asks, registry.contains key) (bare : Bool) :
    Backed language registry ((language.template form).render texts bare) ∧
      (form.isStatement → Text.endsApart ((language.template form).render texts bare).toList) := by
  by_cases hform : ∃ content, form = .text content
  · obtain ⟨content, rfl⟩ := hform
    have hcode : (language.template (.text content)).render texts bare = language.quote content ++ "" := by
      cases language <;> rfl
    rw [hcode]
    exact ⟨(Backed.quote content).append .empty (.inr rfl), fun hs => nomatch hs⟩
  by_cases hnumber : ∃ literal, form = .number literal
  · obtain ⟨literal, rfl⟩ := hnumber
    have hcode : (language.template (.number literal)).render texts bare =
        language.numberLiteral (Binary64.parsePrefix literal) ++ "" := by
      cases language <;> rfl
    rw [hcode]
    exact ⟨(Backed.numberLiteral _).append .empty (.inr rfl), fun hs => nomatch hs⟩
  · have hother : ∀ content, form ≠ .text content := fun content hc => hform ⟨content, hc⟩
    have hsafe := language.template_isSafe form hother
    have hbacked := language.template_isBacked form hother fun literal hl => hnumber ⟨literal, hl⟩
    simp only [isSafe, isBacked, Bool.and_eq_true] at hsafe hbacked
    exact Layout.backed_render h hk (Shape.layout_isSafe hsafe.2 texts) (Shape.layout_isBacked hbacked.2 texts) bare

theorem Backed.joinWith {separator : String} (hs : Backed language registry separator)
    (hstart : Text.startsApart separator.toList) (hend : Text.endsApart separator.toList)
    (hne : separator.toList ≠ []) (h : ∀ text ∈ texts, Backed language registry text) :
    Backed language registry (Text.joinWith separator texts) := by
  induction texts with
  | nil => exact .empty
  | cons text rest ih =>
    obtain ⟨htext, hrest⟩ := List.forall_mem_cons.1 h
    cases rest with
    | nil => exact htext
    | cons next rest =>
      refine (htext.append hs (.inr hstart)).append (ih hrest) (.inl ?_)
      exact Text.endsApart_concat hend hne _

theorem Backed.concat (h : ∀ text ∈ texts, Backed language registry text)
    (hapart : ∀ text ∈ texts, Text.endsApart text.toList) : Backed language registry (texts.foldr (· ++ ·) "") := by
  induction texts with
  | nil => exact .empty
  | cons text rest ih =>
    obtain ⟨htext, hrest⟩ := List.forall_mem_cons.1 h
    obtain ⟨hend, hends⟩ := List.forall_mem_cons.1 hapart
    exact htext.append (ih hrest hends) (.inl hend)

/-- a helper is backed under any name that is, if the libraries it mentions are there -/
theorem Helper.backed_source {helper : Helper} (hs : helper.isSafe) (hb : helper.isBacked language keys)
    (hk : ∀ key ∈ keys, registry.contains key) {name : String} (hname : Backed language registry name) :
    Backed language registry (helper.source name) := by
  simp only [isSafe, isBacked, Bool.and_eq_true, List.all_eq_true, Language.covers_append] at hs hb
  obtain ⟨⟨hbefore, hafter⟩, hwords, hwords', hbody⟩ := hb
  have hfirst : Backed language registry (helper.before ++ name ++ helper.after) :=
    ((Backed.of_covers hs.1.1 hwords hk).append hname (.inl hbefore)).append (.of_covers hs.1.2 hwords' hk)
      (.inr hafter)
  have hline : Backed language registry "\n" := .of_marks rfl
  refine hline.joinWith rfl rfl (by decide) (List.forall_mem_cons.2 ⟨hfirst, fun line hm => ?_⟩)
  exact .of_covers (hs.2 line hm) (Language.covers_of_subset hbody fun word hw => List.mem_flatMap.2 ⟨line, hm, hw⟩) hk

end

theorem Step.isBacked_of_append {language : Language} {ends : List Bool} {keys : List String} {before rest : List Step}
    {step : Step} (h : Step.areBacked language ends keys (before ++ step :: rest)) :
    step.isBacked language ends (keys ++ before.flatMap Step.asks) := by
  induction before generalizing keys with
  | nil =>
    simp only [List.nil_append, areBacked, Bool.and_eq_true] at h
    rw [List.flatMap_nil, List.append_nil]
    exact h.1
  | cons first before ih =>
    simp only [List.cons_append, areBacked, Bool.and_eq_true] at h
    rw [List.flatMap_cons, ← List.append_assoc]
    exact ih h.2

theorem Language.step_isBacked {language : Language} {form : Form} {step : Step} {before rest : List Step}
    (hsteps : (language.template form).steps = before ++ step :: rest) :
    step.isBacked language (language.template form).ends (before.flatMap Step.asks) ∧ ∃ issued, step.isSafe issued := by
  have hmem : step ∈ (language.template form).steps := by
    rw [hsteps]
    exact List.mem_append_right _ List.mem_cons_self
  refine ⟨?_, (language.step_isNested hmem).2⟩
  by_cases hform : (∃ content, form = .text content) ∨ ∃ literal, form = .number literal
  · rcases hform with ⟨content, rfl⟩ | ⟨literal, rfl⟩ <;> cases language <;> exact absurd hmem List.not_mem_nil
  · have hbacked := language.template_isBacked form (fun content hc => hform (.inl ⟨content, hc⟩))
      fun literal hl => hform (.inr ⟨literal, hl⟩)
    simp only [Template.isBacked, Bool.and_eq_true] at hbacked
    exact Step.isBacked_of_append (hsteps ▸ hbacked.1)

end Blockwork
