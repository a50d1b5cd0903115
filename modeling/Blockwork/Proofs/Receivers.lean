/-
What a member access or an index applies to.

- `Template.receivers`: the texts that stand directly in front of a member access or an index in the code of a
  construct.
- `Primary`: a path, one whole literal, or a group in brackets. An access behind it applies to all of it
  (`Primary.bindsWhole`): no operator stands outside its brackets, and it does not start with a minus sign.
- `Primary.receiver`, `receiver_quote`: the guard makes balanced code primary, and leaves literals alone.
- `Language.dart_areFixed`: in Dart all that stands in front of an access went through the guard, or is a name
  that was issued for it.
- `receivers_bind_whole`: the main statement.
-/
import Blockwork.Proofs.Operands

namespace Blockwork

/-! ## Receivers in templates -/

namespace Piece

/-- whether a piece is fixed text that starts with a member access or an index -/
def isAccess : Piece → Bool
  | text code => code.toList.head?.any fun c => c == '.' || c == '['
  | _ => false

/-- the texts that stand directly in front of a member access or an index -/
def receivers (texts : List String) : List Piece → List String
  | [] => []
  | piece :: rest => (if rest.head?.any isAccess then [piece.render texts] else []) ++ receivers texts rest

end Piece

/-- the texts in front of a member access or an index, in the layout that applies to the texts -/
def Template.receivers (template : Template) (texts : List String) : List String :=
  Piece.receivers texts (template.shape.layout texts).pieces

/-! ## Code that an access applies to as a whole -/

/-- a name, a member path or a plain number: word characters and dots -/
def IsPath (code : String) : Prop :=
  code ≠ "" ∧ ∀ c ∈ code.toList, Text.isWordChar c ∨ c = '.'

/-- one whole literal: its quotes with characters and escapes between them -/
def IsQuoted (code : String) : Prop :=
  ∃ interior, Text.Interior interior ∧ code.toList = '\'' :: (interior ++ ['\''])

/-- a path, one literal, or a group in brackets -/
inductive Primary : String → Prop
  | path {code : String} : IsPath code → Primary code
  | quoted {code : String} : IsQuoted code → Primary code
  | group {code : String} : Balanced code → Primary (bracketed code)

/-- a text that an access behind it applies to as a whole: nothing in it binds less tightly than the access -/
structure BindsWhole (code : String) : Prop where
  primary : Primary code
  no_operator : ∀ c ∈ Text.outside code, Text.isWordChar c ∨ c = '.' ∨ c = '\''
  no_minus : code.toList.head? ≠ some '-'

theorem IsQuoted.isLiteral {code : String} (h : IsQuoted code) : Text.isLiteral code.toList := by
  obtain ⟨interior, hinterior, hcode⟩ := h
  rw [hcode]
  -- what is between the quotes does not matter, so it may as well be nothing
  exact (Text.Alike.literal interior [] hinterior .nil .nil).isLiteral_eq

theorem Text.Alike.exists_interior {s t : List Char} (h : Alike s t) (hs : isLiteral s) :
    ∃ interior, Interior interior ∧ s = '\'' :: (interior ++ ['\'']) := by
  cases h with
  | nil => cases hs
  | char c hc _ => simp [isLiteral, hc] at hs
  | @literal s t u v hu hv h =>
    -- with nothing between the quotes, what is behind the literal has to be nothing too
    rw [(Alike.literal u [] hu .nil h).isLiteral_eq] at hs
    cases t with
    | nil =>
      rw [h.nil_iff.2 rfl]
      exact ⟨u, hu, rfl⟩
    | cons c t => simp [isLiteral, closesAtEnd] at hs

theorem Text.isWordChar_of_isNameChar {c : Char} (h : Names.isNameChar c) : isWordChar c := by
  have hrange : ∀ lo hi, (lo, hi) ∈ wordRanges → lo ≤ c.toNat → c.toNat ≤ hi → isWordChar c :=
    fun lo hi hm hlo hhi => List.any_eq_true.2 ⟨(lo, hi), hm, by simp [hlo, hhi]⟩
  rcases Names.toNat_of_isNameChar h with rfl | ⟨hlo, hhi⟩ | ⟨hlo, hhi⟩ | ⟨hlo, hhi⟩
  · exact hrange 0x5F 0x5F (by decide +kernel) le_rfl le_rfl
  · exact hrange 0x41 0x5A (by decide +kernel) hlo hhi
  · exact hrange 0x61 0x7A (by decide +kernel) hlo hhi
  · exact hrange 0x30 0x39 (by decide +kernel) hlo hhi

namespace Primary

variable {code : String}

theorem identifier (h : Names.IsIdentifier code) : Primary code := by
  obtain ⟨c, cs, hname, hc, -, hcs⟩ := h
  refine .path ⟨?_, ?_⟩
  · rintro rfl
    cases hname
  · rw [hname]
    exact List.forall_mem_cons.2 ⟨.inl (Text.isWordChar_of_isNameChar hc), fun d hd =>
      .inl (Text.isWordChar_of_isNameChar (hcs d hd))⟩

/-- **The guard makes balanced code primary.** -/
theorem receiver (h : Balanced code) :
    Blockwork.receiver code = bracketed code ∨ Blockwork.receiver code = code ∧ (IsPath code ∨ IsQuoted code) := by
  unfold Blockwork.receiver
  split_ifs with hr
  · refine .inr ⟨rfl, ?_⟩
    rw [isReceiver, Bool.or_eq_true, Bool.and_eq_true, List.all_eq_true] at hr
    rcases hr with ⟨hne, hword⟩ | hliteral
    · refine .inl ⟨?_, fun c hc => by simpa using hword c hc⟩
      rintro rfl
      cases hne
    · exact .inr (Text.Alike.exists_interior h.alike hliteral)
  · exact .inl rfl

theorem of_receiver (h : Balanced code) : Primary (Blockwork.receiver code) := by
  rcases receiver h with hr | ⟨hr, hpath | hquoted⟩
  · rw [hr]
    exact .group h
  · rw [hr]
    exact .path hpath
  · rw [hr]
    exact .quoted hquoted

theorem bindsWhole (h : Primary code) : BindsWhole code := by
  refine ⟨h, ?_, ?_⟩
  · intro c hc
    cases h with
    | path h => exact (h.2 c (Text.mem_of_mem_blankFrom (Text.mem_of_mem_outsideFrom hc))).imp_right .inl
    | quoted h =>
      rw [Text.outside, Text.blankFrom_of_isLiteral h.isLiteral] at hc
      have hquotes : Text.outsideFrom 0 ['\'', '\''] = ['\'', '\''] := by decide
      rw [hquotes] at hc
      exact .inr (.inr (by simpa using hc))
    | group h =>
      rw [h.outside_bracketed] at hc
      cases hc
  · intro hminus
    cases h with
    | path h =>
      have hword := h.2 '-' (List.mem_of_mem_head? hminus)
      exact absurd hword (by decide +kernel)
    | quoted h =>
      obtain ⟨interior, -, hcode⟩ := h
      rw [hcode] at hminus
      cases hminus
    | group h => simp [bracketed] at hminus

end Primary

/-- **A literal of any text is left as it is.** -/
theorem receiver_quote (language : Language) (text : String) :
    receiver (language.quote text) = language.quote text := by
  have hquoted : IsQuoted (language.quote text) :=
    ⟨_, Text.interior_flatMap_escape language.interpolates text.toList, by simp [Language.quote, Text.quoteChars]⟩
  rw [receiver, isReceiver, hquoted.isLiteral, Bool.or_true, if_pos rfl]

/-! ## Templates that guard their receivers -/

namespace Piece

/-- whether a piece gives primary code: it goes through the guard, or takes one of the texts that are names -/
def isFixed (names : List Bool) : Piece → Bool
  | receiver _ => true
  | hole i => names.getD i false
  | _ => false

def areFixed (names : List Bool) : List Piece → Bool
  | [] => true
  | piece :: rest => (!rest.head?.any isAccess || piece.isFixed names) && areFixed names rest

/-- whether pieces hold no access -/
def noAccess (pieces : List Piece) : Bool :=
  pieces.all fun piece => !piece.isAccess

theorem noAccess_composes : Composes fun pieces => noAccess pieces :=
  composes_all _

theorem any_isAccess_head? {pieces : List Piece} (h : noAccess pieces) : pieces.head?.any isAccess = false := by
  cases pieces with
  | nil => rfl
  | cons piece rest =>
    rw [noAccess, List.all_cons, Bool.and_eq_true, Bool.not_eq_true'] at h
    exact h.1

theorem areFixed_of_noAccess {names : List Bool} {pieces : List Piece} (h : noAccess pieces) :
    areFixed names pieces := by
  induction pieces with
  | nil => rfl
  | cons piece rest ih =>
    rw [noAccess, List.all_cons, Bool.and_eq_true] at h
    rw [areFixed, any_isAccess_head? h.2, ih h.2]
    rfl

/-- nothing stands in front of the first piece, so that one may be an access -/
theorem areFixed_cons {names : List Bool} (piece : Piece) {rest : List Piece} (h : noAccess rest) :
    areFixed names (piece :: rest) := by
  rw [areFixed, any_isAccess_head? h, areFixed_of_noAccess h]
  rfl

end Piece

def Shape.areFixed (names : List Bool) : Shape → Bool
  | always layout => Piece.areFixed names layout.pieces
  | ordered _ _ rising falling unknown =>
    Piece.areFixed names rising.pieces && Piece.areFixed names falling.pieces && Piece.areFixed names unknown.pieces

def Step.names (steps : List Step) : List Bool :=
  (steps.filter leavesText).map isName

/-- **In Dart every access stands behind guarded code or a name.** -/
theorem Language.dart_areFixed (form : Form) :
    (dart.template form).shape.areFixed (Step.names (dart.template form).steps) := by
  cases form using Form.byData with
  | plain form hm =>
    have hplain : ∀ form ∈ Form.plain, (dart.template form).shape.areFixed (Step.names (dart.template form).steps) := by
      decide +kernel
    exact hplain form hm
  | list items =>
    have hlist : Piece.noAccess (Template.separated [", "] ((List.range (items + 3)).map fun i => [.hole i])) :=
      Piece.noAccess_composes.separated rfl fun _ _ => rfl
    have hrest : Piece.noAccess (List.flatten [Template.separated [", "] ((List.range (items + 3)).map fun i =>
        [.hole i]), ["].join('')"]]) := Piece.noAccess_composes.append hlist rfl
    exact Piece.areFixed_cons "[" hrest
  | choice elseifs otherwise =>
    have hconditions : Piece.noAccess ((List.range (elseifs + 1)).flatMap Target.Brace.conditionPieces) :=
      Piece.noAccess_composes.flatMap fun n _ => by cases n <;> rfl
    refine Piece.areFixed_of_noAccess (Piece.noAccess_composes.append hconditions ?_)
    cases otherwise <;> rfl
  | onList op => cases op <;> rfl
  | changeCase style => cases style <;> rfl
  | _ => rfl

theorem Shape.layout_areFixed {names : List Bool} {shape : Shape} (h : shape.areFixed names) (texts : List String) :
    Piece.areFixed names (shape.layout texts).pieces := by
  cases shape with
  | always layout => exact h
  | ordered first second rising falling unknown =>
    simp only [areFixed, Bool.and_eq_true] at h
    exact layout_ordered (P := fun layout => Piece.areFixed names layout.pieces) h.1.1 h.1.2 h.2 texts

/-! ## Receivers in runs -/

/-- a text that is balanced, and an identifier where a name is expected -/
structure Issued (name : Bool) (text : String) : Prop where
  balanced : Balanced text
  identifier : name → Names.IsIdentifier text

section

variable {names : List Bool} {texts : List String}

theorem Issued.textAt (h : List.Forall₂ Issued names texts) (i : Nat) :
    Issued (names.getD i false) (Piece.textAt texts i) :=
  Piece.rel_textAt ⟨.empty, fun hname => nomatch hname⟩ h i

theorem Piece.primary_render (h : List.Forall₂ Issued names texts) {piece : Piece} (hp : piece.isFixed names) :
    Primary (piece.render texts) := by
  have hat := Issued.textAt h
  cases piece with
  | receiver i => exact .of_receiver (hat i).balanced
  | hole i => exact .identifier ((hat i).identifier hp)
  | _ => cases hp

/-- every text in front of an access is primary if the pieces pass the check -/
theorem Piece.primary_receivers (h : List.Forall₂ Issued names texts) {pieces : List Piece}
    (hp : areFixed names pieces) : ∀ text ∈ receivers texts pieces, Primary text := by
  induction pieces with
  | nil => exact List.forall_mem_nil _
  | cons piece rest ih =>
    rw [areFixed, Bool.and_eq_true, Bool.or_eq_true, Bool.not_eq_true'] at hp
    rw [receivers]
    refine List.forall_mem_append.2 ⟨?_, ih hp.2⟩
    split_ifs with haccess
    · refine List.forall_mem_singleton.2 (primary_render h (hp.1.resolve_left ?_))
      rw [haccess]
      exact Bool.noConfusion
    · exact List.forall_mem_nil _

end

/-- **Receivers bind as a whole.** The literal of any text is left as it is. The code of any expression, in any state
that a run reaches, is put into brackets or is a path or one literal. And in every program, whatever its blocks,
a member access or an index stands behind such code only: no operator outside brackets in front of it, and no
minus sign at the start. -/
theorem receivers_bind_whole :
    (∀ text, receiver (Language.dart.quote text) = Language.dart.quote text) ∧
    (∀ (pass after : Pass) (block : Block) (code : String), pass.Reachable .dart → block.IsValue →
      pass.perform (block.code (.standard .dart) true) = (.ok code, after) →
        (receiver code = bracketed code ∨ receiver code = code ∧ (IsPath code ∨ IsQuoted code)) ∧
          BindsWhole (receiver code)) ∧
    ∀ blocks form bare texts code, .code form bare texts code ∈ programChronicle .dart blocks →
      ∀ text ∈ (Language.dart.template form).receivers texts, BindsWhole text := by
  refine ⟨receiver_quote .dart, fun pass after block code hp hv hr => ?_, ?_⟩
  · have hoperand := (Block.makes_code .dart hv true pass hp.wellNamed.1).2 code (by rw [hr])
    exact ⟨Primary.receiver hoperand.balanced, (Primary.of_receiver hoperand.balanced).bindsWhole⟩
  · intro blocks form bare texts code hm text htext
    obtain ⟨record, horderly, hall⟩ := programRun_keeps AllBalanced .dart blocks
      ⟨List.forall_mem_nil _, List.forall_mem_nil _⟩ fun horderly hh h => h.happens horderly hh
    have hissued : List.Forall₂ Issued (Step.names (Language.dart.template form).steps) texts := by
      rw [Step.names, List.forall₂_map_left_iff]
      exact (programChronicle_laid hm).2.imp fun step text hleft =>
        ⟨hall.texts _ hleft, fun hname => (horderly.identifier hleft hname).1⟩
    have hfixed := Shape.layout_areFixed (Language.dart_areFixed form) texts
    exact (Piece.primary_receivers hissued hfixed text htext).bindsWhole

/-- an index behind a sum, and a member of a temporary -/
example : (Language.dart.template .charAt).receivers ["1", "a + b"] = ["(a + b)"] ∧
    (Language.dart.template (.endString .last)).receivers ["2", "a + b", "temp_text"] = ["temp_text", "temp_text"] := by
  decide +kernel

def addedTexts : Block :=
  .mk { Head.bare Kind.arithmetic.name with labels := [(1, "ADD")] } [(0, .text "it's"), (1, .text "$")] [] none

theorem addedTexts_bindWhole :
    (Pass.start .dart).Reachable .dart ∧ addedTexts.IsValue ∧
      (Pass.start .dart).perform (addedTexts.code (.standard .dart) true) =
        (.ok "'it\\'s' + '\\$'", .start .dart) ∧
      receiver "'it\\'s' + '\\$'" = "('it\\'s' + '\\$')" ∧ BindsWhole "('it\\'s' + '\\$')" := by
  have htext : ∀ literal, (Block.text literal).IsValue := fun literal => .of_values .text rfl rfl (by simp)
  have hvalue : addedTexts.IsValue :=
    .of_values .arithmetic rfl rfl (by simpa using ⟨htext "it's", htext "$"⟩)
  have hcode : (Pass.start .dart).perform (addedTexts.code (.standard .dart) true) =
      (.ok "'it\\'s' + '\\$'", .start .dart) := by rfl
  have hguard : receiver "'it\\'s' + '\\$'" = "('it\\'s' + '\\$')" := by decide +kernel
  have hbinds := (receivers_bind_whole.2.1 _ _ _ _ .start hvalue hcode).2
  rw [hguard] at hbinds
  exact ⟨.start, hvalue, hcode, hguard, hbinds⟩

end Blockwork
