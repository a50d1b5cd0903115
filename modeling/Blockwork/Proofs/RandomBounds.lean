/-
Random whole numbers between literal bounds. A generator that finds numerals in both places puts them in order
itself; it goes by the texts, which it reads as numbers again.

- `IsBound`: what a place may hold, and the number it stands for: nothing, or a block with a finite number.
- `Language.randomFormula`: the code without a comparison, for the lower and the higher bound.
- `IsBound.numericLiteral?_eq`: the text of a bound is read as a number of the same value.
- `random_bounds_in_order`: so the code is the formula with the smaller number first, whichever place it came from.
-/
import Blockwork.Proofs.LiteralValues

namespace Blockwork

/-! ## Values -/

namespace Binary64

theorem le_iff {x y : Binary64} {a b : ℤ} (hx : x.value? = some a) (hy : y.value? = some b) : x.le y ↔ a ≤ b := by
  cases x with
  | nan => cases hx
  | infinite negative => cases hx
  | finite s m p =>
    cases y with
    | nan => cases hy
    | infinite negative => cases hy
    | finite t n q => simp only [le, hx, hy, decide_eq_true_eq]

/-- **Numbers of one value have one literal**: zero is written without a sign, and any other value has one sign,
significand and scale. -/
theorem numberLiteral_eq_of_value (language : Language) {s t : Bool} {m p n q : Nat} (hx : IsNormal m p)
    (hy : IsNormal n q) (h : (finite s m p).value? = (finite t n q).value?) :
    language.numberLiteral (.finite s m p) = language.numberLiteral (.finite t n q) := by
  have hvalue := Option.some.inj h
  have hunits : units m p = units n q := by split_ifs at hvalue <;> omega
  obtain ⟨rfl, rfl⟩ := hx.units_inj hy hunits
  rcases Nat.eq_zero_or_pos m with rfl | hm
  · rw [language.numberLiteral_zero, language.numberLiteral_zero]
  · have hpos : 0 < units m p := Nat.mul_pos hm (Decimal.twoTo_pos p)
    have hsign : s = t := by cases s <;> cases t <;> simp at hvalue ⊢ <;> omega
    rw [hsign]

end Binary64

theorem IsNumeral.isDigit_or_point {cs : List Char} (h : IsNumeral cs) : ∀ c ∈ cs, c.isDigit ∨ c = '.' := by
  intro c hc
  cases h with
  | whole _ hd => exact .inl (hd c hc)
  | fraction _ hd _ he =>
    rcases List.mem_append.1 hc with hc | hc
    · exact .inl (hd c hc)
    · exact (List.mem_cons.1 hc).symm.imp_left (he c)

/-! ## Bounds -/

/-- what a value slot holds, and the finite number that it stands for: nothing stands for zero -/
inductive IsBound : Option Block → Binary64 → Prop
  | absent : IsBound none (.zero false)
  | number {block : Block} {literal : String} {negative : Bool} {m p : Nat} :
      block.head.form = .ok (.number literal) → Binary64.parsePrefix literal = .finite negative m p →
      IsBound (some block) (.finite negative m p)

namespace IsBound

variable {plugged : Option Block} {x : Binary64}

theorem exists_finite (h : IsBound plugged x) :
    ∃ negative m p, x = .finite negative m p ∧ Binary64.IsNormal m p ∧ p ≤ 2045 := by
  cases h with
  | absent => exact ⟨false, 0, 0, rfl, Binary64.isProper_zero false _ _ _ rfl⟩
  | @number _ literal negative m p _ hparse =>
    exact ⟨negative, m, p, rfl, Binary64.isProper_parsePrefix literal _ _ _ hparse⟩

/-- **The text of a bound is read as a number of its value.** -/
theorem numericLiteral?_eq (h : IsBound plugged x) (language : Language) :
    ∃ read, numericLiteral? (language.numberLiteral x) = some read ∧ read.value? = x.value? := by
  obtain ⟨negative, m, p, rfl, hnormal, hp⟩ := h.exists_finite
  rcases Nat.eq_zero_or_pos m with rfl | hm
  · refine ⟨_, language.numericLiteral?_zero negative p, ?_⟩
    simp [Binary64.zero, Binary64.value?, Binary64.units]
  · exact ⟨_, language.numericLiteral?_numberLiteral negative hnormal hp hm.ne', rfl⟩

theorem literal_ne_empty (h : IsBound plugged x) (language : Language) : language.numberLiteral x ≠ "" := by
  intro hempty
  obtain ⟨read, hread, -⟩ := h.numericLiteral?_eq language
  rw [hempty] at hread
  cases hread

theorem exists_value (h : IsBound plugged x) : ∃ a, x.value? = some a := by
  obtain ⟨negative, m, p, rfl, -⟩ := h.exists_finite
  exact ⟨_, rfl⟩

theorem literal_chars (h : IsBound plugged x) (language : Language) :
    ∀ c ∈ (language.numberLiteral x).toList, c.isDigit ∨ c = '.' ∨ c = '-' := by
  obtain ⟨negative, m, p, rfl, -⟩ := h.exists_finite
  rcases Nat.eq_zero_or_pos m with rfl | hm
  · rw [language.numberLiteral_zero]
    exact List.forall_mem_singleton.2 (.inl (by decide))
  · rw [language.numberLiteral_finite negative hm.ne']
    refine List.forall_mem_append.2 ⟨?_, fun c hc => ?_⟩
    · cases negative <;> simp
    · exact ((language.isNumeral_magnitude m p).isDigit_or_point c hc).imp_right .inl

end IsBound

/-- a slot with a bound gives the literal of its number, whatever the place asks for, and leaves the state as it is -/
theorem Site.perform_bound {block : Block} {slot : Nat} {x : Binary64} (h : IsBound (Slots.get? slot block.values) x)
    (language : Language) (bare : Bool) (pass : Pass) :
    pass.perform ((block.site (.standard language)).value slot bare "0") = (.ok (language.numberLiteral x), pass) := by
  have hslot : Slots.get? slot (block.site (.standard language)).values =
      (Slots.get? slot block.values).map (Block.emission (.standard language)) := Block.get?_emissions _ _ _
  generalize Slots.get? slot block.values = plugged at h hslot
  cases h with
  | absent =>
    rw [Binary64.zero, language.numberLiteral_zero]
    exact Site.perform_value_none hslot bare "0"
  | number hform hparse =>
    have hcode := pass.perform_of_number language hform bare
    rw [hparse] at hcode
    exact Site.perform_value_some hslot hcode ((IsBound.number hform hparse).literal_ne_empty language) "0"

/-! ## Code -/

def Language.between : Language → Piece → Piece → List Piece
  | .javascript => Target.JavaScript.between
  | .dart => Target.Dart.between
  | .python => Target.Python.between

/-- the code of a random whole number between two bounds, given the lower one first -/
def Language.randomFormula (language : Language) (low high : String) : String :=
  match language with
  | .javascript => "Math.floor(Math.random() * (" ++ high ++ " - " ++ low ++ " + 1) + " ++ low ++ ")"
  | .dart => "(Math.Random().nextDouble() * (" ++ high ++ " - " ++ low ++ " + 1) + " ++ low ++ ").floor()"
  | .python => "math.floor(random.random() * (" ++ high ++ " - " ++ low ++ " + 1) + " ++ low ++ ")"

theorem Language.renderAll_between (language : Language) (texts : List String) (low high : Nat) :
    Piece.renderAll texts (language.between (.hole low) (.hole high)) =
      language.randomFormula (Piece.textAt texts low) (Piece.textAt texts high) := by
  have happend : ∀ a b c d e f g : String,
      a ++ (b ++ (c ++ (d ++ (e ++ (f ++ (g ++ "")))))) = a ++ b ++ c ++ d ++ e ++ f ++ g := fun a b c d e f g => by
    simp only [String.append_assoc, String.append_empty]
  cases language <;> exact happend _ _ _ _ _ _ _

/-- where both texts are read as numbers, the code is the formula, in the order of these numbers -/
theorem Language.render_randomInteger (language : Language) {first second : String} {x y : Binary64}
    (hx : numericLiteral? first = some x) (hy : numericLiteral? second = some y) (bare : Bool) :
    (language.template .randomInteger).render [first, second] bare =
      if x.le y then language.randomFormula first second else language.randomFormula second first := by
  have hlayout : (language.template .randomInteger).shape.layout [first, second] =
      if x.le y then .tight (language.between (.hole 0) (.hole 1))
      else .tight (language.between (.hole 1) (.hole 0)) := by
    cases language <;>
      · simp only [template, Target.JavaScript.template, Target.JavaScript.randomInteger, Target.Dart.template,
          Target.Dart.randomInteger, Target.Python.template, Target.Python.randomInteger, Shape.layout, Piece.textAt,
          List.getD_cons_zero, List.getD_cons_succ, hx, hy, between]
        rfl
  rw [Template.render, hlayout]
  split_ifs
  · exact language.renderAll_between [first, second] 0 1
  · exact language.renderAll_between [first, second] 1 0

/-- the code of two places that give their texts in any state and leave it as it is -/
theorem Template.perform_randomInteger (language : Language) (pass : Pass) :
    ∃ after, ∀ (site : Site) (first second : String),
      (∀ (bare : Bool) (pass : Pass), pass.perform (site.value 0 bare "0") = (.ok first, pass)) →
      (∀ (bare : Bool) (pass : Pass), pass.perform (site.value 1 bare "0") = (.ok second, pass)) →
      ∀ bare, pass.perform ((language.template .randomInteger).run site bare) =
        (.ok ((language.template .randomInteger).render [first, second] bare), after) := by
  cases language with
  | javascript =>
    refine ⟨pass, fun site first second h0 h1 bare => ?_⟩
    simp only [Template.run, Language.template, Target.JavaScript.template, Target.JavaScript.randomInteger,
      Template.number, Step.runAll, Step.run, Pass.perform_bind, h0, h1, Pass.perform_pure]
    rfl
  | dart =>
    refine ⟨(pass.perform (Gen.require Target.Dart.math.key Target.Dart.math.source)).2,
      fun site first second h0 h1 bare => ?_⟩
    simp only [Template.run, Language.template, Target.Dart.template, Target.Dart.randomInteger,
      Template.number, Step.runAll, Step.run, Pass.perform_bind, Gen.require, Pass.perform_define, h0, h1,
      Pass.perform_pure]
    rfl
  | python =>
    refine ⟨((pass.perform (Gen.require Target.Python.math.key Target.Python.math.source)).2.perform
      (Gen.require Target.Python.random.key Target.Python.random.source)).2, fun site first second h0 h1 bare => ?_⟩
    simp only [Template.run, Language.template, Target.Python.template, Target.Python.randomInteger,
      Template.number, Step.runAll, Step.run, Pass.perform_bind, Gen.require, Pass.perform_define, h0, h1,
      Pass.perform_pure]
    rfl

/-- the code of a block whose places hold bounds, and one state that it leaves whatever the bounds are -/
theorem Block.perform_randomInteger (language : Language) (pass : Pass) :
    ∃ after, ∀ (block : Block) (x y : Binary64), block.head.form = .ok .randomInteger →
      IsBound (Slots.get? 0 block.values) x → IsBound (Slots.get? 1 block.values) y →
      ∀ bare, pass.perform (block.code (.standard language) bare) =
        (.ok (if x.le y then language.randomFormula (language.numberLiteral x) (language.numberLiteral y)
          else language.randomFormula (language.numberLiteral y) (language.numberLiteral x)), after) := by
  obtain ⟨after, hrun⟩ := Template.perform_randomInteger language pass
  refine ⟨after, fun block x y hform hx hy bare => ?_⟩
  obtain ⟨x', hreadx, hvaluex⟩ := hx.numericLiteral?_eq language
  obtain ⟨y', hready, hvaluey⟩ := hy.numericLiteral?_eq language
  obtain ⟨a, ha⟩ := hx.exists_value
  obtain ⟨b, hb⟩ := hy.exists_value
  have horder : x'.le y' = x.le y :=
    Bool.eq_iff_iff.2 ((Binary64.le_iff (hvaluex.trans ha) (hvaluey.trans hb)).trans (Binary64.le_iff ha hb).symm)
  have hcode := hrun (block.site (.standard language)) _ _ (fun bare pass => Site.perform_bound hx language bare pass)
    (fun bare pass => Site.perform_bound hy language bare pass) bare
  rw [language.render_randomInteger hreadx hready, horder] at hcode
  obtain ⟨head, values, statements, next⟩ := block
  have hform : head.form = .ok .randomInteger := hform
  rw [Block.perform_code, hform]
  exact hcode

theorem Language.not_mem_randomFormula (language : Language) {low high : String} {mark : Char}
    (hmark : mark ∈ ['<', '>', '=', '?']) (hlow : mark ∉ low.toList) (hhigh : mark ∉ high.toList) :
    mark ∉ (language.randomFormula low high).toList := by
  have hfixed : ∀ text ∈ ["Math.floor(Math.random() * (", "(Math.Random().nextDouble() * (",
      "math.floor(random.random() * (", " - ", " + 1) + ", ")", ").floor()"], mark ∉ text.toList := by
    simp only [List.mem_cons, List.not_mem_nil, or_false] at hmark
    rcases hmark with rfl | rfl | rfl | rfl <;> decide
  simp only [List.forall_mem_cons] at hfixed
  obtain ⟨hjs, hdart, hpython, hminus, hplus, hclose, hfloor, -⟩ := hfixed
  have happend : ∀ {a b : String}, mark ∉ a.toList → mark ∉ b.toList → mark ∉ (a ++ b).toList := by
    intro a b ha hb
    rw [String.toList_append, List.mem_append]
    exact not_or.2 ⟨ha, hb⟩
  have hinside : ∀ {start : String}, mark ∉ start.toList →
      mark ∉ (start ++ high ++ " - " ++ low ++ " + 1) + " ++ low).toList := fun hstart =>
    happend (happend (happend (happend (happend hstart hhigh) hminus) hlow) hplus) hlow
  cases language with
  | javascript => exact happend (hinside hjs) hclose
  | dart => exact happend (hinside hdart) hfloor
  | python => exact happend (hinside hpython) hclose

/-- **Random whole numbers between literal bounds.** Let each place of a block for a random whole number hold
nothing or a block with a finite number. Then in every target and state, and whether its place asks for brackets or
not, the block gives the same code: the formula with the literal of the smaller number as the lower bound and that of
the other as the higher. There is no comparison in it. A block with the two places exchanged gives the same code, and
leaves the same state. -/
theorem random_bounds_in_order (language : Language) (pass : Pass) {block : Block} {x y : Binary64}
    (hform : block.head.form = .ok .randomInteger) (hx : IsBound (Slots.get? 0 block.values) x)
    (hy : IsBound (Slots.get? 1 block.values) y) :
    ∃ low high code after, (low = x ∧ high = y ∨ low = y ∧ high = x) ∧ low.le high ∧
      code = language.randomFormula (language.numberLiteral low) (language.numberLiteral high) ∧
      (∀ mark ∈ ['<', '>', '=', '?'], mark ∉ code.toList) ∧
      (∀ bare, pass.perform (block.code (.standard language) bare) = (.ok code, after)) ∧
      ∀ other : Block, other.head.form = .ok .randomInteger →
        Slots.get? 0 other.values = Slots.get? 1 block.values →
        Slots.get? 1 other.values = Slots.get? 0 block.values →
        ∀ bare, pass.perform (other.code (.standard language) bare) = (.ok code, after) := by
  obtain ⟨after, hcode⟩ := Block.perform_randomInteger language pass
  obtain ⟨a, ha⟩ := hx.exists_value
  obtain ⟨b, hb⟩ := hy.exists_value
  have hclear : ∀ {plugged : Option Block} {z : Binary64}, IsBound plugged z → ∀ mark ∈ ['<', '>', '=', '?'],
      mark ∉ (language.numberLiteral z).toList := by
    intro plugged z hz mark hmark hmem
    simp only [List.mem_cons, List.not_mem_nil, or_false] at hmark
    have hc := hz.literal_chars language mark hmem
    rcases hmark with rfl | rfl | rfl | rfl <;> exact absurd hc (by decide)
  -- numbers that are equal have one literal, so it does not matter which of them comes first
  have hequal : x.le y → y.le x → language.numberLiteral x = language.numberLiteral y := by
    intro hle hge
    have hsame : a = b := le_antisymm ((Binary64.le_iff ha hb).1 hle) ((Binary64.le_iff hb ha).1 hge)
    obtain ⟨s, m, p, rfl, hnormal, -⟩ := hx.exists_finite
    obtain ⟨t, n, q, rfl, hnormal', -⟩ := hy.exists_finite
    exact Binary64.numberLiteral_eq_of_value language hnormal hnormal' (by rw [ha, hb, hsame])
  have hswap : ∀ other : Block, other.head.form = .ok .randomInteger →
      Slots.get? 0 other.values = Slots.get? 1 block.values → Slots.get? 1 other.values = Slots.get? 0 block.values →
      ∀ bare, pass.perform (other.code (.standard language) bare) =
        (.ok (if y.le x then language.randomFormula (language.numberLiteral y) (language.numberLiteral x)
          else language.randomFormula (language.numberLiteral x) (language.numberLiteral y)), after) :=
    fun other hform' h0 h1 => hcode other y x hform' (h0 ▸ hy) (h1 ▸ hx)
  have hrun := hcode block x y hform hx hy
  by_cases hle : x.le y
  · refine ⟨x, y, _, after, .inl ⟨rfl, rfl⟩, hle, rfl, ?_, ?_, ?_⟩
    · exact fun mark hmark => language.not_mem_randomFormula hmark (hclear hx mark hmark) (hclear hy mark hmark)
    · simpa only [if_pos hle] using hrun
    · intro other hform' h0 h1 bare
      rw [hswap other hform' h0 h1 bare]
      split_ifs with hge
      · rw [hequal hle hge]
      · rfl
  · have hge : y.le x := by
      rw [Binary64.le_iff ha hb] at hle
      exact (Binary64.le_iff hb ha).2 (by omega)
    refine ⟨y, x, _, after, .inr ⟨rfl, rfl⟩, hge, rfl, ?_, ?_, ?_⟩
    · exact fun mark hmark => language.not_mem_randomFormula hmark (hclear hy mark hmark) (hclear hx mark hmark)
    · simpa only [if_neg hle] using hrun
    · intro other hform' h0 h1 bare
      rw [hswap other hform' h0 h1 bare, if_pos hge]

def randomBelowZero : Block :=
  .mk (Head.bare Kind.randomInteger.name) [(1, .number "-2")] [] none

theorem randomBelowZero_in_order :
    randomBelowZero.head.form = .ok .randomInteger ∧ IsBound (Slots.get? 0 randomBelowZero.values) (.zero false) ∧
      IsBound (Slots.get? 1 randomBelowZero.values) (.finite true (2 ^ 52) 1023) ∧
      ∃ after, ∀ bare, (Pass.start .javascript).perform (randomBelowZero.code (.standard .javascript) bare) =
        (.ok "Math.floor(Math.random() * (0 - -2 + 1) + -2)", after) := by
  have hform : randomBelowZero.head.form = .ok .randomInteger := rfl
  have hfirst : IsBound (Slots.get? 0 randomBelowZero.values) (.zero false) := .absent
  have hsecond : IsBound (Slots.get? 1 randomBelowZero.values) (.finite true (2 ^ 52) 1023) :=
    .number rfl (by decide +kernel)
  obtain ⟨low, high, code, after, hbounds, hle, rfl, -, hrun, -⟩ :=
    random_bounds_in_order .javascript (.start .javascript) hform hfirst hsecond
  obtain ⟨rfl, rfl⟩ := hbounds.resolve_left fun h => by
    obtain ⟨rfl, rfl⟩ := h
    revert hle
    decide +kernel
  have hcode : Language.randomFormula .javascript (Language.numberLiteral .javascript (.finite true (2 ^ 52) 1023))
      (Language.numberLiteral .javascript (.zero false)) = "Math.floor(Math.random() * (0 - -2 + 1) + -2)" := by
    decide +kernel
  exact ⟨hform, hfirst, hsecond, after, fun bare => by rw [hrun bare, hcode]⟩

end Blockwork
