/-
Constructs by what tells them apart. Most have options alone, and there are few of those: what is claimed of their
templates is checked on each. The others carry a text, a name or a count. A choice and a long join repeat a part of their
template as often as they count, so what is claimed of these is claimed of the part and put together.

- `Form.plain`, `Form.byData`: the constructs with options alone, and the case split that has one case for all of them.
- `Piece.Composes`: a property that pieces put in a row have if each part has it.
- `Template.choiceSteps_forall`: what a choice does, by conditions and branches.
-/
import Blockwork.Target.Table

namespace Blockwork

/-! ## Constructs -/

namespace Form

/-- the constructs with options alone, less the summaries of lists and the changes of letters: some of these call helpers,
and the sources of helpers are checked on their own -/
def plain : List Form :=
  [.arithmetic .add, .arithmetic .minus, .arithmetic .multiply, .arithmetic .divide, .arithmetic .power,
   .single .abs, .single .root, .single .ln, .single .log10, .single .exp, .single .pow10, .single .round,
   .single .roundUp, .single .roundDown, .single .sin, .single .cos, .single .tan, .single .neg, .single .asin,
   .single .acos, .single .atan, .modulo, .randomFraction, .randomInteger, .join 0, .join 1, .join 2, .length,
   .isEmpty, .endString .first, .endString .last, .indexOf .first, .indexOf .last, .charAt, .trim .left, .trim .right,
   .trim .both, .print, .loop .whileTrue, .loop .untilTrue, .jump .leave, .jump .skip]

/-- the case split over constructs -/
@[elab_as_elim]
theorem byData {motive : Form → Prop} (plain : ∀ form ∈ plain, motive form)
    (number : ∀ literal, motive (.number literal)) (text : ∀ content, motive (.text content))
    (onList : ∀ op, motive (.onList op)) (changeCase : ∀ style, motive (.changeCase style))
    (list : ∀ items, motive (.join (items + 3))) (choice : ∀ elseifs otherwise, motive (.choice elseifs otherwise))
    (change : ∀ name, motive (.change name)) (count : ∀ name, motive (.count name))
    (forEach : ∀ name, motive (.forEach name)) (procedure : ∀ name, motive (.procedure name))
    (get : ∀ name, motive (.get name)) (set : ∀ name, motive (.set name)) (form : Form) : motive form := by
  cases form with
  | number literal => exact number literal
  | text content => exact text content
  | onList op => exact onList op
  | changeCase style => exact changeCase style
  | join items =>
    match items with
    | 0 => exact plain _ (by simp [Form.plain])
    | 1 => exact plain _ (by simp [Form.plain])
    | 2 => exact plain _ (by simp [Form.plain])
    | items + 3 => exact list items
  | choice elseifs otherwise => exact choice elseifs otherwise
  | change name => exact change name
  | count name => exact count name
  | forEach name => exact forEach name
  | procedure name => exact procedure name
  | get name => exact get name
  | set name => exact set name
  | arithmetic op => exact plain _ (by cases op <;> simp [Form.plain])
  | single op => exact plain _ (by cases op <;> simp [Form.plain])
  | endString part => exact plain _ (by cases part <;> simp [Form.plain])
  | indexOf part => exact plain _ (by cases part <;> simp [Form.plain])
  | trim side => exact plain _ (by cases side <;> simp [Form.plain])
  | loop mode => exact plain _ (by cases mode <;> simp [Form.plain])
  | jump way => exact plain _ (by cases way <;> simp [Form.plain])
  | _ => exact plain _ (by simp [Form.plain])

end Form

/-! ## Repeated parts -/

namespace Piece

/-- a property that pieces put in a row have if each part has it -/
structure Composes (P : List Piece → Prop) : Prop where
  nil : P []
  append : ∀ {before after : List Piece}, P before → P after → P (before ++ after)

theorem composes_all (check : Piece → Bool) : Composes fun pieces => pieces.all check :=
  ⟨rfl, fun hb ha => by rw [List.all_append, hb, ha]; rfl⟩

namespace Composes

variable {P : List Piece → Prop} {place : Nat → List Piece}

theorem flatMap (h : Composes P) {items : List Nat} (hp : ∀ i ∈ items, P (place i)) : P (items.flatMap place) := by
  induction items with
  | nil => exact h.nil
  | cons item items ih =>
    obtain ⟨hitem, hitems⟩ := List.forall_mem_cons.1 hp
    rw [List.flatMap_cons]
    exact h.append hitem (ih hitems)

theorem separated (h : Composes P) {separator : List Piece} (hs : P separator) {items : List Nat}
    (hp : ∀ i ∈ items, P (place i)) : P (Template.separated separator (items.map place)) := by
  induction items with
  | nil => exact h.nil
  | cons item items ih =>
    obtain ⟨hitem, hitems⟩ := List.forall_mem_cons.1 hp
    cases items with
    | nil => exact hitem
    | cons next items => exact h.append (h.append hitem hs) (ih hitems)

end Composes

end Piece

section

variable {α : Type} (first second : Nat → α)

theorem length_pairs (count : Nat) : ((List.range count).flatMap fun n => [first n, second n]).length = 2 * count := by
  induction count with
  | zero => rfl
  | succ count ih =>
    rw [List.range_succ, List.flatMap_append, List.length_append, ih]
    rfl

/-- pairs in a row are found by twice their number -/
theorem getElem?_pairs (count : Nat) (rest : List α) :
    (∀ n < count, (((List.range count).flatMap fun i => [first i, second i]) ++ rest)[2 * n]? = some (first n) ∧
      (((List.range count).flatMap fun i => [first i, second i]) ++ rest)[2 * n + 1]? = some (second n)) ∧
    (((List.range count).flatMap fun i => [first i, second i]) ++ rest)[2 * count]? = rest[0]? := by
  induction count generalizing rest with
  | zero => exact ⟨fun n hn => absurd hn (Nat.not_lt_zero n), rfl⟩
  | succ count ih =>
    have hlength := length_pairs first second count
    rw [List.range_succ, List.flatMap_append, List.append_assoc]
    obtain ⟨hbefore, -⟩ := ih ([count].flatMap (fun i => [first i, second i]) ++ rest)
    refine ⟨fun n hn => ?_, ?_⟩
    · rcases Nat.lt_succ_iff_lt_or_eq.1 hn with hlt | rfl
      · exact hbefore n hlt
      · constructor
        · rw [List.getElem?_append_right (by omega), hlength]
          simp
        · rw [List.getElem?_append_right (by omega), hlength]
          simp
    · rw [List.getElem?_append_right (by omega), hlength]
      simp [Nat.mul_succ]

end

namespace Template

/-- a choice takes each condition with its branch, and the last branch behind them -/
theorem getElem?_choiceSteps (falsity : String) (elseifs : Nat) (otherwise : Bool) :
    (∀ n ≤ elseifs, (choiceSteps falsity elseifs otherwise)[2 * n]? = some (.value n true falsity) ∧
      (choiceSteps falsity elseifs otherwise)[2 * n + 1]? = some (.branch n)) ∧
    (otherwise = true → (choiceSteps falsity elseifs otherwise)[2 * (elseifs + 1)]? = some (.branch (elseifs + 1))) := by
  obtain ⟨hpairs, hlast⟩ := getElem?_pairs (fun n => Step.value n true falsity) Step.branch (elseifs + 1)
    (if otherwise then [.branch (elseifs + 1)] else [])
  refine ⟨fun n hn => hpairs n (Nat.lt_succ_of_le hn), ?_⟩
  rintro rfl
  exact hlast

theorem length_choiceSteps (falsity : String) (elseifs : Nat) (otherwise : Bool) :
    (choiceSteps falsity elseifs otherwise).length = 2 * (elseifs + 1) + if otherwise then 1 else 0 := by
  rw [choiceSteps, List.length_append, length_pairs]
  cases otherwise <;> rfl

/-- what holds of every condition and every branch holds of all steps of a choice -/
theorem choiceSteps_forall {check : Step → Prop} {falsity : String}
    (hvalue : ∀ slot, check (.value slot true falsity)) (hbranch : ∀ slot, check (.branch slot)) (elseifs : Nat)
    (otherwise : Bool) : ∀ step ∈ choiceSteps falsity elseifs otherwise, check step := by
  intro step hm
  rcases List.mem_append.1 hm with hm | hm
  · obtain ⟨n, -, hn⟩ := List.mem_flatMap.1 hm
    rcases List.mem_cons.1 hn with rfl | hn
    · exact hvalue _
    · rw [List.mem_singleton.1 hn]
      exact hbranch _
  · cases otherwise with
    | false => exact absurd hm List.not_mem_nil
    | true =>
      rw [List.mem_singleton.1 hm]
      exact hbranch _

/-- what holds of every operand of a long join holds of all its steps -/
theorem strings_forall {check : Step → Prop} (h : ∀ slot, check (string slot true)) (items : Nat) :
    ∀ step ∈ (List.range items).map fun slot => string slot true, check step := by
  intro step hm
  obtain ⟨slot, -, rfl⟩ := List.mem_map.1 hm
  exact h slot

end Template

namespace Language

/-- the steps of a choice are the same in all targets, but for what is written where a condition is absent -/
theorem choice_steps (language : Language) (elseifs : Nat) (otherwise : Bool) :
    (language.template (.choice elseifs otherwise)).steps =
      Template.choiceSteps language.falseLiteral elseifs otherwise := by
  cases language <;> rfl

/-- the steps of a long join are the same in all targets -/
theorem list_steps (language : Language) (items : Nat) :
    (language.template (.join (items + 3))).steps =
      (List.range (items + 3)).map fun slot => Template.string slot true := by
  cases language <;> rfl

/-- a check that operands and branches pass is passed by all steps of a construct that counts them -/
theorem choice_steps_all {language : Language} {check : Step → Bool}
    (hvalue : ∀ slot, check (.value slot true language.falseLiteral)) (hbranch : ∀ slot, check (.branch slot))
    (elseifs : Nat) (otherwise : Bool) : (language.template (.choice elseifs otherwise)).steps.all check := by
  rw [choice_steps, List.all_eq_true]
  exact Template.choiceSteps_forall hvalue hbranch elseifs otherwise

theorem list_steps_all {language : Language} {check : Step → Bool} (h : ∀ slot, check (Template.string slot true))
    (items : Nat) : (language.template (.join (items + 3))).steps.all check := by
  rw [list_steps, List.all_eq_true]
  exact Template.strings_forall h (items + 3)

end Language

end Blockwork
