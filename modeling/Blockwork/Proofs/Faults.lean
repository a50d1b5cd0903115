/-
Which documents load, and which fault is reported of one that does not.

- `IsBlock`: the elements that are valid blocks, as a rule on the tree: a type, numbers where numbers are
  read, and valid blocks wherever one is plugged in, also where a later element takes the slot over.
- `Fault`, `RootFault`: one breach of that rule, with its place. A place is the row of child positions that
  leads to it, and `Before` is the order of places in the document.
- `Reports`: an outcome that agrees with the faults there are: success where there is none, and else the
  first one (`First`).
- `block_reports`, `ofRoot_reports`: loading an element, and a document, reports its faults.
- `isBlock_iff`: an element is a valid block exactly when it has no fault.
-/
import Blockwork.Proofs.Layout

namespace Blockwork.Workspace

open Markup

/-! ## Valid blocks -/

/-- a whole number below 2^64: white space at the ends aside, one or more ASCII digits, with an optional
plus sign in front -/
def IsNumber (raw : String) : Prop :=
  ∃ digits : List Char, (Text.trim raw.toList = digits ∨ Text.trim raw.toList = '+' :: digits) ∧
    digits ≠ [] ∧ (∀ c ∈ digits, c.isDigit) ∧ Text.readDigits digits < 2 ^ 64

/-- an attribute that is given and is not a number -/
def Misnumbered (name : String) (attributes : List (String × String)) (raw : String) : Prop :=
  attributes.lookup name = some raw ∧ ¬ IsNumber raw

/-- the first node of a name among nodes, with its position -/
structure FirstNamed (name : String) (nodes : List Node) (position : Nat) (node : Node) : Prop where
  found : nodes[position]? = some node
  named : isNamed name node
  first : ∀ earlier < position, ∀ other ∈ nodes[earlier]?, isNamed name other = false

/-- the child that an element counts for, with its position: the first block, or else the first shadow -/
def Plugged (children : List Node) (position : Nat) (inner : Node) : Prop :=
  FirstNamed "block" children position inner ∨
    (∀ child ∈ children, isNamed "block" child = false) ∧ FirstNamed "shadow" children position inner

/-- an element whose slot is read: a text of the block, or a value or statement with something in it -/
def Slotted (tag : String) (children : List Node) : Prop :=
  tag ∈ ["title", "label", "variable"] ∨
    tag ∈ ["value", "statement"] ∧ ∃ position inner, Plugged children position inner

def Takes (tag : String) : Prop :=
  tag ∈ ["value", "statement", "next"]

def countNames : List String := ["items", "elseif", "else"]

/-- an element that is a valid block -/
inductive IsBlock : Node → Prop
  | element {tag kind : String} {attributes : List (String × String)} {children : List Node} :
      attributes.lookup "type" = some kind →
      (∀ name values inside, Node.element name values inside ∈ children → Slotted name inside →
        ∀ raw, values.lookup "slot" = some raw → IsNumber raw) →
      (∀ values inside, Node.element "mutation" values inside ∈ children →
        ∀ name ∈ countNames, ∀ raw, values.lookup name = some raw → IsNumber raw) →
      (∀ name values inside, Node.element name values inside ∈ children → Takes name →
        ∀ position inner, Plugged inside position inner → IsBlock inner) →
      IsBlock (.element tag attributes children)

/-! ## Faults and their places -/

mutual

/-- a fault of an element as a block -/
inductive Fault : Node → List Nat → LoadError → Prop
  | type {tag : String} {attributes : List (String × String)} {children : List Node} :
      attributes.lookup "type" = none → Fault (.element tag attributes children) [] (.missingType tag)
  | child {tag kind : String} {attributes : List (String × String)} {children : List Node} {position : Nat}
      {child : Node} {place : List Nat} {cause : LoadError} :
      attributes.lookup "type" = some kind → children[position]? = some child →
      ChildFault kind child place cause → Fault (.element tag attributes children) (position :: place) cause

/-- a fault of a node inside a block of a kind. The slot of an element stands before all that is inside
the element, and its counts stand in the order in which they are read. -/
inductive ChildFault : String → Node → List Nat → LoadError → Prop
  | slot {tag kind raw : String} {attributes : List (String × String)} {children : List Node} :
      Slotted tag children → Misnumbered "slot" attributes raw →
      ChildFault kind (.element tag attributes children) [] (.invalidSlot raw tag kind)
  | count {kind name raw : String} {attributes : List (String × String)} {children : List Node} {rank : Nat} :
      countNames[rank]? = some name → Misnumbered name attributes raw →
      ChildFault kind (.element "mutation" attributes children) [rank] (.invalidCount name raw kind)
  | inner {tag kind : String} {attributes : List (String × String)} {children : List Node} {position : Nat}
      {inner : Node} {place : List Nat} {cause : LoadError} :
      Takes tag → Plugged children position inner → Fault inner place cause →
      ChildFault kind (.element tag attributes children) (position :: place) cause

end

inductive RootFault : Node → List Nat → LoadError → Prop
  | name {name : String} {attributes : List (String × String)} {children : List Node} :
      name ≠ "xml" → RootFault (.element name attributes children) [] (.unexpectedRoot name)
  | block {name : String} {attributes : List (String × String)} {children : List Node} {position : Nat}
      {top : Node} {place : List Nat} {cause : LoadError} :
      children[position]? = some top → isNamed "block" top → Fault top place cause →
      RootFault (.element name attributes children) (position :: place) cause

/-! ## Outcomes that report the first fault -/

/-- the order of a document: a place comes before those inside it, and an earlier child with all that is
inside it before a later one -/
inductive Before : List Nat → List Nat → Prop
  | front {position : Nat} {other : List Nat} : Before [] (position :: other)
  | inside {position : Nat} {place other : List Nat} :
      Before place other → Before (position :: place) (position :: other)
  | earlier {position later : Nat} {place other : List Nat} :
      position < later → Before (position :: place) (later :: other)

theorem Before.asymm {place other : List Nat} (h : Before place other) : ¬ Before other place := by
  induction h with
  | front => rintro ⟨⟩
  | inside _ ih =>
    rintro (_ | h | hlt)
    · exact ih h
    · exact lt_irrefl _ hlt
  | earlier hlt =>
    rintro (_ | _ | hgt)
    · exact lt_irrefl _ hlt
    · exact lt_asymm hlt hgt

/-- a fault that comes before all others -/
def First (faults : List Nat → LoadError → Prop) (place : List Nat) (cause : LoadError) : Prop :=
  faults place cause ∧
    ∀ other another, faults other another → other = place ∧ another = cause ∨ Before place other

/-- an outcome against the faults there are: success where there is none, and else the first of them -/
def Reports {α : Type} (faults : List Nat → LoadError → Prop) : Except LoadError α → Prop
  | .ok _ => ∀ place cause, ¬ faults place cause
  | .error cause => ∃ place, First faults place cause

/-- the faults of things in a row: those of each of them, behind its position -/
def InRow {α : Type} (faults : α → List Nat → LoadError → Prop) (row : List α) (place : List Nat)
    (cause : LoadError) : Prop :=
  ∃ position a inside, row[position]? = some a ∧ faults a inside cause ∧ place = position :: inside

section Reports

variable {α β γ : Type} {faults moved : List Nat → LoadError → Prop}

/-- faults may be moved to other places, in the same order -/
theorem Reports.move {outcome : Except LoadError α} (h : Reports faults outcome) {move : List Nat → List Nat}
    (hmono : ∀ p q, Before p q → Before (move p) (move q))
    (hmove : ∀ place cause, moved place cause ↔ ∃ before, faults before cause ∧ place = move before) :
    Reports moved outcome := by
  cases outcome with
  | ok a =>
    intro place cause hplace
    obtain ⟨before, hbefore, -⟩ := (hmove place cause).1 hplace
    exact h before cause hbefore
  | error cause =>
    obtain ⟨place, hplace, hfirst⟩ := h
    refine ⟨move place, (hmove _ _).2 ⟨place, hplace, rfl⟩, fun other another hother => ?_⟩
    obtain ⟨before, hbefore, rfl⟩ := (hmove other another).1 hother
    rcases hfirst before another hbefore with ⟨rfl, rfl⟩ | hlater
    · exact .inl ⟨rfl, rfl⟩
    · exact .inr (hmono _ _ hlater)

theorem Reports.congr {outcome : Except LoadError α} (h : Reports faults outcome)
    (hiff : ∀ place cause, moved place cause ↔ faults place cause) : Reports moved outcome :=
  h.move (fun _ _ hle => hle) fun place cause => by simp [hiff]

theorem Reports.map {outcome : Except LoadError α} (h : Reports faults outcome) (f : α → β) :
    Reports faults (outcome >>= fun a => pure (f a)) := by
  cases outcome with
  | ok a => exact h
  | error cause => exact h

/-- one fault at the very front goes before all others -/
theorem Reports.front {first : Except LoadError α} {second : α → Except LoadError β}
    (hfirst : Reports (fun place cause => place = [] ∧ faults place cause) first)
    (hsecond : ∀ a, Reports (fun place cause => place ≠ [] ∧ faults place cause) (second a)) :
    Reports faults (first >>= second) := by
  cases first with
  | ok a =>
    refine (hsecond a).congr fun place cause => ⟨fun h => ⟨?_, h⟩, And.right⟩
    intro hplace
    exact hfirst place cause ⟨hplace, h⟩
  | error cause =>
    obtain ⟨place, ⟨rfl, hplace⟩, hleast⟩ := hfirst
    refine ⟨[], hplace, fun other another hother => ?_⟩
    cases other with
    | nil => exact hleast [] another ⟨rfl, hother⟩
    | cons position inside => exact .inr .front

/-- outcomes in a row: the faults of the first go before those of the others -/
theorem Reports.row {inside : α → List Nat → LoadError → Prop} {a : α} {rest : List α}
    {first : Except LoadError β} {second : β → Except LoadError γ} (hfirst : Reports (inside a) first)
    (hsecond : ∀ b, Reports (InRow inside rest) (second b)) :
    Reports (InRow inside (a :: rest)) (first >>= second) := by
  cases first with
  | ok b =>
    -- the first has no fault, so those of the row are those of the rest, one position further on
    have hmono : ∀ p q, Before p q → Before (p.modifyHead (· + 1)) (q.modifyHead (· + 1)) := by
      rintro _ _ (_ | h | hlt)
      · exact .front
      · exact .inside h
      · exact .earlier (Nat.succ_lt_succ hlt)
    refine (hsecond b).move hmono fun place cause => ?_
    · constructor
      · rintro ⟨position, c, place, hc, hfault, rfl⟩
        cases position with
        | zero => exact absurd (Option.some.inj hc ▸ hfault) (hfirst place cause)
        | succ position => exact ⟨position :: place, ⟨position, c, place, hc, hfault, rfl⟩, rfl⟩
      · rintro ⟨_, ⟨position, c, place, hc, hfault, rfl⟩, rfl⟩
        exact ⟨position + 1, c, place, hc, hfault, rfl⟩
  | error cause =>
    obtain ⟨place, hplace, hleast⟩ := hfirst
    refine ⟨0 :: place, ⟨0, a, place, rfl, hplace, rfl⟩, ?_⟩
    rintro _ another ⟨position, c, other, hc, hfault, rfl⟩
    cases position with
    | zero =>
      rcases hleast other another (Option.some.inj hc ▸ hfault) with ⟨rfl, rfl⟩ | hlater
      · exact .inl ⟨rfl, rfl⟩
      · exact .inr (.inside hlater)
    | succ position => exact .inr (.earlier position.succ_pos)

theorem reports_nil {inside : α → List Nat → LoadError → Prop} (b : β) :
    Reports (InRow inside []) (.ok b) := by
  rintro place cause ⟨position, a, inner, ha, -⟩
  simp at ha

end Reports

/-! ## Numbers -/

theorem number?_isSome_iff (raw : String) : (number? raw).isSome ↔ IsNumber raw := by
  have hread (digits : List Char) : ((Text.readNatural? digits).filter (· < twoTo 64)).isSome ↔
      digits ≠ [] ∧ (∀ c ∈ digits, c.isDigit) ∧ Text.readDigits digits < 2 ^ 64 := by
    by_cases h : digits ≠ [] ∧ ∀ c ∈ digits, c.isDigit
    · rw [Text.readNatural?, if_pos (by simpa using h), Option.filter_some]
      by_cases hlt : Text.readDigits digits < twoTo 64
      · rw [if_pos (decide_eq_true hlt)]
        exact iff_of_true rfl ⟨h.1, h.2, hlt⟩
      · rw [if_neg (by simpa using hlt)]
        exact iff_of_false (by simp) fun hall => hlt hall.2.2
    · rw [Text.readNatural?, if_neg (by simpa using h)]
      simp only [Option.filter_none, Option.isSome_none, Bool.false_eq_true, false_iff]
      exact fun hall => h ⟨hall.1, hall.2.1⟩
  unfold number? IsNumber
  simp only
  split
  next cs hcs =>
    rw [hread, hcs]
    refine ⟨fun h => ⟨cs, .inr rfl, h⟩, ?_⟩
    rintro ⟨digits, rfl | hdigits, hne, hall, hlt⟩
    · exact absurd (hall '+' List.mem_cons_self) (by decide)
    · cases hdigits
      exact ⟨hne, hall, hlt⟩
  next hplus =>
    rw [hread]
    refine ⟨fun h => ⟨_, .inl rfl, h⟩, ?_⟩
    rintro ⟨digits, rfl | hdigits, h⟩
    · exact h
    · exact absurd hdigits (hplus digits)

/-- an attribute that is read as a number, zero where it is not given, reports what else it is -/
theorem attribute_reports (name : String) (attributes : List (String × String)) (wording : String → LoadError) :
    Reports (fun place cause => place = [] ∧ ∃ raw, Misnumbered name attributes raw ∧ cause = wording raw)
      (match attributes.lookup name with
        | none => Except.ok 0
        | some raw =>
          match number? raw with
          | some n => .ok n
          | none => .error (wording raw)) := by
  cases hraw : attributes.lookup name with
  | none => simp [Reports, Misnumbered, hraw]
  | some raw =>
    have hnumber := number?_isSome_iff raw
    cases hn : number? raw with
    | none => simp [Reports, First, Misnumbered, hraw, ← hnumber, hn]
    | some n => simp [Reports, Misnumbered, hraw, ← hnumber, hn]

theorem slot_reports (tag kind : String) (attributes : List (String × String)) :
    Reports (fun place cause => place = [] ∧ ∃ raw, Misnumbered "slot" attributes raw ∧
      cause = .invalidSlot raw tag kind) (slot tag kind attributes) :=
  attribute_reports "slot" attributes fun raw => .invalidSlot raw tag kind

/-- the faults of a count of a block -/
def CountFault (kind : String) (attributes : List (String × String)) (name : String) (place : List Nat)
    (cause : LoadError) : Prop :=
  place = [] ∧ ∃ raw, Misnumbered name attributes raw ∧ cause = .invalidCount name raw kind

theorem count_reports (name kind : String) (attributes : List (String × String)) :
    Reports (CountFault kind attributes name) (count name kind attributes) :=
  attribute_reports name attributes fun raw => .invalidCount name raw kind

/-- the counts of a block report their faults in the order in which they are read -/
theorem counts_reports (kind : String) (attributes : List (String × String)) (head : Head) :
    Reports (InRow (CountFault kind attributes) countNames) (counts kind attributes head) :=
  (count_reports "items" kind attributes).row fun _ =>
    (count_reports "elseif" kind attributes).row fun _ =>
      (count_reports "else" kind attributes).row fun _ => reports_nil _

/-! ## What is plugged into an element -/

theorem exists_element_of_isNamed {name : String} {node : Node} (h : isNamed name node) :
    ∃ attributes children, node = .element name attributes children := by
  cases node with
  | element tag attributes children =>
    rw [isNamed, beq_iff_eq] at h
    exact ⟨attributes, children, by rw [h]⟩
  | text content => cases h
  | aside => cases h

theorem FirstNamed.unique {name : String} {nodes : List Node} {i j : Nat} {node other : Node}
    (h : FirstNamed name nodes i node) (h' : FirstNamed name nodes j other) : i = j ∧ node = other := by
  have hij : i = j := by
    rcases Nat.lt_trichotomy i j with hlt | heq | hgt
    · exact absurd h.named (by simp [h'.first i hlt node h.found])
    · exact heq
    · exact absurd h'.named (by simp [h.first j hgt other h'.found])
  subst hij
  exact ⟨rfl, Option.some.inj (h.found.symm.trans h'.found)⟩

theorem Plugged.unique {children : List Node} {i j : Nat} {inner other : Node}
    (h : Plugged children i inner) (h' : Plugged children j other) : i = j ∧ inner = other := by
  have hnone {p : Nat} {node : Node} (hnode : FirstNamed "block" children p node)
      (hall : ∀ child ∈ children, isNamed "block" child = false) : False := by
    have hfalse := hall node (List.mem_of_getElem? hnode.found)
    rw [hnode.named] at hfalse
    cases hfalse
  rcases h with h | ⟨hall, h⟩ <;> rcases h' with h' | ⟨hall', h'⟩
  · exact h.unique h'
  · exact (hnone h hall').elim
  · exact (hnone h' hall).elim
  · exact h.unique h'

/-- the node that loading takes is the first of its name -/
theorem firstNamed_cases (name : String) (nodes : List Node) :
    (firstNamed name nodes = none ∧ ∀ node ∈ nodes, isNamed name node = false) ∨
      ∃ position node, FirstNamed name nodes position node ∧ firstNamed name nodes = some (block node) := by
  induction nodes with
  | nil => exact .inl ⟨rfl, by simp⟩
  | cons node rest ih =>
    rw [firstNamed]
    split_ifs with hnode
    · exact .inr ⟨0, node, ⟨rfl, hnode, fun earlier hlt => absurd hlt earlier.not_lt_zero⟩, rfl⟩
    · rcases ih with ⟨hnone, hall⟩ | ⟨position, found, hfirst, heq⟩
      · exact .inl ⟨hnone, List.forall_mem_cons.2 ⟨by simpa using hnode, hall⟩⟩
      · refine .inr ⟨position + 1, found, ⟨hfirst.found, hfirst.named, fun earlier hlt other hother => ?_⟩, heq⟩
        cases earlier with
        | zero => simpa [← Option.some.inj hother] using hnode
        | succ earlier => exact hfirst.first earlier (Nat.lt_of_succ_lt_succ hlt) other hother

/-- what loading takes to be plugged in is what is plugged in -/
theorem plugged_cases (children : List Node) :
    (plugged children = none ∧ ∀ position inner, ¬ Plugged children position inner) ∨
      ∃ position inner, Plugged children position inner ∧ plugged children = some (block inner) := by
  unfold plugged
  rcases firstNamed_cases "block" children with ⟨hnone, hall⟩ | ⟨position, inner, hfirst, heq⟩
  · rw [hnone]
    rcases firstNamed_cases "shadow" children with ⟨hnone', hall'⟩ | ⟨position, inner, hfirst, heq⟩
    · refine .inl ⟨hnone', fun position inner hplugged => ?_⟩
      have hmem : inner ∈ children ∧ (isNamed "block" inner ∨ isNamed "shadow" inner) := by
        rcases hplugged with h | ⟨-, h⟩
        · exact ⟨List.mem_of_getElem? h.found, .inl h.named⟩
        · exact ⟨List.mem_of_getElem? h.found, .inr h.named⟩
      simp [hall inner hmem.1, hall' inner hmem.1] at hmem
    · exact .inr ⟨position, inner, .inr ⟨hall, hfirst⟩, heq⟩
  · rw [heq]
    exact .inr ⟨position, inner, .inl hfirst, rfl⟩

theorem Plugged.mem {children : List Node} {position : Nat} {inner : Node} (h : Plugged children position inner) :
    inner ∈ children := by
  rcases h with h | ⟨-, h⟩ <;> exact List.mem_of_getElem? h.found

theorem Plugged.exists_element {children : List Node} {position : Nat} {inner : Node}
    (h : Plugged children position inner) : ∃ tag attributes inside, inner = .element tag attributes inside := by
  rcases h with h | ⟨-, h⟩
  · obtain ⟨attributes, inside, rfl⟩ := exists_element_of_isNamed h.named
    exact ⟨_, attributes, inside, rfl⟩
  · obtain ⟨attributes, inside, rfl⟩ := exists_element_of_isNamed h.named
    exact ⟨_, attributes, inside, rfl⟩

/-! ## Filling a block -/

/-- loading an element as a block reports its faults, and so does filling a block from a node -/
def LoadsFaithfully (node : Node) : Prop :=
  (∀ tag attributes children, node = .element tag attributes children → Reports (Fault node) (block node)) ∧
    ∀ kind acc, Reports (ChildFault kind node) (fillOne kind acc node)

section ChildFault

variable {tag kind : String} {attributes : List (String × String)} {children : List Node}

/-- an element outside the seven names has no fault -/
theorem childFault_other (htext : tag ∉ ["title", "label", "variable"]) (hslot : tag ∉ ["value", "statement"])
    (hmutation : tag ≠ "mutation") (hnext : tag ≠ "next") {place : List Nat} {cause : LoadError} :
    ¬ ChildFault kind (.element tag attributes children) place cause := by
  rintro (⟨hslotted, -⟩ | - | ⟨htakes, -, -⟩)
  · rcases hslotted with h | ⟨h, -⟩
    · exact htext h
    · exact hslot h
  · exact hmutation rfl
  · simp only [Takes, List.mem_cons, List.not_mem_nil, or_false] at htakes hslot
    tauto

theorem childFault_text (htag : tag ∈ ["title", "label", "variable"]) (place : List Nat) (cause : LoadError) :
    ChildFault kind (.element tag attributes children) place cause ↔
      place = [] ∧ ∃ raw, Misnumbered "slot" attributes raw ∧ cause = .invalidSlot raw tag kind := by
  constructor
  · rintro (⟨-, hraw⟩ | - | ⟨htakes, -, -⟩)
    · exact ⟨rfl, _, hraw, rfl⟩
    · simp at htag
    · simp only [Takes, List.mem_cons, List.not_mem_nil, or_false] at htakes htag
      rcases htakes with rfl | rfl | rfl <;> simp at htag
  · rintro ⟨rfl, raw, hraw, rfl⟩
    exact .slot (.inl htag) hraw

theorem childFault_mutation (place : List Nat) (cause : LoadError) :
    ChildFault kind (.element "mutation" attributes children) place cause ↔
      InRow (CountFault kind attributes) countNames place cause := by
  constructor
  · rintro (⟨hslotted, -⟩ | ⟨hname, hraw⟩ | ⟨htakes, -, -⟩)
    · simp [Slotted] at hslotted
    · exact ⟨_, _, [], hname, ⟨rfl, _, hraw, rfl⟩, rfl⟩
    · simp [Takes] at htakes
  · rintro ⟨rank, name, _, hname, ⟨rfl, raw, hraw, rfl⟩, rfl⟩
    exact .count hname hraw

/-- an element with nothing plugged in has no fault, whatever slot it names -/
theorem childFault_vacant (htakes : Takes tag) (hnone : ∀ position inner, ¬ Plugged children position inner)
    {place : List Nat} {cause : LoadError} : ¬ ChildFault kind (.element tag attributes children) place cause := by
  rintro (⟨h | ⟨-, position, inner, hplugged⟩, -⟩ | - | ⟨-, hplugged, -⟩)
  · simp only [Takes, List.mem_cons, List.not_mem_nil, or_false] at htakes
    rcases htakes with rfl | rfl | rfl <;> simp at h
  · exact hnone position inner hplugged
  · simp [Takes] at htakes
  · exact hnone _ _ hplugged

variable {position : Nat} {inner : Node}

/-- the faults behind the front of an element are those of the block plugged into it -/
theorem childFault_inner (htakes : Takes tag) (hplugged : Plugged children position inner) (place : List Nat)
    (cause : LoadError) :
    place ≠ [] ∧ ChildFault kind (.element tag attributes children) place cause ↔
      ∃ inside, Fault inner inside cause ∧ place = position :: inside := by
  constructor
  · rintro ⟨hplace, - | - | ⟨-, hother, hfault⟩⟩
    · exact absurd rfl hplace
    · simp [Takes] at htakes
    · obtain ⟨rfl, rfl⟩ := hother.unique hplugged
      exact ⟨_, hfault, rfl⟩
  · rintro ⟨inside, hfault, rfl⟩
    exact ⟨List.cons_ne_nil _ _, .inner htakes hplugged hfault⟩

/-- the fault at the front of an element is that of its slot -/
theorem childFault_front (htag : tag ∈ ["value", "statement"]) (hplugged : Plugged children position inner)
    (place : List Nat) (cause : LoadError) :
    place = [] ∧ ChildFault kind (.element tag attributes children) place cause ↔
      place = [] ∧ ∃ raw, Misnumbered "slot" attributes raw ∧ cause = .invalidSlot raw tag kind := by
  refine and_congr_right fun hplace => ?_
  subst hplace
  constructor
  · intro h
    cases h with
    | slot _ hraw => exact ⟨_, hraw, rfl⟩
  · rintro ⟨raw, hraw, rfl⟩
    exact .slot (.inr ⟨htag, position, inner, hplugged⟩) hraw

theorem inner_reports (hc : ∀ child ∈ children, LoadsFaithfully child) (hplugged : Plugged children position inner) :
    Reports (fun place cause => ∃ inside, Fault inner inside cause ∧ place = position :: inside) (block inner) := by
  obtain ⟨name, values, inside, hinner⟩ := hplugged.exists_element
  exact ((hc inner hplugged.mem).1 name values inside hinner).move (fun _ _ => .inside) fun _ _ => Iff.rfl

/-- a value or statement reports its slot, and then what is plugged in -/
theorem plug_reports (hc : ∀ child ∈ children, LoadsFaithfully child) (htag : tag ∈ ["value", "statement"])
    (hplugged : Plugged children position inner) (plug : Nat → Block → Block) :
    Reports (ChildFault kind (.element tag attributes children))
      (slot tag kind attributes >>= fun n => block inner >>= fun child => pure (plug n child)) := by
  have htakes : Takes tag := by
    simp only [List.mem_cons, List.not_mem_nil, or_false] at htag
    rcases htag with rfl | rfl <;> simp [Takes]
  refine Reports.front ((slot_reports tag kind attributes).congr (childFault_front htag hplugged)) fun n => ?_
  exact ((inner_reports hc hplugged).map (plug n)).congr (childFault_inner htakes hplugged)

/-- an element whose slot is not read reports what is plugged in -/
theorem next_reports (hc : ∀ child ∈ children, LoadsFaithfully child) (htakes : Takes tag)
    (hslot : ¬ Slotted tag children) (hplugged : Plugged children position inner) (plug : Block → Block) :
    Reports (ChildFault kind (.element tag attributes children))
      (block inner >>= fun below => pure (plug below)) := by
  refine ((inner_reports hc hplugged).map plug).congr fun place cause => ?_
  rw [← childFault_inner htakes hplugged]
  refine ⟨fun h => ⟨?_, h⟩, And.right⟩
  rintro rfl
  cases h with
  | slot hslotted => exact hslot hslotted

/-- an element that takes a block reports no fault when there is none in it -/
theorem plugged_reports (htakes : Takes tag) (acc : Block) {outcome : Except LoadError Block → Except LoadError Block}
    (hfilled : ∀ position inner, Plugged children position inner →
      Reports (ChildFault kind (.element tag attributes children)) (outcome (block inner))) :
    Reports (ChildFault kind (.element tag attributes children))
      (match plugged children with
        | none => .ok acc
        | some loaded => outcome loaded) := by
  rcases plugged_cases children with ⟨hnone, hvacant⟩ | ⟨position, inner, hplugged, heq⟩
  · rw [hnone]
    exact fun place cause => childFault_vacant htakes hvacant
  · rw [heq]
    exact hfilled position inner hplugged

/-- filling a block from an element reports the faults of the element -/
theorem fillOne_reports (hc : ∀ child ∈ children, LoadsFaithfully child) (acc : Block) :
    Reports (ChildFault kind (.element tag attributes children))
      (fillOne kind acc (.element tag attributes children)) := by
  unfold fillOne
  simp only
  split
  · exact ((slot_reports _ kind attributes).map _).congr (childFault_text (by simp))
  · exact ((slot_reports _ kind attributes).map _).congr (childFault_text (by simp))
  · exact ((slot_reports _ kind attributes).map _).congr (childFault_text (by simp))
  · exact plugged_reports (by simp [Takes]) acc fun _ _ hplugged =>
      plug_reports hc (by simp) hplugged fun n child => acc.plugValue n child
  · exact plugged_reports (by simp [Takes]) acc fun _ _ hplugged =>
      plug_reports hc (by simp) hplugged fun n child => acc.plugStatement n child
  · exact ((counts_reports kind attributes acc.head).map _).congr childFault_mutation
  · exact plugged_reports (by simp [Takes]) acc fun _ _ hplugged =>
      next_reports hc (by simp [Takes]) (by simp [Slotted]) hplugged fun below => acc.plugNext below
  next htitle hlabel hvariable hvalue hstatement hmutation hnext =>
    exact fun place cause => childFault_other (by simpa using ⟨htitle, hlabel, hvariable⟩)
      (by simpa using ⟨hvalue, hstatement⟩) hmutation hnext

end ChildFault

theorem fill_reports {kind : String} {children : List Node} (hc : ∀ child ∈ children, LoadsFaithfully child)
    (acc : Block) : Reports (InRow (ChildFault kind) children) (fill kind acc children) := by
  induction children generalizing acc with
  | nil => exact reports_nil acc
  | cons node rest ih =>
    rw [fill]
    exact ((hc node List.mem_cons_self).2 kind acc).row
      (ih fun child hchild => hc child (List.mem_cons_of_mem _ hchild))

/-- a block without a type has that fault alone; one with a type has those of its children -/
theorem fault_iff {tag : String} {attributes : List (String × String)} {children : List Node} {place : List Nat}
    {cause : LoadError} :
    Fault (.element tag attributes children) place cause ↔
      match attributes.lookup "type" with
      | none => place = [] ∧ cause = .missingType tag
      | some kind => InRow (ChildFault kind) children place cause := by
  constructor
  · rintro (⟨htype⟩ | ⟨htype, hchild, hfault⟩)
    · rw [htype]
      exact ⟨rfl, rfl⟩
    · rw [htype]
      exact ⟨_, _, _, hchild, hfault, rfl⟩
  · cases htype : attributes.lookup "type" with
    | none =>
      rintro ⟨rfl, rfl⟩
      exact .type htype
    | some kind =>
      rintro ⟨position, child, inside, hchild, hfault, rfl⟩
      exact .child htype hchild hfault

theorem loadsFaithfully (node : Node) : LoadsFaithfully node := by
  induction node using Node.induction with
  | element tag attributes children ih =>
    refine ⟨fun _ _ _ _ => ?_, fun kind acc => fillOne_reports ih acc⟩
    rw [block]
    cases htype : attributes.lookup "type" with
    | none =>
      refine ⟨[], .type htype, fun other another hother => ?_⟩
      rw [fault_iff, htype] at hother
      exact .inl hother
    | some kind =>
      refine (fill_reports ih _).congr fun place cause => ?_
      rw [fault_iff, htype]
  | text content =>
    refine ⟨fun _ _ _ h => ?_, fun kind acc place cause h => ?_⟩
    · cases h
    · cases h
  | aside =>
    refine ⟨fun _ _ _ h => ?_, fun kind acc place cause h => ?_⟩
    · cases h
    · cases h

/-- **Loading an element reports its first fault**, and succeeds when it has none. -/
theorem block_reports (tag : String) (attributes : List (String × String)) (children : List Node) :
    Reports (Fault (.element tag attributes children)) (block (.element tag attributes children)) :=
  (loadsFaithfully _).1 tag attributes children rfl

/-! ## Validity and the absence of faults -/

theorem childFault_none_iff {tag kind : String} {attributes : List (String × String)} {children : List Node} :
    (∀ place cause, ¬ ChildFault kind (.element tag attributes children) place cause) ↔
      (Slotted tag children → ∀ raw, attributes.lookup "slot" = some raw → IsNumber raw) ∧
      (tag = "mutation" → ∀ name ∈ countNames, ∀ raw, attributes.lookup name = some raw → IsNumber raw) ∧
      (Takes tag → ∀ position inner, Plugged children position inner → ∀ place cause, ¬ Fault inner place cause) := by
  constructor
  · refine fun h => ⟨fun hslotted raw hraw => ?_, ?_, fun htakes position inner hplugged place cause hfault => ?_⟩
    · by_contra hnumber
      exact h _ _ (.slot hslotted ⟨hraw, hnumber⟩)
    · rintro rfl name hname raw hraw
      by_contra hnumber
      obtain ⟨rank, hrank⟩ := List.mem_iff_getElem?.1 hname
      exact h _ _ (.count hrank ⟨hraw, hnumber⟩)
    · exact h _ _ (.inner htakes hplugged hfault)
  · rintro ⟨hslots, hcounts, hplugs⟩ place cause (⟨hslotted, hraw⟩ | ⟨hrank, hraw⟩ | ⟨htakes, hplugged, hfault⟩)
    · exact hraw.2 (hslots hslotted _ hraw.1)
    · exact hraw.2 (hcounts rfl _ (List.mem_of_getElem? hrank) _ hraw.1)
    · exact hplugs htakes _ _ hplugged _ _ hfault

/-- a block element is valid exactly when it has a type and no child of it has a fault -/
theorem fault_none_iff {tag : String} {attributes : List (String × String)} {children : List Node} :
    (∀ place cause, ¬ Fault (.element tag attributes children) place cause) ↔
      ∃ kind, attributes.lookup "type" = some kind ∧
        ∀ child ∈ children, ∀ place cause, ¬ ChildFault kind child place cause := by
  constructor
  · intro h
    cases htype : attributes.lookup "type" with
    | none => exact absurd (.type htype) (h [] _)
    | some kind =>
      refine ⟨kind, rfl, fun child hchild place cause hfault => ?_⟩
      obtain ⟨position, hposition⟩ := List.mem_iff_getElem?.1 hchild
      exact h _ _ (.child htype hposition hfault)
  · rintro ⟨kind, htype, hchildren⟩ place cause (⟨hnone⟩ | ⟨hkind, hchild, hfault⟩)
    · rw [htype] at hnone
      cases hnone
    · cases htype.symm.trans hkind
      exact hchildren _ (List.mem_of_getElem? hchild) _ _ hfault

theorem IsBlock.no_fault {node : Node} (h : IsBlock node) : ∀ place cause, ¬ Fault node place cause := by
  induction h with
  | element htype hslots hcounts _ ih =>
    refine fault_none_iff.2 ⟨_, htype, fun child hchild => ?_⟩
    cases child with
    | element name values inside =>
      refine childFault_none_iff.2 ⟨hslots name values inside hchild, ?_, ih name values inside hchild⟩
      rintro rfl
      exact hcounts values inside hchild
    | text content => exact fun place cause h => nomatch h
    | aside => exact fun place cause h => nomatch h

/-- an element without faults is a valid block; so is what is plugged into an element, when that has none -/
theorem isBlock_of_no_fault (node : Node) :
    ∀ tag attributes children, node = .element tag attributes children →
      ((∀ place cause, ¬ Fault node place cause) → IsBlock node) ∧
      ∀ position inner, Plugged children position inner → (∀ place cause, ¬ Fault inner place cause) →
        IsBlock inner := by
  induction node using Node.induction with
  | element tag attributes children ih =>
    rintro _ _ _ ⟨⟩
    constructor
    · intro hnone
      obtain ⟨kind, htype, hchildren⟩ := fault_none_iff.1 hnone
      refine .element htype (fun name values inside hmem => ?_) (fun values inside hmem => ?_)
        fun name values inside hmem htakes position inner hplugged => ?_
      · exact (childFault_none_iff.1 (hchildren _ hmem)).1
      · exact (childFault_none_iff.1 (hchildren _ hmem)).2.1 rfl
      · have hinner := (childFault_none_iff.1 (hchildren _ hmem)).2.2 htakes position inner hplugged
        exact (ih _ hmem name values inside rfl).2 position inner hplugged hinner
    · intro position inner hplugged
      obtain ⟨name, values, inside, hinner⟩ := hplugged.exists_element
      exact (ih inner hplugged.mem name values inside hinner).1
  | text content => exact fun _ _ _ h => nomatch h
  | aside => exact fun _ _ _ h => nomatch h

/-- **A valid block is an element without faults.** -/
theorem isBlock_iff {tag : String} {attributes : List (String × String)} {children : List Node} :
    IsBlock (.element tag attributes children) ↔
      ∀ place cause, ¬ Fault (.element tag attributes children) place cause :=
  ⟨IsBlock.no_fault, (isBlock_of_no_fault _ tag attributes children rfl).1⟩

/-! ## Whole documents -/

theorem blocks_reports (nodes : List Node) :
    Reports (InRow (fun node place cause => isNamed "block" node ∧ Fault node place cause) nodes)
      (blocks nodes) := by
  induction nodes with
  | nil => exact reports_nil _
  | cons node rest ih =>
    rw [blocks]
    split_ifs with hnode
    · obtain ⟨attributes, children, rfl⟩ := exists_element_of_isNamed hnode
      refine Reports.row ((block_reports _ _ _).congr fun place cause => ?_) fun first => ih.map (first :: ·)
      exact and_iff_right hnode
    · have hquiet : Reports (fun place cause => isNamed "block" node ∧ Fault node place cause)
          (Except.ok () : Except LoadError Unit) := fun place cause h => hnode h.1
      exact hquiet.row fun _ => ih

/-- **Loading a document reports its first fault**, and succeeds when it has none. -/
theorem ofRoot_reports (name : String) (attributes : List (String × String)) (children : List Node) :
    Reports (RootFault (.element name attributes children)) (ofRoot (.element name attributes children)) := by
  rw [ofRoot]
  split_ifs with hname
  · refine (blocks_reports children).congr fun place cause => ⟨?_, ?_⟩
    · rintro (⟨h⟩ | ⟨hfound, hnamed, hfault⟩)
      · exact absurd hname h
      · exact ⟨_, _, _, hfound, ⟨hnamed, hfault⟩, rfl⟩
    · rintro ⟨position, top, inside, hfound, ⟨hnamed, hfault⟩, rfl⟩
      exact .block hfound hnamed hfault
  · refine ⟨[], .name hname, ?_⟩
    rintro _ _ (- | -)
    · exact .inl ⟨rfl, rfl⟩
    · exact .inr .front

theorem rootFault_none_iff {name : String} {attributes : List (String × String)} {children : List Node} :
    (∀ place cause, ¬ RootFault (.element name attributes children) place cause) ↔
      name = "xml" ∧ ∀ child ∈ children, isNamed "block" child → IsBlock child := by
  constructor
  · intro h
    refine ⟨by_contra fun hname => h _ _ (.name hname), fun child hchild hnamed => ?_⟩
    obtain ⟨position, hposition⟩ := List.mem_iff_getElem?.1 hchild
    obtain ⟨values, inside, rfl⟩ := exists_element_of_isNamed hnamed
    exact isBlock_iff.2 fun place cause hfault => h _ _ (.block hposition hnamed hfault)
  · rintro ⟨rfl, hblocks⟩ place cause (⟨hname⟩ | ⟨hfound, hnamed, hfault⟩)
    · exact hname rfl
    · exact (hblocks _ (List.mem_of_getElem? hfound) hnamed).no_fault _ _ hfault

theorem Reports.ok_iff {α : Type} {faults : List Nat → LoadError → Prop} {outcome : Except LoadError α}
    (h : Reports faults outcome) : (∃ a, outcome = .ok a) ↔ ∀ place cause, ¬ faults place cause := by
  cases outcome with
  | ok a => exact iff_of_true ⟨a, rfl⟩ h
  | error cause =>
    obtain ⟨place, hplace, -⟩ := h
    exact iff_of_false (fun ⟨_, ha⟩ => nomatch ha) fun hnone => hnone place cause hplace

theorem Reports.error_iff {α : Type} {faults : List Nat → LoadError → Prop} {outcome : Except LoadError α}
    (h : Reports faults outcome) (cause : LoadError) :
    outcome = .error cause ↔ ∃ place, First faults place cause := by
  cases outcome with
  | ok a => exact iff_of_false (fun hcause => nomatch hcause) fun ⟨place, hplace, _⟩ => h place cause hplace
  | error found =>
    constructor
    · rintro ⟨⟩
      exact h
    · rintro ⟨place, hplace, hfirst⟩
      obtain ⟨other, hother, hleast⟩ := h
      -- two first faults are one: neither comes before the other
      rcases hleast place cause hplace with ⟨-, rfl⟩ | hbefore
      · rfl
      · rcases hfirst other found hother with ⟨-, rfl⟩ | hafter
        · rfl
        · exact absurd hafter hbefore.asymm

/-- **A document loads exactly when its root is `xml` and each block in it is valid; else the first of its
faults, in the order of the document, is the one reported.** -/
theorem document_loads_or_reports_first_fault (name : String) (attributes : List (String × String))
    (children : List Node) :
    ((∃ tops, ofRoot (.element name attributes children) = .ok tops) ↔
      name = "xml" ∧ ∀ child ∈ children, isNamed "block" child → IsBlock child) ∧
    ∀ cause, ofRoot (.element name attributes children) = .error cause ↔
      ∃ place, First (RootFault (.element name attributes children)) place cause := by
  have h := ofRoot_reports name attributes children
  exact ⟨h.ok_iff.trans rootFault_none_iff, h.error_iff⟩

/-- a value that a later one takes the slot of is still checked -/
example : ofRoot (.element "xml" [] [.element "block" [("type", "text_print")]
    [.element "value" [("slot", "0")] [.element "shadow" [] []],
      .element "value" [("slot", "0")] [.element "block" [("type", "text")] []]]]) =
    .error (.missingType "shadow") := by
  rfl

end Blockwork.Workspace
