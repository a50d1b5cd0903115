/-
Other ways of writing the same block.

- `Filling`: what a child of a block element puts into the block. Fillings of different places may be put in either
  order (`Filling.put_comm`), and what a child puts in does not depend on the block (`fillOne_fills`).
- `fill_perm`: so children for different places may stand in any order.
- `Rewrite`: one change in how an element is written, anywhere below it: children of a block in another order, or a node
  added that does not count where it stands.
- `Rewrite.same`: a change keeps what the element is read as, told for blocks and for the elements around them at once.
- `rewriting_keeps_block`: the main statement, about any number of changes, made or undone.
-/
import Blockwork.Proofs.Faults

namespace Blockwork

/-! ## Fillings -/

/-- different slots may be filled in either order -/
theorem Slots.insert_comm {α : Type} {slot other : Nat} (h : slot ≠ other) (a b : α) (entries : List (Nat × α)) :
    insert slot a (insert other b entries) = insert other b (insert slot a entries) := by
  induction entries with
  | nil => grind [insert]
  | cons entry rest ih => grind [insert]

/-- what a child of a block element puts into the block -/
inductive Filling
  | title (slot : Nat) (text : String)
  | label (slot : Nat) (text : String)
  | variableName (slot : Nat) (text : String)
  | value (slot : Nat) (child : Block)
  | statement (slot : Nat) (first : Block)
  | counts (items elseifs otherwise : Nat)
  | next (below : Block)

namespace Filling

/-- the place that is filled: the name of the element and the slot, zero where there is none -/
def place : Filling → String × Nat
  | title slot _ => ("title", slot)
  | label slot _ => ("label", slot)
  | variableName slot _ => ("variable", slot)
  | value slot _ => ("value", slot)
  | statement slot _ => ("statement", slot)
  | counts _ _ _ => ("mutation", 0)
  | next _ => ("next", 0)

/-- the block with the filling in its place -/
def put (block : Block) : Filling → Block
  | title slot text => block.mapHead fun head => { head with titles := Slots.insert slot text head.titles }
  | label slot text => block.mapHead fun head => { head with labels := Slots.insert slot text head.labels }
  | variableName slot text =>
    block.mapHead fun head => { head with variableNames := Slots.insert slot text head.variableNames }
  | value slot child => block.plugValue slot child
  | statement slot first => block.plugStatement slot first
  | counts items elseifs otherwise => block.mapHead fun head => { head with items, elseifs, otherwise }
  | next below => block.plugNext below

/-- **Different places may be filled in either order.** -/
theorem put_comm {first second : Filling} (h : first.place ≠ second.place) (block : Block) :
    put (put block first) second = put (put block second) first := by
  have hslot : ∀ {tag : String} {slot other : Nat}, (tag, slot) ≠ (tag, other) → other ≠ slot :=
    fun hne heq => hne (by rw [heq])
  cases first <;> cases second <;>
    simp only [put, Block.mapHead, Block.plugValue, Block.plugStatement, Block.plugNext, Block.head, Block.values,
      Block.statements, Block.next]
  case title.title => rw [Slots.insert_comm (hslot h)]
  case label.label => rw [Slots.insert_comm (hslot h)]
  case variableName.variableName => rw [Slots.insert_comm (hslot h)]
  case value.value => rw [Slots.insert_comm (hslot h)]
  case statement.statement => rw [Slots.insert_comm (hslot h)]
  case counts.counts => exact absurd rfl h
  case next.next => exact absurd rfl h

/-- the block with what a child fills in, which may be nothing -/
def putAny (block : Block) (filling : Option Filling) : Block :=
  filling.elim block (put block)

end Filling

namespace Workspace

open Markup

/-! ## What a child fills in -/

/-- the number of the slot that attributes name -/
def slotNumber? (attributes : List (String × String)) : Option Nat :=
  match attributes.lookup "slot" with
  | none => some 0
  | some raw => number? raw

def blockParts : List String := ["title", "label", "variable", "value", "statement", "mutation", "next"]

/-- the place that a child of a block element is for -/
def place? : Node → Option (String × Nat)
  | .element tag attributes _ =>
    if tag ∈ ["title", "label", "variable", "value", "statement"] then (slotNumber? attributes).map (tag, ·)
    else if tag ∈ ["mutation", "next"] then some (tag, 0)
    else none
  | .text _ => none
  | .aside => none

/-- children of a block element for different places: no two for the same slot, one mutation and one next at most -/
def Unambiguous (children : List Node) : Prop :=
  (children.filterMap place?).Nodup

instance (children : List Node) : Decidable (Unambiguous children) :=
  inferInstanceAs (Decidable (List.Nodup _))

theorem slotNumber?_of_slot {tag kind : String} {attributes : List (String × String)} {n : Nat}
    (h : slot tag kind attributes = .ok n) : slotNumber? attributes = some n := by
  unfold slot at h
  unfold slotNumber?
  cases hraw : attributes.lookup "slot" with
  | none =>
    rw [hraw] at h
    exact congrArg some (Except.ok.inj h)
  | some raw =>
    rw [hraw] at h
    simp only at h ⊢
    cases hn : number? raw with
    | none =>
      rw [hn] at h
      cases h
    | some m =>
      rw [hn] at h
      exact congrArg some (Except.ok.inj h)

/-- a child puts the same into every block of its kind -/
def Fills (kind : String) (node : Node) (filling : Option Filling) : Prop :=
  (∀ one ∈ filling, place? node = some one.place) ∧ ∀ acc, fillOne kind acc node = .ok (Filling.putAny acc filling)

/-- what is plugged into a value, statement or next element, put into a block -/
def plug (tag kind : String) (attributes : List (String × String)) (acc : Block)
    (loaded : Except LoadError Block) : Except LoadError Block :=
  if tag = "next" then loaded >>= fun below => pure (acc.plugNext below)
  else slot tag kind attributes >>= fun n => loaded >>= fun inner =>
    pure (if tag = "value" then acc.plugValue n inner else acc.plugStatement n inner)

section

variable {kind tag : String} {attributes : List (String × String)} {children : List Node}

/-- of the children of a value, statement or next element only the one plugged in counts -/
theorem fillOne_takes (htakes : Takes tag) (acc : Block) :
    fillOne kind acc (.element tag attributes children) =
      (plugged children).elim (.ok acc) (plug tag kind attributes acc) := by
  simp only [Takes, List.mem_cons, List.not_mem_nil, or_false] at htakes
  rcases htakes with rfl | rfl | rfl <;>
  · unfold fillOne plugged
    cases firstNamed "block" children with
    | some loaded => rfl
    | none => cases firstNamed "shadow" children <;> rfl

/-- an element of another name counts for nothing inside a block element -/
theorem fillOne_foreign (h : tag ∉ blockParts) (acc : Block) :
    fillOne kind acc (.element tag attributes children) = .ok acc := by
  simp only [blockParts, List.mem_cons, List.not_mem_nil, or_false, not_or] at h
  unfold fillOne
  simp only
  split <;> simp_all

theorem exists_fills_none {node : Node} (h : ∀ acc, fillOne kind acc node = .ok acc) :
    ∃ filling, Fills kind node filling :=
  ⟨none, fun _ hone => (nomatch hone), h⟩

/-- a child whose filling is made of something read from it alone -/
theorem exists_fills_of_bind {α : Type} {node : Node} (outcome : Except LoadError α) (one : α → Filling)
    (hplace : ∀ a, outcome = .ok a → place? node = some (one a).place)
    (hfill : ∀ acc, fillOne kind acc node = outcome >>= fun a => pure ((one a).put acc)) {acc filled : Block}
    (h : fillOne kind acc node = .ok filled) : ∃ filling, Fills kind node filling := by
  rw [hfill] at h
  obtain ⟨a, ha, -⟩ := bind_eq_ok h
  refine ⟨some (one a), fun first hfirst => Option.mem_some_iff.1 hfirst ▸ hplace a ha, fun other => ?_⟩
  rw [hfill, ha]
  rfl

/-- a slot together with what is plugged into its element -/
def slotWith (tag kind : String) (attributes : List (String × String)) (loaded : Except LoadError Block) :
    Except LoadError (Nat × Block) := do
  let n ← slot tag kind attributes
  let inner ← loaded
  pure (n, inner)

theorem slot_of_slotWith {loaded : Except LoadError Block} {a : Nat × Block}
    (h : slotWith tag kind attributes loaded = .ok a) : slot tag kind attributes = .ok a.1 := by
  obtain ⟨n, hn, hrest⟩ := bind_eq_ok h
  obtain ⟨inner, -, hpair⟩ := bind_eq_ok hrest
  cases hpair
  exact hn

theorem place?_slotted {n : Nat} (htag : tag ∈ ["title", "label", "variable", "value", "statement"])
    (h : slot tag kind attributes = .ok n) : place? (.element tag attributes children) = some (tag, n) := by
  rw [place?, if_pos htag, slotNumber?_of_slot h]
  rfl

/-- a value, statement or next element fills in what is plugged into it -/
theorem exists_fills_of_takes (htakes : Takes tag) {acc filled : Block}
    (h : fillOne kind acc (.element tag attributes children) = .ok filled) :
    ∃ filling, Fills kind (.element tag attributes children) filling := by
  cases hplugged : plugged children with
  | none => exact exists_fills_none fun other => by rw [fillOne_takes htakes, hplugged]; rfl
  | some loaded =>
    have hplug : ∀ other, fillOne kind other (.element tag attributes children) =
        plug tag kind attributes other loaded := by
      intro other
      rw [fillOne_takes htakes, hplugged]
      rfl
    simp only [Takes, List.mem_cons, List.not_mem_nil, or_false] at htakes
    rcases htakes with rfl | rfl | rfl
    · refine exists_fills_of_bind (slotWith "value" kind attributes loaded) (fun a => .value a.1 a.2)
        (fun a ha => place?_slotted (by simp) (slot_of_slotWith ha)) (fun other => ?_) h
      rw [hplug, plug, slotWith]
      cases slot "value" kind attributes <;> cases loaded <;> rfl
    · refine exists_fills_of_bind (slotWith "statement" kind attributes loaded) (fun a => .statement a.1 a.2)
        (fun a ha => place?_slotted (by simp) (slot_of_slotWith ha)) (fun other => ?_) h
      rw [hplug, plug, slotWith]
      cases slot "statement" kind attributes <;> cases loaded <;> rfl
    · exact exists_fills_of_bind loaded .next (fun _ _ => rfl) hplug h

theorem exists_fills_mutation {acc filled : Block}
    (h : fillOne kind acc (.element "mutation" attributes children) = .ok filled) :
    ∃ filling, Fills kind (.element "mutation" attributes children) filling := by
  let counted : Except LoadError (Nat × Nat × Nat) := do
    let items ← count "items" kind attributes
    let elseifs ← count "elseif" kind attributes
    let otherwise ← count "else" kind attributes
    pure (items, elseifs, otherwise)
  have hcounts : ∀ other, fillOne kind other (.element "mutation" attributes children) =
      counted >>= fun three => pure ((Filling.counts three.1 three.2.1 three.2.2).put other) := by
    intro other
    simp only [fillOne, counts, counted]
    cases count "items" kind attributes <;> cases count "elseif" kind attributes <;>
      cases count "else" kind attributes <;> rfl
  exact exists_fills_of_bind counted (fun three => .counts three.1 three.2.1 three.2.2) (fun _ _ => rfl) hcounts h

end

/-- **What a child puts into a block does not depend on the block.** -/
theorem fillOne_fills {kind : String} {acc filled : Block} {node : Node} (h : fillOne kind acc node = .ok filled) :
    ∃ filling, Fills kind node filling := by
  cases node with
  | text content => exact exists_fills_none fun _ => rfl
  | aside => exact exists_fills_none fun _ => rfl
  | element tag attributes children =>
    by_cases hpart : tag ∈ blockParts
    · simp only [blockParts, List.mem_cons, List.not_mem_nil, or_false] at hpart
      rcases hpart with rfl | rfl | rfl | rfl | rfl | rfl | rfl
      · exact exists_fills_of_bind (slot "title" kind attributes) (fun n => .title n (textOf children))
          (fun n hn => place?_slotted (by simp) hn) (fun _ => rfl) h
      · exact exists_fills_of_bind (slot "label" kind attributes) (fun n => .label n (textOf children))
          (fun n hn => place?_slotted (by simp) hn) (fun _ => rfl) h
      · exact exists_fills_of_bind (slot "variable" kind attributes) (fun n => .variableName n (textOf children))
          (fun n hn => place?_slotted (by simp) hn) (fun _ => rfl) h
      · exact exists_fills_of_takes (by simp [Takes]) h
      · exact exists_fills_of_takes (by simp [Takes]) h
      · exact exists_fills_mutation h
      · exact exists_fills_of_takes (by simp [Takes]) h
    · exact exists_fills_none fun other => fillOne_foreign hpart other

/-! ## Order -/

/-- neighbours for different places may fill in the other order -/
theorem Fills.putAny_comm {kind : String} {first second : Node} {rest : List Node} {one two : Option Filling}
    (hone : Fills kind first one) (htwo : Fills kind second two) (hplaces : Unambiguous (first :: second :: rest))
    (acc : Block) : Filling.putAny (Filling.putAny acc one) two = Filling.putAny (Filling.putAny acc two) one := by
  cases one with
  | none => rfl
  | some one =>
    cases two with
    | none => rfl
    | some two =>
      refine Filling.put_comm (fun heq => ?_) acc
      have hfirst := hone.1 one rfl
      have hsecond := htwo.1 two rfl
      simp [Unambiguous, hfirst, hsecond, heq] at hplaces

/-- **Children for different places may stand in any order.** -/
theorem fill_perm {kind : String} {children others : List Node} (hperm : children.Perm others)
    (hplaces : Unambiguous children) {acc loaded : Block} (h : fill kind acc children = .ok loaded) :
    fill kind acc others = .ok loaded := by
  induction hperm generalizing acc with
  | nil => exact h
  | cons node _ ih =>
    rw [fill] at h ⊢
    obtain ⟨filled, hfilled, hrest⟩ := bind_eq_ok h
    rw [hfilled]
    exact ih (hplaces.sublist ((List.sublist_cons_self _ _).filterMap _)) hrest
  | swap second first rest =>
    obtain ⟨once, honce, h⟩ := bind_eq_ok h
    obtain ⟨twice, htwice, hrest⟩ := bind_eq_ok h
    obtain ⟨one, hone⟩ := fillOne_fills honce
    obtain ⟨two, htwo⟩ := fillOne_fills htwice
    rw [hone.2] at honce
    rw [htwo.2] at htwice
    have hcomm : Filling.putAny (Filling.putAny acc two) one = twice := by
      calc Filling.putAny (Filling.putAny acc two) one
          = Filling.putAny (Filling.putAny acc one) two := (hone.putAny_comm htwo hplaces acc).symm
        _ = Filling.putAny once two := by rw [Except.ok.inj honce]
        _ = twice := Except.ok.inj htwice
    rw [fill, htwo.2]
    change fill kind _ (first :: rest) = _
    rw [fill, hone.2, hcomm]
    exact hrest
  | trans hfirst _ ih1 ih2 =>
    exact ih2 ((hfirst.filterMap place?).nodup_iff.1 hplaces) (ih1 hplaces h)

/-! ## Outcomes that agree -/

/-- both succeed with the same, or both fail -/
def Agree {α : Type} (first second : Except LoadError α) : Prop :=
  ∀ a, first = .ok a ↔ second = .ok a

section Agree

variable {α β : Type} {first second : Except LoadError α}

theorem Agree.refl (outcome : Except LoadError α) : Agree outcome outcome := fun _ => Iff.rfl

theorem Agree.symm (h : Agree first second) : Agree second first := fun a => (h a).symm

theorem Agree.bind (h : Agree first second) {f g : α → Except LoadError β} (hfg : ∀ a, Agree (f a) (g a)) :
    Agree (first >>= f) (second >>= g) := by
  have hone : ∀ {x y : Except LoadError α} {u v : α → Except LoadError β}, Agree x y → (∀ a, Agree (u a) (v a)) →
      ∀ b, x >>= u = .ok b → y >>= v = .ok b := by
    intro x y u v hxy huv b hb
    obtain ⟨a, ha, hu⟩ := bind_eq_ok hb
    rw [(hxy a).1 ha]
    exact (huv a b).1 hu
  exact fun b => ⟨hone h hfg b, hone h.symm (fun a => (hfg a).symm) b⟩

end Agree

/-! ## Changes in writing -/

/-- what an element is read as: a block, or an element around one -/
inductive Reading
  | block
  /-- a value, statement or next element -/
  | plug
  deriving DecidableEq

/-- the elements that are read so -/
def Reading.Admits : Reading → String → Prop
  | block, _ => True
  | plug, tag => Takes tag

/-- the names of the elements that count inside an element read so -/
def Reading.parts : Reading → List String
  | block => blockParts
  | plug => ["block", "shadow"]

/-- a node that does not count inside an element read so: text, a comment, an element of another name -/
def Reading.ignores (reading : Reading) : Node → Prop
  | .element tag _ _ => tag ∉ reading.parts
  | .text _ => True
  | .aside => True

/-- one change in how an element is written, anywhere below it -/
inductive Rewrite : Reading → Node → Node → Prop
  /-- the children of a block, all for different places, in another order -/
  | reorder {tag : String} {attributes : List (String × String)} {children others : List Node} :
      Unambiguous children → children.Perm others →
      Rewrite .block (.element tag attributes children) (.element tag attributes others)
  /-- a node more that does not count -/
  | foreign {reading : Reading} {tag : String} {attributes : List (String × String)} {before after : List Node}
      {node : Node} : reading.Admits tag → reading.ignores node →
      Rewrite reading (.element tag attributes (before ++ after)) (.element tag attributes (before ++ node :: after))
  /-- a shadow more beside a block -/
  | shadow {tag : String} {attributes : List (String × String)} {before after : List Node} {node inner : Node} :
      Takes tag → isNamed "shadow" node → inner ∈ before ++ after → isNamed "block" inner →
      Rewrite .plug (.element tag attributes (before ++ after)) (.element tag attributes (before ++ node :: after))
  /-- a change in a value, statement or next element of a block -/
  | child {tag : String} {attributes : List (String × String)} {before after : List Node} {node other : Node} :
      Rewrite .plug node other →
      Rewrite .block (.element tag attributes (before ++ node :: after))
        (.element tag attributes (before ++ other :: after))
  /-- a change in a block inside such an element -/
  | inner {tag : String} {attributes : List (String × String)} {before after : List Node} {node other : Node} :
      Takes tag → Rewrite .block node other →
      Rewrite .plug (.element tag attributes (before ++ node :: after))
        (.element tag attributes (before ++ other :: after))

/-- two elements that are read as the same -/
def Reading.Same : Reading → Node → Node → Prop
  | block, node, other => Agree (Workspace.block node) (Workspace.block other)
  | plug, node, other => ∀ kind acc, Agree (fillOne kind acc node) (fillOne kind acc other)

/-! ## Blocks -/

section Block

variable {kind tag : String} {attributes : List (String × String)} {children others before after : List Node}
  {node other : Node}

theorem fill_behind (acc : Block) :
    fill kind acc (before ++ after) = fill kind acc before >>= fun filled => fill kind filled after := by
  induction before generalizing acc with
  | nil => rfl
  | cons first rest ih =>
    rw [List.cons_append, fill, fill]
    cases fillOne kind acc first with
    | error cause => rfl
    | ok filled => exact ih filled

theorem block_agree (h : ∀ kind acc, Agree (fill kind acc children) (fill kind acc others)) :
    Agree (Workspace.block (.element tag attributes children)) (Workspace.block (.element tag attributes others)) := by
  rw [Workspace.block, Workspace.block]
  cases attributes.lookup "type" with
  | none => exact Agree.refl _
  | some kind => exact h kind _

theorem fillOne_ignored (h : Reading.block.ignores node) (acc : Block) : fillOne kind acc node = .ok acc := by
  cases node with
  | element tag attributes children => exact fillOne_foreign h acc
  | text content => rfl
  | aside => rfl

theorem fill_ignored (h : Reading.block.ignores node) (acc : Block) :
    fill kind acc (before ++ node :: after) = fill kind acc (before ++ after) := by
  rw [fill_behind, fill_behind]
  congr 1
  funext filled
  rw [fill, fillOne_ignored h]
  rfl

theorem fill_agree (h : Reading.plug.Same node other) (acc : Block) :
    Agree (fill kind acc (before ++ node :: after)) (fill kind acc (before ++ other :: after)) := by
  rw [fill_behind, fill_behind]
  refine (Agree.refl _).bind fun filled => ?_
  rw [fill, fill]
  exact (h kind filled).bind fun _ => Agree.refl _

end Block

/-! ## Elements around blocks -/

section Plug

variable {kind tag name : String} {attributes : List (String × String)} {children others before after : List Node}
  {node other : Node}

theorem firstNamed_append :
    firstNamed name (before ++ after) = (firstNamed name before).or (firstNamed name after) := by
  induction before with
  | nil => rfl
  | cons first rest ih =>
    rw [List.cons_append, firstNamed, firstNamed]
    split_ifs
    · rfl
    · exact ih

theorem firstNamed_skip (h : isNamed name node = false) :
    firstNamed name (before ++ node :: after) = firstNamed name (before ++ after) := by
  rw [firstNamed_append, firstNamed_append, firstNamed, if_neg (by simp [h])]

/-- what is plugged in stays the same beside a node that does not count -/
theorem plugged_ignored (h : Reading.plug.ignores node) :
    plugged (before ++ node :: after) = plugged (before ++ after) := by
  have hname : ∀ name ∈ ["block", "shadow"], isNamed name node = false := by
    intro name hname
    cases node with
    | element tag attributes children => exact beq_false_of_ne fun heq => h (heq ▸ hname)
    | text content => rfl
    | aside => rfl
  unfold plugged
  rw [firstNamed_skip (hname _ (by simp)), firstNamed_skip (hname _ (by simp))]

/-- what is plugged in stays the same when a shadow is put beside a block -/
theorem plugged_shadow {inner : Node} (hshadow : isNamed "shadow" node) (hinner : inner ∈ before ++ after)
    (hblock : isNamed "block" inner) : plugged (before ++ node :: after) = plugged (before ++ after) := by
  have hother : isNamed "block" node = false := by
    obtain ⟨attributes, children, rfl⟩ := exists_element_of_isNamed hshadow
    rfl
  rcases firstNamed_cases "block" (before ++ after) with ⟨-, hnone⟩ | ⟨position, found, -, hfound⟩
  · rw [hnone inner hinner] at hblock
    cases hblock
  · unfold plugged
    rw [firstNamed_skip hother, hfound]

theorem firstNamed_agree (hname : ∀ name, isNamed name node = isNamed name other)
    (h : Agree (Workspace.block node) (Workspace.block other)) :
    Option.Rel Agree (firstNamed name (before ++ node :: after)) (firstNamed name (before ++ other :: after)) := by
  rw [firstNamed_append, firstNamed_append]
  cases firstNamed name before with
  | some loaded => exact .some (Agree.refl loaded)
  | none =>
    rw [Option.none_or, Option.none_or, firstNamed, firstNamed, hname]
    split_ifs
    · exact .some h
    · cases firstNamed name after with
      | none => exact .none
      | some loaded => exact .some (Agree.refl loaded)

theorem plugged_agree (hname : ∀ name, isNamed name node = isNamed name other)
    (h : Agree (Workspace.block node) (Workspace.block other)) :
    Option.Rel Agree (plugged (before ++ node :: after)) (plugged (before ++ other :: after)) := by
  unfold plugged
  generalize hfirst : firstNamed "block" (before ++ node :: after) = first
  generalize hsecond : firstNamed "block" (before ++ other :: after) = second
  have hblock : Option.Rel Agree first second := hfirst ▸ hsecond ▸ firstNamed_agree hname h
  cases hblock with
  | none => exact firstNamed_agree hname h
  | some hloaded => exact .some hloaded

/-- elements in which the same is plugged in fill in the same -/
theorem fillOne_agree (htakes : Takes tag) (h : Option.Rel Agree (plugged children) (plugged others)) (acc : Block) :
    Agree (fillOne kind acc (.element tag attributes children)) (fillOne kind acc (.element tag attributes others)) := by
  rw [fillOne_takes htakes, fillOne_takes htakes]
  generalize plugged children = first, plugged others = second at h ⊢
  cases h with
  | none => exact Agree.refl _
  | some hloaded =>
    simp only [Option.elim_some, plug]
    split_ifs
    · exact hloaded.bind fun _ => Agree.refl _
    · exact (Agree.refl _).bind fun _ => hloaded.bind fun _ => Agree.refl _
    · exact (Agree.refl _).bind fun _ => hloaded.bind fun _ => Agree.refl _

end Plug

/-! ## Any number of changes -/

namespace Rewrite

variable {reading : Reading} {node other : Node}

theorem isNamed_eq (h : Rewrite reading node other) (name : String) : isNamed name node = isNamed name other := by
  cases h <;> rfl

/-- **A change keeps what the element is read as.** -/
theorem same (h : Rewrite reading node other) : reading.Same node other := by
  induction h with
  | reorder hplaces hperm =>
    have hother := (hperm.filterMap place?).nodup_iff.1 hplaces
    exact block_agree fun kind acc loaded => ⟨fill_perm hperm hplaces, fill_perm hperm.symm hother⟩
  | @foreign reading tag attributes before after node hadmits hignores =>
    cases reading with
    | block => exact block_agree fun kind acc => by rw [fill_ignored hignores]; exact Agree.refl _
    | plug =>
      intro kind acc
      rw [fillOne_takes hadmits, fillOne_takes hadmits, plugged_ignored hignores]
      exact Agree.refl _
  | shadow htakes hshadow hinner hblock =>
    intro kind acc
    rw [fillOne_takes htakes, fillOne_takes htakes, plugged_shadow hshadow hinner hblock]
    exact Agree.refl _
  | child _ ih => exact block_agree fun kind acc => fill_agree ih acc
  | inner htakes hinner ih => exact fun kind acc => fillOne_agree htakes (plugged_agree hinner.isNamed_eq ih) acc

end Rewrite

/-- **Loading does not depend on the order of children or on foreign content.** Elements that come from each other by
any number of changes in writing, made or undone at any depth, load to the same block, if one of them loads at all. The
changes are: another order of the children of a block element, when these are for different slots and there is one
mutation and one next element at most; text, comments and elements of unused names among the children of a block, value,
statement or next element; and a shadow beside the block in one of the last three. -/
theorem rewriting_keeps_block {node other : Node} (h : Relation.EqvGen (Rewrite .block) node other) (loaded : Block) :
    Workspace.block node = .ok loaded ↔ Workspace.block other = .ok loaded := by
  induction h with
  | rel _ _ hchange => exact hchange.same loaded
  | refl _ => exact Iff.rfl
  | symm _ _ _ ih => exact ih.symm
  | trans _ _ _ _ _ ih1 ih2 => exact ih1.trans ih2

def operandElement (tag literal : String) : Node :=
  .element tag [("type", "math_number")] [.element "title" [] [.text literal]]

def looseSum : Node :=
  .element "block" [("type", "math_arithmetic")]
    [.element "value" [("slot", " +01 ")] [operandElement "shadow" "9", operandElement "block" "2"],
      .element "label" [("slot", "1")] [.text "ADD"], .aside]

def tidySum : Node :=
  .element "block" [("type", "math_arithmetic")]
    [.element "label" [("slot", "1")] [.text "ADD"],
      .element "value" [("slot", " +01 ")] [operandElement "block" "2"]]

theorem looseSum_is_tidySum :
    Relation.EqvGen (Rewrite .block) looseSum tidySum ∧
      Workspace.block tidySum = .ok (.mk { Head.bare "math_arithmetic" with labels := [(1, "ADD")] }
        [(1, .number "2")] [] none) ∧
      Workspace.block looseSum = .ok (.mk { Head.bare "math_arithmetic" with labels := [(1, "ADD")] }
        [(1, .number "2")] [] none) := by
  let label : Node := .element "label" [("slot", "1")] [.text "ADD"]
  let bare : Node := .element "value" [("slot", " +01 ")] [operandElement "block" "2"]
  let shadowed : Node := .element "value" [("slot", " +01 ")] [operandElement "shadow" "9", operandElement "block" "2"]
  let sum : List Node → Node := .element "block" [("type", "math_arithmetic")]
  have hshadow : Rewrite .plug bare shadowed :=
    @Rewrite.shadow "value" _ [] [operandElement "block" "2"] (operandElement "shadow" "9") (operandElement "block" "2")
      (by simp [Takes]) rfl (by simp) rfl
  have hdepth : Rewrite .block (sum [bare, label, .aside]) (sum [shadowed, label, .aside]) :=
    @Rewrite.child "block" _ [] [label, .aside] bare shadowed hshadow
  have hcomment : Rewrite .block (sum [bare, label]) (sum [bare, label, .aside]) :=
    @Rewrite.foreign .block "block" _ [bare, label] [] .aside trivial trivial
  have horder : Rewrite .block (sum [bare, label]) (sum [label, bare]) :=
    .reorder (by decide +kernel) (.swap _ _ _)
  have hchanges : Relation.EqvGen (Rewrite .block) looseSum tidySum :=
    .trans _ _ _ (.symm _ _ (.rel _ _ hdepth)) (.trans _ _ _ (.symm _ _ (.rel _ _ hcomment)) (.rel _ _ horder))
  have htidy : Workspace.block tidySum = .ok (.mk { Head.bare "math_arithmetic" with labels := [(1, "ADD")] }
      [(1, .number "2")] [] none) := by rfl
  exact ⟨hchanges, htidy, (rewriting_keeps_block hchanges _).2 htidy⟩

end Workspace

end Blockwork
