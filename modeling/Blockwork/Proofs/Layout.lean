/-
The layout of blocks as element trees, and loading as its inverse.

- `Block.element`: the element that lays out a block, its own data first, then the blocks plugged into it,
  its counts and the block below it.
- `Block.WellFormed`: every slot is listed once and in ascending order, and slots and counts fit in
  64 bits, at every depth.
- `Workspace.number?_repr`: a number of 64 bits is read back from its decimal digits.
- `Workspace.block_element`: a well-formed block is loaded from its element.
- `Workspace.wellFormed_block`: nothing but well-formed blocks is ever loaded, so the layout of what was
  loaded loads to the same block again.
-/
import Blockwork.Proofs.Numerals
import Blockwork.Proofs.Perform
import Blockwork.Workspace

namespace Blockwork

open Markup

/-! ## Slots in order -/

namespace Slots

variable {α : Type}

/-- each slot once, in ascending order, and of 64 bits -/
def Ordered (entries : List (Nat × α)) : Prop :=
  entries.Pairwise (fun a b => a.1 < b.1) ∧ ∀ entry ∈ entries, entry.1 < twoTo 64

instance (entries : List (Nat × α)) : Decidable (Ordered entries) :=
  inferInstanceAs (Decidable (_ ∧ _))

theorem ordered_nil : Ordered ([] : List (Nat × α)) := ⟨.nil, fun _ h => nomatch h⟩

theorem ordered_cons {entry : Nat × α} {rest : List (Nat × α)} :
    Ordered (entry :: rest) ↔ (∀ later ∈ rest, entry.1 < later.1) ∧ entry.1 < twoTo 64 ∧ Ordered rest := by
  simp only [Ordered, List.pairwise_cons, List.forall_mem_cons]
  tauto

/-- filling a slot above all filled ones puts it last -/
theorem insert_above {slot : Nat} (a : α) {entries : List (Nat × α)} (h : ∀ entry ∈ entries, entry.1 < slot) :
    insert slot a entries = entries ++ [(slot, a)] := by
  induction entries with
  | nil => rfl
  | cons entry rest ih =>
    have hlt : entry.1 < slot := h entry List.mem_cons_self
    rw [insert, if_neg (by omega), if_neg (by omega), ih fun e he => h e (List.mem_cons_of_mem _ he)]
    rfl

theorem mem_insert {slot : Nat} {a : α} {entries : List (Nat × α)} {entry : Nat × α}
    (h : entry ∈ insert slot a entries) : entry = (slot, a) ∨ entry ∈ entries := by
  induction entries with
  | nil => simpa [insert] using h
  | cons first rest ih =>
    simp only [insert] at h
    split_ifs at h
    · simpa using h
    · rcases List.mem_cons.1 h with h | h
      · exact .inl h
      · exact .inr (List.mem_cons_of_mem _ h)
    · rcases List.mem_cons.1 h with h | h
      · exact .inr (h ▸ List.mem_cons_self)
      · exact (ih h).imp_right (List.mem_cons_of_mem _)

theorem Ordered.insert {slot : Nat} (hs : slot < twoTo 64) (a : α) {entries : List (Nat × α)}
    (h : Ordered entries) : Ordered (insert slot a entries) := by
  induction entries with
  | nil => exact ordered_cons.2 ⟨by simp, hs, ordered_nil⟩
  | cons first rest ih =>
    obtain ⟨habove, hfirst, hrest⟩ := ordered_cons.1 h
    rw [Slots.insert]
    split_ifs with hlt heq
    · refine ordered_cons.2 ⟨?_, hs, h⟩
      rintro later (_ | ⟨_, hl⟩)
      · exact hlt
      · exact hlt.trans (habove later hl)
    · exact ordered_cons.2 ⟨heq ▸ habove, hs, hrest⟩
    · refine ordered_cons.2 ⟨fun later hl => ?_, hfirst, ih hrest⟩
      rcases mem_insert hl with rfl | hl
      · simp only
        omega
      · exact habove later hl

end Slots

/-! ## Well-formed blocks -/

/-- a block's own data as it is held: texts by slot, and counts of 64 bits -/
structure Head.WellFormed (head : Head) : Prop where
  titles : Slots.Ordered head.titles
  labels : Slots.Ordered head.labels
  variableNames : Slots.Ordered head.variableNames
  items : head.items < twoTo 64
  elseifs : head.elseifs < twoTo 64
  otherwise : head.otherwise < twoTo 64

instance (head : Head) : Decidable head.WellFormed :=
  decidable_of_iff (Slots.Ordered head.titles ∧ Slots.Ordered head.labels ∧ Slots.Ordered head.variableNames ∧
      head.items < twoTo 64 ∧ head.elseifs < twoTo 64 ∧ head.otherwise < twoTo 64)
    ⟨fun ⟨ht, hl, hv, hi, he, ho⟩ => ⟨ht, hl, hv, hi, he, ho⟩,
      fun ⟨ht, hl, hv, hi, he, ho⟩ => ⟨ht, hl, hv, hi, he, ho⟩⟩

/-- slots and counts are in order and of 64 bits, in the block and in all blocks plugged into it -/
inductive Block.WellFormed : Block → Prop
  | mk {head : Head} {values statements : List (Nat × Block)} {next : Option Block} :
      head.WellFormed → Slots.Ordered values → Slots.Ordered statements →
      (∀ entry ∈ values, WellFormed entry.2) → (∀ entry ∈ statements, WellFormed entry.2) →
      (∀ below ∈ next, WellFormed below) → WellFormed (.mk head values statements next)

namespace Block.WellFormed

theorem leaf {head : Head} (h : head.WellFormed) : (Block.leaf head).WellFormed :=
  .mk h Slots.ordered_nil Slots.ordered_nil (by simp) (by simp) (by simp)

theorem bare (kind : String) : (Block.leaf (.bare kind)).WellFormed := by
  have hzero : 0 < twoTo 64 := Decimal.twoTo_pos 64
  exact leaf ⟨Slots.ordered_nil, Slots.ordered_nil, Slots.ordered_nil, hzero, hzero, hzero⟩

theorem head {block : Block} (h : block.WellFormed) : block.head.WellFormed := by
  cases h with
  | mk hhead => exact hhead

theorem mapHead {block : Block} {f : Head → Head} (h : block.WellFormed) (hf : (f block.head).WellFormed) :
    (block.mapHead f).WellFormed := by
  cases h with
  | mk _ hvalues hstatements hv hs hn => exact .mk hf hvalues hstatements hv hs hn

theorem plugValue {block child : Block} {slot : Nat} (h : block.WellFormed) (hslot : slot < twoTo 64)
    (hchild : child.WellFormed) : (block.plugValue slot child).WellFormed := by
  cases h with
  | mk hhead hvalues hstatements hv hs hn =>
    refine .mk hhead (hvalues.insert hslot child) hstatements (fun entry he => ?_) hs hn
    rcases Slots.mem_insert he with rfl | he
    · exact hchild
    · exact hv entry he

theorem plugStatement {block child : Block} {slot : Nat} (h : block.WellFormed) (hslot : slot < twoTo 64)
    (hchild : child.WellFormed) : (block.plugStatement slot child).WellFormed := by
  cases h with
  | mk hhead hvalues hstatements hv hs hn =>
    refine .mk hhead hvalues (hstatements.insert hslot child) hv (fun entry he => ?_) hn
    rcases Slots.mem_insert he with rfl | he
    · exact hchild
    · exact hs entry he

theorem plugNext {block below : Block} (h : block.WellFormed) (hbelow : below.WellFormed) :
    (block.plugNext below).WellFormed := by
  cases h with
  | mk hhead hvalues hstatements hv hs =>
    exact .mk hhead hvalues hstatements hv hs fun b hb => Option.mem_some_iff.1 hb ▸ hbelow

end Block.WellFormed

/-! ## The layout -/

/-- a fact about all nodes follows from its step: from the nodes inside an element -/
theorem Markup.Node.induction {motive : Node → Prop}
    (element : ∀ name attributes children, (∀ child ∈ children, motive child) →
      motive (.element name attributes children))
    (text : ∀ content, motive (.text content)) (aside : motive .aside) (node : Node) : motive node :=
  @Node.rec motive (fun nodes => ∀ node ∈ nodes, motive node) element text aside (fun _ h => nomatch h)
    (fun _ _ first rest => List.forall_mem_cons.2 ⟨first, rest⟩) node

namespace Workspace

/-- the nodes of a text: one piece, and none when there is nothing to write -/
def content (text : String) : List Node :=
  if text = "" then [] else [.text text]

def slotElement (tag : String) (slot : Nat) (children : List Node) : Node :=
  .element tag [("slot", toString slot)] children

def fields (tag : String) (entries : List (Nat × String)) : List Node :=
  entries.map fun entry => slotElement tag entry.1 (content entry.2)

def countsElement (head : Head) : Node :=
  .element "mutation"
    [("items", toString head.items), ("elseif", toString head.elseifs), ("else", toString head.otherwise)] []

end Workspace

mutual

/-- the element that lays out a block -/
def Block.element : Block → Node
  | .mk head values statements next =>
    .element "block" [("type", head.kind)]
      (Workspace.fields "title" head.titles ++ (Workspace.fields "label" head.labels ++
        (Workspace.fields "variable" head.variableNames ++ (Block.plugElements "value" values ++
          (Block.plugElements "statement" statements ++
            (Workspace.countsElement head :: Block.nextElements next))))))

def Block.plugElements (tag : String) : List (Nat × Block) → List Node
  | [] => []
  | (slot, child) :: rest => Workspace.slotElement tag slot [child.element] :: Block.plugElements tag rest

def Block.nextElements : Option Block → List Node
  | none => []
  | some below => [.element "next" [] [below.element]]

end

theorem Block.plugElements_eq_map (tag : String) (entries : List (Nat × Block)) :
    Block.plugElements tag entries =
      entries.map fun entry => Workspace.slotElement tag entry.1 [entry.2.element] := by
  induction entries with
  | nil => rfl
  | cons entry rest ih => rw [Block.plugElements, ih, List.map_cons]

/-- a text without white space has none at its ends -/
theorem Text.trim_of_not_isBlank {cs : List Char} (h : ∀ c ∈ cs, isBlank c = false) : trim cs = cs := by
  have hstart : ∀ ds : List Char, (∀ c ∈ ds, isBlank c = false) → ds.dropWhile isBlank = ds := by
    intro ds hds
    cases ds with
    | nil => rfl
    | cons c ds => rw [List.dropWhile_cons_of_neg (by simp [hds c List.mem_cons_self])]
  rw [trim, trimStart, hstart cs h, trimEnd, hstart cs.reverse fun c hc => h c (List.mem_reverse.1 hc),
    List.reverse_reverse]

namespace Workspace

/-! ## Numbers and texts read back -/

theorem isBlank_of_isDigit {c : Char} (h : c.isDigit) : Text.isBlank c = false := by
  simp only [Char.isDigit, Bool.and_eq_true, decide_eq_true_eq, ge_iff_le, UInt32.le_iff_toNat_le] at h
  have hlo : 48 ≤ c.toNat := h.1
  have hhi : c.toNat ≤ 57 := h.2
  simp only [Text.isBlank, Bool.or_eq_false_iff, Bool.and_eq_false_iff, decide_eq_false_iff_not,
    beq_eq_false_iff_ne]
  omega

theorem trim_of_isDigit {ds : List Char} (h : ∀ c ∈ ds, c.isDigit) : Text.trim ds = ds :=
  Text.trim_of_not_isBlank fun c hc => isBlank_of_isDigit (h c hc)

theorem readNatural?_toDigits (n : Nat) : Text.readNatural? (Nat.toDigits 10 n) = some n := by
  have hall : (Nat.toDigits 10 n).all Char.isDigit := List.all_eq_true.2 (Decimal.isDigit_toDigits n)
  rw [Text.readNatural?, hall, Decimal.readDigits_toDigits]
  simp [Nat.toDigits_ne_nil]

/-- **A number of 64 bits is read back from its decimal digits.** -/
theorem number?_repr {n : Nat} (h : n < twoTo 64) : number? (toString n) = some n := by
  have hdigits : (toString n).toList = Nat.toDigits 10 n := Nat.toList_repr
  rw [number?, hdigits, trim_of_isDigit (Decimal.isDigit_toDigits n)]
  have hsign : ∀ cs, Nat.toDigits 10 n ≠ '+' :: cs := fun cs hcs =>
    absurd (Decimal.isDigit_toDigits n '+' (hcs ▸ List.mem_cons_self)) (by decide)
  split
  next cs hcs => exact absurd hcs (hsign cs)
  next => rw [readNatural?_toDigits, Option.filter_some, if_pos (decide_eq_true h)]

theorem lt_of_number? {raw : String} {n : Nat} (h : number? raw = some n) : n < twoTo 64 := by
  simpa using (Option.filter_eq_some_iff.1 h).2

theorem slot_repr (tag kind : String) {n : Nat} (h : n < twoTo 64) :
    slot tag kind [("slot", toString n)] = .ok n := by
  simp only [slot, List.lookup_cons_self, number?_repr h]

theorem textOf_content (text : String) : textOf (content text) = text := by
  unfold content
  split_ifs with h
  · exact h.symm
  · simp [textOf]

theorem counts_element {head : Head} (kind : String) (acc : Head) (h : head.WellFormed) :
    counts kind [("items", toString head.items), ("elseif", toString head.elseifs), ("else", toString head.otherwise)]
      acc = .ok { acc with items := head.items, elseifs := head.elseifs, otherwise := head.otherwise } := by
  have hitems := number?_repr h.items
  have helseifs := number?_repr h.elseifs
  have hotherwise := number?_repr h.otherwise
  have hlookup (name : String) (values : List (String × String)) (raw : String) (n : Nat)
      (hraw : values.lookup name = some raw) (hn : number? raw = some n) : count name kind values = .ok n := by
    simp only [count, hraw, hn]
  rw [counts, hlookup "items" _ _ _ rfl hitems, hlookup "elseif" _ _ _ rfl helseifs,
    hlookup "else" _ _ _ rfl hotherwise]
  rfl

/-! ## Filling a block from its layout -/

-- its equations are made once here, and not by each of the lemmas that open it
attribute [local simp] fillOne

theorem fill_append {kind : String} {acc filled : Block} {before after : List Node}
    (h : fill kind acc before = .ok filled) : fill kind acc (before ++ after) = fill kind filled after := by
  induction before generalizing acc with
  | nil => cases h; rfl
  | cons node rest ih =>
    rw [List.cons_append, fill]
    rw [fill] at h
    cases hone : fillOne kind acc node with
    | error cause => rw [hone] at h; cases h
    | ok first => rw [hone] at h; exact ih h

/-- the element of a block is one, so it is what a slot's element holds -/
theorem firstNamed_element (child : Block) : firstNamed "block" [child.element] = some (block child.element) := by
  obtain ⟨head, values, statements, next⟩ := child
  simp [firstNamed, isNamed, Block.element]

/-- elements for ascending slots, each filling its own, fill them all -/
theorem fill_entries {α : Type} {kind : String} {node : Nat × α → Node} (filled : List (Nat × α) → Block)
    {entries : List (Nat × α)} (hentries : Slots.Ordered entries)
    (hone : ∀ done, ∀ entry ∈ entries, fillOne kind (filled done) (node entry) =
      .ok (filled (Slots.insert entry.1 entry.2 done))) :
    fill kind (filled []) (entries.map node) = .ok (filled entries) := by
  suffices h : ∀ rest done : List (Nat × α), done ++ rest = entries →
      fill kind (filled done) (rest.map node) = .ok (filled entries) from h entries [] rfl
  intro rest
  induction rest with
  | nil =>
    intro done hdone
    rw [← hdone, List.append_nil]
    rfl
  | cons entry rest ih =>
    intro done hdone
    have hmem : entry ∈ entries := hdone ▸ List.mem_append_right _ List.mem_cons_self
    have habove : ∀ earlier ∈ done, earlier.1 < entry.1 := fun earlier he =>
      (List.pairwise_append.1 (hdone ▸ hentries.1)).2.2 earlier he entry List.mem_cons_self
    have hnext : fill kind (filled (done ++ [entry])) (rest.map node) = .ok (filled entries) :=
      ih (done ++ [entry]) (by rw [List.append_assoc]; exact hdone)
    rw [List.map_cons, fill, hone done entry hmem, Slots.insert_above entry.2 habove]
    exact hnext

theorem fill_titles {kind : String} (head : Head) {entries : List (Nat × String)} (h : Slots.Ordered entries) :
    fill kind (.leaf { head with titles := [] }) (fields "title" entries) =
      .ok (.leaf { head with titles := entries }) := by
  refine fill_entries (fun titles => .leaf { head with titles }) h fun done entry he => ?_
  simp only [slotElement, fillOne, slot_repr "title" kind (h.2 entry he), textOf_content]
  rfl

theorem fill_labels {kind : String} (head : Head) {entries : List (Nat × String)} (h : Slots.Ordered entries) :
    fill kind (.leaf { head with labels := [] }) (fields "label" entries) =
      .ok (.leaf { head with labels := entries }) := by
  refine fill_entries (fun labels => .leaf { head with labels }) h fun done entry he => ?_
  simp only [slotElement, fillOne, slot_repr "label" kind (h.2 entry he), textOf_content]
  rfl

theorem fill_variableNames {kind : String} (head : Head) {entries : List (Nat × String)}
    (h : Slots.Ordered entries) :
    fill kind (.leaf { head with variableNames := [] }) (fields "variable" entries) =
      .ok (.leaf { head with variableNames := entries }) := by
  refine fill_entries (fun variableNames => .leaf { head with variableNames }) h fun done entry he => ?_
  simp only [slotElement, fillOne, slot_repr "variable" kind (h.2 entry he), textOf_content]
  rfl

theorem fill_values {kind : String} (head : Head) {entries : List (Nat × Block)} (h : Slots.Ordered entries)
    (hload : ∀ entry ∈ entries, block entry.2.element = .ok entry.2) :
    fill kind (.leaf head) (Block.plugElements "value" entries) = .ok (.mk head entries [] none) := by
  rw [Block.plugElements_eq_map]
  refine fill_entries (fun values => .mk head values [] none) h fun done entry he => ?_
  simp only [slotElement, fillOne, firstNamed_element, slot_repr "value" kind (h.2 entry he), hload entry he]
  rfl

theorem fill_statements {kind : String} (head : Head) (values : List (Nat × Block))
    {entries : List (Nat × Block)} (h : Slots.Ordered entries)
    (hload : ∀ entry ∈ entries, block entry.2.element = .ok entry.2) :
    fill kind (.mk head values [] none) (Block.plugElements "statement" entries) =
      .ok (.mk head values entries none) := by
  rw [Block.plugElements_eq_map]
  refine fill_entries (fun statements => .mk head values statements none) h fun done entry he => ?_
  simp only [slotElement, fillOne, firstNamed_element, slot_repr "statement" kind (h.2 entry he), hload entry he]
  rfl

theorem fill_next {kind : String} (head : Head) (values statements : List (Nat × Block)) {next : Option Block}
    (hload : ∀ below ∈ next, block below.element = .ok below) :
    fill kind (.mk head values statements none) (Block.nextElements next) =
      .ok (.mk head values statements next) := by
  cases next with
  | none => rfl
  | some below =>
    simp only [Block.nextElements, fill, fillOne, firstNamed_element, hload below rfl]
    rfl

/-- **A well-formed block is loaded from its element.** -/
theorem block_element {top : Block} (h : top.WellFormed) : block top.element = .ok top := by
  induction top with
  | mk head values statements next ihv ihs ihn =>
    cases h with
    | mk hhead hvalues hstatements hv hs hn =>
    obtain ⟨kind, titles, labels, variableNames, items, elseifs, otherwise⟩ := head
    have hcounts : fillOne kind (.mk { Head.bare kind with titles, labels, variableNames } values statements none)
        (countsElement ⟨kind, titles, labels, variableNames, items, elseifs, otherwise⟩) =
        .ok (.mk ⟨kind, titles, labels, variableNames, items, elseifs, otherwise⟩ values statements none) := by
      simp only [countsElement, fillOne, counts_element kind _ hhead]
      rfl
    simp only [Block.element, block, List.lookup_cons_self]
    -- the groups of elements in turn, each from what the ones before it filled
    refine (fill_append (fill_titles (Head.bare kind) hhead.titles)).trans ?_
    refine (fill_append (fill_labels { Head.bare kind with titles } hhead.labels)).trans ?_
    refine (fill_append (fill_variableNames { Head.bare kind with titles, labels } hhead.variableNames)).trans ?_
    refine (fill_append (fill_values _ hvalues fun entry he => ihv entry he (hv entry he))).trans ?_
    refine (fill_append (fill_statements _ _ hstatements fun entry he => ihs entry he (hs entry he))).trans ?_
    rw [fill, hcounts]
    exact fill_next _ _ _ fun below hb => ihn below hb (hn below hb)

/-! ## What is loaded is well-formed -/

/-- loading the node as a block gives a well-formed one, and filling a well-formed block from it does -/
def LoadsWell (node : Node) : Prop :=
  (∀ block, Workspace.block node = .ok block → block.WellFormed) ∧
    ∀ kind acc filled, acc.WellFormed → fillOne kind acc node = .ok filled → filled.WellFormed

theorem lt_of_slot {tag kind : String} {attributes : List (String × String)} {n : Nat}
    (h : slot tag kind attributes = .ok n) : n < twoTo 64 := by
  unfold slot at h
  split at h
  · cases h; exact Decimal.twoTo_pos 64
  · split at h
    next hn => cases h; exact lt_of_number? hn
    next => cases h

theorem lt_of_count {name kind : String} {attributes : List (String × String)} {n : Nat}
    (h : count name kind attributes = .ok n) : n < twoTo 64 := by
  unfold count at h
  split at h
  · cases h; exact Decimal.twoTo_pos 64
  · split at h
    next hn => cases h; exact lt_of_number? hn
    next => cases h

theorem fill_wellFormed {kind : String} {children : List Node} (hc : ∀ child ∈ children, LoadsWell child)
    {acc filled : Block} (hacc : acc.WellFormed) (h : fill kind acc children = .ok filled) : filled.WellFormed := by
  induction children generalizing acc with
  | nil => cases h; exact hacc
  | cons node rest ih =>
    rw [fill] at h
    cases hone : fillOne kind acc node with
    | error cause => rw [hone] at h; cases h
    | ok first =>
      rw [hone] at h
      have hfirst := (hc node List.mem_cons_self).2 kind acc first hacc hone
      exact ih (fun child hchild => hc child (List.mem_cons_of_mem _ hchild)) hfirst h

theorem firstNamed_wellFormed {name : String} {children : List Node}
    (hc : ∀ child ∈ children, LoadsWell child) {block : Block}
    (h : firstNamed name children = some (.ok block)) : block.WellFormed := by
  induction children with
  | nil => cases h
  | cons node rest ih =>
    rw [firstNamed] at h
    split_ifs at h
    · exact (hc node List.mem_cons_self).1 block (Option.some.inj h)
    · exact ih (fun child hchild => hc child (List.mem_cons_of_mem _ hchild)) h

def plugged (children : List Node) : Option (Except LoadError Block) :=
  match firstNamed "block" children with
  | some loaded => some loaded
  | none => firstNamed "shadow" children

theorem plugged_wellFormed {children : List Node} (hc : ∀ child ∈ children, LoadsWell child) {block : Block}
    (h : plugged children = some (.ok block)) : block.WellFormed := by
  unfold plugged at h
  split at h
  next loaded hb =>
    rw [Option.some.inj h] at hb
    exact firstNamed_wellFormed hc hb
  next => exact firstNamed_wellFormed hc h

theorem bind_eq_ok {α β : Type} {first : Except LoadError α} {second : α → Except LoadError β} {b : β}
    (h : first >>= second = .ok b) : ∃ a, first = .ok a ∧ second a = .ok b := by
  cases first with
  | error cause => cases h
  | ok a => exact ⟨a, rfl, h⟩

theorem counts_wellFormed {kind : String} {attributes : List (String × String)} {acc head : Head}
    (hacc : acc.WellFormed) (h : counts kind attributes acc = .ok head) : head.WellFormed := by
  obtain ⟨items, hitems, h⟩ := bind_eq_ok h
  obtain ⟨elseifs, helseifs, h⟩ := bind_eq_ok h
  obtain ⟨otherwise, hotherwise, h⟩ := bind_eq_ok h
  cases h
  exact ⟨hacc.titles, hacc.labels, hacc.variableNames, lt_of_count hitems, lt_of_count helseifs,
    lt_of_count hotherwise⟩

theorem fillOne_wellFormed {tag : String} {attributes : List (String × String)} {children : List Node}
    (hc : ∀ child ∈ children, LoadsWell child) {kind : String} {acc filled : Block} (hacc : acc.WellFormed)
    (h : fillOne kind acc (.element tag attributes children) = .ok filled) : filled.WellFormed := by
  have hhead := hacc.head
  unfold fillOne at h
  simp only at h
  split at h
  · obtain ⟨slot, hslot, h⟩ := bind_eq_ok h
    cases h
    exact hacc.mapHead { hhead with titles := hhead.titles.insert (lt_of_slot hslot) _ }
  · obtain ⟨slot, hslot, h⟩ := bind_eq_ok h
    cases h
    exact hacc.mapHead { hhead with labels := hhead.labels.insert (lt_of_slot hslot) _ }
  · obtain ⟨slot, hslot, h⟩ := bind_eq_ok h
    cases h
    exact hacc.mapHead { hhead with variableNames := hhead.variableNames.insert (lt_of_slot hslot) _ }
  · split at h
    · cases h; exact hacc
    next loaded hloaded =>
      obtain ⟨slot, hslot, h⟩ := bind_eq_ok h
      obtain ⟨child, hchild, h⟩ := bind_eq_ok h
      cases h
      exact hacc.plugValue (lt_of_slot hslot) (plugged_wellFormed hc (hchild ▸ hloaded))
  · split at h
    · cases h; exact hacc
    next loaded hloaded =>
      obtain ⟨slot, hslot, h⟩ := bind_eq_ok h
      obtain ⟨child, hchild, h⟩ := bind_eq_ok h
      cases h
      exact hacc.plugStatement (lt_of_slot hslot) (plugged_wellFormed hc (hchild ▸ hloaded))
  · obtain ⟨head, hcounts, h⟩ := bind_eq_ok h
    cases h
    exact hacc.mapHead (counts_wellFormed hhead hcounts)
  · split at h
    · cases h; exact hacc
    next loaded hloaded =>
      obtain ⟨below, hbelow, h⟩ := bind_eq_ok h
      cases h
      exact hacc.plugNext (plugged_wellFormed hc (hbelow ▸ hloaded))
  · cases h; exact hacc

theorem loadsWell (node : Node) : LoadsWell node := by
  induction node using Node.induction with
  | element tag attributes children ih =>
    refine ⟨fun loaded h => ?_, fun kind acc filled hacc h => fillOne_wellFormed ih hacc h⟩
    rw [block] at h
    split at h
    · cases h
    · exact fill_wellFormed ih (.bare _) h
  | text content =>
    refine ⟨fun loaded h => ?_, fun kind acc filled hacc h => ?_⟩
    · cases h
    · cases h; exact hacc
  | aside =>
    refine ⟨fun loaded h => ?_, fun kind acc filled hacc h => ?_⟩
    · cases h
    · cases h; exact hacc

/-- **Whatever is loaded is well-formed.** -/
theorem wellFormed_block {node : Node} {loaded : Block} (h : block node = .ok loaded) : loaded.WellFormed :=
  (loadsWell node).1 loaded h

/-- what was loaded is loaded again from its layout, however its own document was written -/
theorem block_element_of_block {node : Node} {loaded : Block} (h : block node = .ok loaded) :
    block loaded.element = .ok loaded :=
  block_element (wellFormed_block h)

/-! ## Whole workspaces -/

theorem isNamed_element (top : Block) : isNamed "block" top.element = true := by
  obtain ⟨head, values, statements, next⟩ := top
  simp [isNamed, Block.element]

/-- a row of elements loads exactly when each of them does -/
theorem blocks_elements_iff (tops : List Block) :
    blocks (tops.map Block.element) = .ok tops ↔ ∀ top ∈ tops, block top.element = .ok top := by
  induction tops with
  | nil => simp [blocks]
  | cons top rest ih =>
    rw [List.map_cons, blocks, if_pos (isNamed_element top), List.forall_mem_cons, ← ih]
    constructor
    · intro h
      obtain ⟨first, hfirst, h⟩ := bind_eq_ok h
      obtain ⟨others, hothers, h⟩ := bind_eq_ok h
      cases h
      exact ⟨hfirst, hothers⟩
    · rintro ⟨hfirst, hothers⟩
      rw [hfirst, hothers]
      rfl

theorem block_element_iff (top : Block) : block top.element = .ok top ↔ top.WellFormed :=
  ⟨wellFormed_block, block_element⟩

/-- **Loading inverts the layout.** A block is loaded from its element exactly when its slots and counts fit in
64 bits and its slots are in order, at every depth; and a document that holds the elements of such blocks
loads to these blocks in order. -/
theorem loading_inverts_layout :
    (∀ top : Block, block top.element = .ok top ↔ top.WellFormed) ∧
      ∀ (attributes : List (String × String)) (tops : List Block),
        ofRoot (.element "xml" attributes (tops.map Block.element)) = .ok tops ↔
          ∀ top ∈ tops, top.WellFormed := by
  refine ⟨block_element_iff, fun attributes tops => ?_⟩
  rw [ofRoot, if_pos rfl, blocks_elements_iff]
  exact forall₂_congr fun top _ => block_element_iff top

/-- a counting loop with a body and a block below it, and a block with the largest count and slot -/
def nestedTops : List Block :=
  [.mk { Head.bare "controls_for" with variableNames := [(0, "i")] } [(0, .number "1"), (1, .number "3")]
      [(0, .mk (Head.bare "text_print") [(0, .variableGet "i")] [] none)]
      (some (.leaf { Head.bare "controls_flow_statements" with titles := [(0, "BREAK")] })),
    .leaf { Head.bare "text_join" with labels := [(0, ""), (twoTo 64 - 1, "a < b")], items := twoTo 64 - 1 }]

theorem nestedTops_load_back :
    (∀ top ∈ nestedTops, top.WellFormed) ∧
      ofRoot (.element "xml" [] (nestedTops.map Block.element)) = .ok nestedTops := by
  have hread : (Block.variableGet "i").WellFormed := .leaf (by decide)
  have hprint : (Block.mk (Head.bare "text_print") [(0, .variableGet "i")] [] none).WellFormed :=
    .mk (by decide) (by decide) (by decide) (by simpa using hread) (by simp) (by simp)
  have hwell : ∀ top ∈ nestedTops, top.WellFormed := by
    refine List.forall_mem_cons.2 ⟨?_, List.forall_mem_cons.2 ⟨.leaf (by decide), fun _ h => nomatch h⟩⟩
    refine .mk (by decide) (by decide) (by decide) ?_ (by simpa using hprint) ?_
    · have hone : (Block.number "1").WellFormed := .leaf (by decide)
      have hthree : (Block.number "3").WellFormed := .leaf (by decide)
      simp [hone, hthree]
    · intro below hbelow
      cases hbelow
      exact .leaf (by decide)
  exact ⟨hwell, (loading_inverts_layout.2 [] nestedTops).2 hwell⟩

end Workspace

end Blockwork
