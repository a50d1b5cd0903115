/-
JSON text is read back as the value it was laid out from.

- `string?_escape`, `Written.number?_render`: a string in its quotes and a written numeral are one token each.
- `Reads`: the characters that are left take the machine to a value. A token moves the machine on, a blank does
  not; so what stands in front of a text that is read can be read first, one token at a time.
- `Value.Fits.isRead`: a value that fits is read where a value may stand, whatever follows it. The induction is on
  the reason why it fits, and inside on the items or members that are still to come.
- `read?_render`: the layout of a value that fits is read back as the value.
- `Value.fits_ofNat`: a number of 64 bits fits; rounding it stays far below the largest finite number.
-/
import Blockwork.Json.Read
import Blockwork.Proofs.Numerals

namespace Blockwork.Json

/-! ## Strings -/

theorem hexValue?_hexDigit : ∀ n < 16, Text.hexValue? (Text.hexDigit n) = some n := by decide

/-- a control character as four hexadecimal digits -/
theorem hexCode?_control {n : Nat} (h : n < 0x20) :
    hexCode? '0' '0' (Text.hexDigit (n / 16)) (Text.hexDigit (n % 16)) = some n := by
  have hzero : Text.hexValue? '0' = some 0 := rfl
  simp only [hexCode?, hzero, hexValue?_hexDigit (n / 16) (by omega), hexValue?_hexDigit (n % 16) (by omega),
    bind, Option.bind, pure, Option.some.injEq]
  omega

/-- a text is read as one piece, whatever follows it -/
def IsPiece (text : List Char) (piece : Unit16) : Prop :=
  ∀ rest, pieces? (text ++ rest) = (pieces? rest).map fun (pieces, rest) => (piece :: pieces, rest)

theorem isPiece_letter {e c : Char} (hu : e ≠ 'u') (he : escaped? e = some c) : IsPiece ['\\', e] (.char c) := by
  intro rest
  rw [List.cons_append, List.cons_append, List.nil_append, pieces?, he]
  · cases pieces? rest <;> rfl
  · intro _ _ _ _ _ h _
    exact hu h

theorem isPiece_code {a b c d : Char} {n : Nat} (h : hexCode? a b c d = some n) :
    IsPiece ['\\', 'u', a, b, c, d] (.code n) := by
  intro rest
  simp only [List.cons_append, List.nil_append, pieces?, h]
  cases pieces? rest <;> rfl

theorem isPiece_plain {c : Char} (hq : c ≠ '"') (hb : c ≠ '\\') (hc : ¬ c.toNat < 0x20) : IsPiece [c] (.char c) := by
  intro rest
  rw [List.cons_append, List.nil_append, pieces?]
  · simp only [hc, hb, decide_false, Bool.or_false, Bool.false_eq_true, if_false]
  · exact hq
  · intro _ _ _ _ _ h _
    exact hb h
  · intro _ _ h _
    exact hb h

/-- how a character of a string is read: as itself, or as its number -/
theorem isPiece_escapeChar (c : Char) :
    IsPiece (escapeChar c) (.char c) ∨ (IsPiece (escapeChar c) (.code c.toNat) ∧ c.toNat < 0x20) := by
  unfold escapeChar
  split
  case h_8 =>
    split_ifs with hc
    · exact .inr ⟨isPiece_code (hexCode?_control hc), hc⟩
    · exact .inl (isPiece_plain ‹_› ‹_› hc)
  all_goals exact .inl (isPiece_letter (by decide) rfl)

theorem charsOf?_code {n : Nat} (h : n < 0x20) (rest : List Unit16) :
    charsOf? (.code n :: rest) = (charsOf? rest).map (Char.ofNat n :: ·) := by
  have hh : isHigh n = false := by
    simp only [isHigh, Bool.and_eq_false_iff, decide_eq_false_iff_not]
    omega
  have hl : isLow n = false := by
    simp only [isLow, Bool.and_eq_false_iff, decide_eq_false_iff_not]
    omega
  cases rest with
  | nil => simp [charsOf?, hh, hl]
  | cons piece rest => cases piece <;> simp [charsOf?, hh, hl]

/-- **A string is read back** from behind its opening quote. -/
theorem string?_escape (text : String) (rest : List Char) :
    string? (text.toList.flatMap escapeChar ++ '"' :: rest) = some (text, rest) := by
  have hpieces : ∀ cs : List Char, ∃ pieces, pieces? (cs.flatMap escapeChar ++ '"' :: rest) = some (pieces, rest) ∧
      charsOf? pieces = some cs := by
    intro cs
    induction cs with
    | nil => exact ⟨[], by simp [pieces?], rfl⟩
    | cons c cs ih =>
      obtain ⟨pieces, hread, hchars⟩ := ih
      rw [List.flatMap_cons, List.append_assoc]
      obtain hc | ⟨hc, hcontrol⟩ := isPiece_escapeChar c
      · refine ⟨.char c :: pieces, ?_, ?_⟩
        · rw [hc, hread]
          rfl
        · rw [charsOf?, hchars]
          rfl
      · refine ⟨.code c.toNat :: pieces, ?_, ?_⟩
        · rw [hc, hread]
          rfl
        · rw [charsOf?_code hcontrol, hchars, Char.ofNat_toNat]
          rfl
  obtain ⟨pieces, hread, hchars⟩ := hpieces text.toList
  simp only [string?, hread, hchars, bind, Option.bind, pure, String.ofList_toList]

/-! ## Numbers -/

/-- a numeral as JSON writes it, within the range of numbers -/
structure Written (n : Numeral) : Prop where
  whole : ∀ c ∈ n.whole, c.isDigit
  notEmpty : n.whole ≠ []
  /-- a zero stands in front of nothing -/
  noZero : n.whole.head? = some '0' → n.whole = ['0']
  fraction : ∀ c ∈ n.fraction, c.isDigit
  exponent : ∀ c ∈ n.exponent, c.isDigit
  sign : n.exponent = [] → n.exponentNegative = false
  inRange : inRange n

/-- a numeral ends in front of the text: it goes on with no digit, point or exponent mark -/
def EndsNumeral (rest : List Char) : Prop :=
  ∀ c ∈ rest.head?, c.isDigit = false ∧ c ≠ '.' ∧ c ≠ 'e' ∧ c ≠ 'E'

theorem digits_append {ds rest : List Char} (hd : ∀ c ∈ ds, c.isDigit) (hr : ∀ c ∈ rest.head?, c.isDigit = false) :
    digits (ds ++ rest) = (ds, rest) := by
  have hstop : rest.takeWhile Char.isDigit = [] ∧ rest.dropWhile Char.isDigit = rest := by
    cases rest with
    | nil => exact ⟨rfl, rfl⟩
    | cons c rest =>
      have hc := hr c rfl
      simp [hc]
  rw [digits, List.takeWhile_append_of_pos hd, List.dropWhile_append_of_pos hd, hstop.1, hstop.2, List.append_nil]

theorem Written.whole?_append {n : Numeral} (h : Written n) {rest : List Char}
    (hr : ∀ c ∈ rest.head?, c.isDigit = false) : whole? (n.whole ++ rest) = some (n.whole, rest) := by
  rw [whole?, digits_append h.whole hr]
  have hzero := h.noZero
  cases hw : n.whole with
  | nil => exact absurd hw h.notEmpty
  | cons c ds =>
    rw [hw] at hzero
    split
    next heq => cases heq
    next heq =>
      cases heq
      obtain ⟨-, rfl⟩ := List.cons.inj (hzero rfl)
      rfl
    next heq => exact congrArg some heq.symm

def fractionText (n : Numeral) : List Char :=
  if n.fraction.isEmpty then [] else '.' :: n.fraction

def exponentText (n : Numeral) : List Char :=
  if n.exponent.isEmpty then [] else 'e' :: ((if n.exponentNegative then ['-'] else []) ++ n.exponent)

theorem Written.fraction?_append {n : Numeral} (h : Written n) {rest : List Char}
    (hr : ∀ c ∈ rest.head?, c.isDigit = false ∧ c ≠ '.') :
    fraction? (fractionText n ++ rest) = some (n.fraction, rest) := by
  unfold fractionText
  split_ifs with he
  · rw [List.isEmpty_iff] at he
    rw [he, List.nil_append, fraction?]
    intro more hm
    exact (hr '.' (by rw [hm]; rfl)).2 rfl
  · rw [List.cons_append, fraction?, digits_append h.fraction fun c hc => (hr c hc).1]
    simp only [he, Bool.false_eq_true, if_false]

theorem sign_digits {ds : List Char} (hd : ∀ c ∈ ds, c.isDigit) (hne : ds ≠ []) (rest : List Char) :
    Numeral.sign (ds ++ rest) = (false, ds ++ rest) := by
  cases ds with
  | nil => exact absurd rfl hne
  | cons c ds =>
    have hc := hd c List.mem_cons_self
    rw [List.cons_append, Numeral.sign]
    · rintro _ ⟨⟩
      cases hc
    · rintro _ ⟨⟩
      cases hc

theorem Written.exponent?_append {n : Numeral} (h : Written n) {rest : List Char} (hr : EndsNumeral rest) :
    exponent? (exponentText n ++ rest) = some (n.exponentNegative, n.exponent, rest) := by
  unfold exponentText
  by_cases he : n.exponent = []
  · rw [he, h.sign he]
    cases rest with
    | nil => rfl
    | cons c rest =>
      have hc := hr c rfl
      simp [exponent?, hc.2.2]
  · have hdigits := digits_append h.exponent fun c hc => (hr c hc).1
    cases hs : n.exponentNegative with
    | false => simp [exponent?, he, sign_digits h.exponent he, hdigits]
    | true => simp [exponent?, he, Numeral.sign, hdigits]

theorem renderNumeral_eq (n : Numeral) :
    renderNumeral n = (if n.negative then ['-'] else []) ++ (n.whole ++ (fractionText n ++ exponentText n)) := by
  simp only [renderNumeral, fractionText, exponentText, List.append_assoc]

theorem EndsNumeral.behindFraction {rest : List Char} (h : EndsNumeral rest) (n : Numeral) :
    ∀ c ∈ (exponentText n ++ rest).head?, c.isDigit = false ∧ c ≠ '.' := by
  rw [exponentText]
  by_cases he : n.exponent.isEmpty
  · rw [if_pos he]
    exact fun c hc => ⟨(h c hc).1, (h c hc).2.1⟩
  · rw [if_neg he]
    rintro c ⟨⟩
    decide

theorem EndsNumeral.behindWhole {rest : List Char} (h : EndsNumeral rest) (n : Numeral) :
    ∀ c ∈ (fractionText n ++ (exponentText n ++ rest)).head?, c.isDigit = false := by
  unfold fractionText
  split_ifs with he
  · exact fun c hc => (h.behindFraction n c hc).1
  · rintro c ⟨⟩
    decide

/-- **A written numeral is read back.** -/
theorem Written.number?_render {n : Numeral} (h : Written n) {rest : List Char} (hr : EndsNumeral rest) :
    number? (renderNumeral n ++ rest) = some (n, rest) := by
  have hwhole := h.whole?_append (hr.behindWhole n)
  have hfraction := h.fraction?_append (hr.behindFraction n)
  have hexponent := h.exponent?_append hr
  have hrange := h.inRange
  rw [renderNumeral_eq]
  simp only [List.append_assoc, number?]
  obtain ⟨negative, whole, fraction, exponentNegative, exponent⟩ := n
  cases negative with
  | true =>
    simp only [if_true, List.cons_append, List.nil_append, hwhole, hfraction, hexponent, bind, Option.bind, hrange]
  | false =>
    have hplain : ∀ more cs, whole ++ more ≠ '-' :: cs := by
      intro more cs hcs
      cases whole with
      | nil => exact h.notEmpty rfl
      | cons c ds =>
        obtain ⟨rfl, -⟩ := List.cons.inj hcs
        exact absurd (h.whole '-' List.mem_cons_self) (by decide)
    simp only [Bool.false_eq_true, if_false, List.nil_append]
    split
    next hcs => exact absurd hcs (hplain _ _)
    next => simp only [hwhole, hfraction, hexponent, bind, Option.bind, hrange, if_true]

/-! ## Tokens -/

theorem token?_number {c : Char} (h : c.isDigit ∨ c = '-') (cs : List Char) :
    token? (c :: cs) = (number? (c :: cs)).map fun (numeral, rest) => (.number numeral, rest) := by
  rw [token?.eq_def]
  split
  case h_1 heq => cases heq
  case h_12 => rfl
  all_goals
    next heq =>
      cases heq
      exact absurd h (by decide)

theorem Written.renderNumeral_cons {n : Numeral} (h : Written n) :
    ∃ c cs, renderNumeral n = c :: cs ∧ (c.isDigit ∨ c = '-') := by
  rw [renderNumeral_eq]
  split_ifs
  · exact ⟨'-', _, rfl, .inr rfl⟩
  · cases hw : n.whole with
    | nil => exact absurd hw h.notEmpty
    | cons c cs => exact ⟨c, _, rfl, .inl (h.whole c (by rw [hw]; exact List.mem_cons_self))⟩

theorem isBlank_of_starts {c : Char} (h : c.isDigit ∨ c = '-') : isBlank c = false := by
  rcases h with h | rfl
  · simp only [isBlank, Bool.or_eq_false_iff, beq_eq_false_iff_ne]
    refine ⟨⟨⟨?_, ?_⟩, ?_⟩, ?_⟩ <;>
      rintro rfl <;>
      cases h
  · rfl

/-! ## Reading on -/

/-- the characters that are left take the machine to the value -/
inductive Reads (value : Value) : Machine → List Char → Prop
  | done : Reads value ⟨[], .more value⟩ []
  | blank {m : Machine} {c : Char} {cs : List Char} : isBlank c → Reads value m cs → Reads value m (c :: cs)
  | token {m m' : Machine} {c : Char} {cs rest : List Char} (t : Token) : isBlank c = false →
      token? (c :: cs) = some (t, rest) → rest.length ≤ cs.length → m.take t = some m' → Reads value m' rest →
      Reads value m (c :: cs)

/-- the tokens that are left take the machine to the value -/
theorem Reads.takeAll {value : Value} {m : Machine} {cs : List Char} (h : Reads value m cs) {fuel : Nat}
    (hf : cs.length ≤ fuel) : (tokensWithin fuel cs).bind m.takeAll = some ⟨[], .more value⟩ := by
  induction h generalizing fuel with
  | done => cases fuel <;> rfl
  | @blank m c cs hc _ ih =>
    have hskip : tokensWithin fuel (c :: cs) = tokensWithin fuel cs := by
      unfold tokensWithin
      simp only [List.dropWhile_cons_of_pos hc]
    rw [hskip]
    exact ih (Nat.le_of_succ_le hf)
  | @token m m' c cs rest t hc ht hl hm _ ih =>
    cases fuel with
    | zero => cases hf
    | succ fuel =>
      -- the token took a character at least, so one less of the fuel is still enough
      have hrest := ih (Nat.le_trans hl (Nat.le_of_succ_le_succ hf))
      rw [tokensWithin.eq_def]
      simp only [List.dropWhile_cons, hc, Bool.false_eq_true, if_false, ht, bind, Option.bind]
      cases hw : tokensWithin fuel rest with
      | none =>
        rw [hw] at hrest
        cases hrest
      | some ts =>
        rw [hw] at hrest
        simp only [pure, Machine.takeAll, hm, Option.bind]
        exact hrest

/-- a token read in front of a text; `c` is its first character -/
theorem Reads.front {value : Value} {m m' : Machine} {text rest : List Char} (t : Token) {c : Char}
    (hc : text.head? = some c) (hb : isBlank c = false) (ht : token? (text ++ rest) = some (t, rest))
    (hm : m.take t = some m') (h : Reads value m' rest) : Reads value m (text ++ rest) := by
  obtain ⟨more, rfl⟩ := List.head?_eq_some_iff.1 hc
  exact .token t hb ht (by simp) hm h

theorem Reads.newLine {value : Value} {m : Machine} {rest : List Char} (level : Nat) (h : Reads value m rest) :
    Reads value m (newLine level ++ rest) := by
  have hblanks : ∀ n, Reads value m (List.replicate n ' ' ++ rest) := by
    intro n
    induction n with
    | zero => exact h
    | succ n ih => exact .blank rfl ih
  exact .blank rfl (hblanks (2 * level))

theorem Reads.quote {value : Value} {m m' : Machine} {rest : List Char} (text : String)
    (hm : m.take (.string text) = some m') (h : Reads value m' rest) : Reads value m (quote text ++ rest) := by
  refine .front (.string text) rfl rfl ?_ hm h
  have hread := string?_escape text rest
  simp only [Json.quote, List.cons_append, List.append_assoc, List.nil_append, token?, hread, Option.map_some]

/-- the first item of an array is read where a value may stand -/
theorem Reads.firstItem {value : Value} {frames : List Frame} {cs : List Char}
    (h : Reads value ⟨.array [] :: frames, .value⟩ cs) : Reads value ⟨frames, .firstItem⟩ cs := by
  generalize hm : (⟨.array [] :: frames, .value⟩ : Machine) = m at h
  induction h with
  | done => cases hm
  | blank hc _ ih => exact .blank hc (ih hm)
  | token t hc ht hl htake hrest _ =>
    subst hm
    refine .token t hc ht hl ?_ hrest
    cases t with
    | closeArray => cases htake
    | _ => exact htake

/-! ## Values -/

/-- a value that can be read back: its numerals are written ones, and `room` containers at most are open at a
time -/
inductive Value.Fits : Nat → Value → Prop
  | null (room : Nat) : Fits room .null
  | bool (room : Nat) (b : Bool) : Fits room (.bool b)
  | number (room : Nat) {n : Numeral} : Written n → Fits room (.number n)
  | string (room : Nat) (text : String) : Fits room (.string text)
  | array {room : Nat} {items : List Value} : (∀ item ∈ items, Fits room item) → Fits (room + 1) (.array items)
  | object {room : Nat} {members : List (String × Value)} : (∀ member ∈ members, Fits room member.2) →
      Fits (room + 1) (.object members)

theorem endsNumeral_cons {c : Char} (h : c.isDigit = false ∧ c ≠ '.' ∧ c ≠ 'e' ∧ c ≠ 'E') (rest : List Char) :
    EndsNumeral (c :: rest) := by
  rintro _ ⟨⟩
  exact h

theorem endsNumeral_items (level : Nat) (items : List Value) (rest : List Char) :
    EndsNumeral (Value.renderItems (level + 1) items ++ (newLine level ++ ']' :: rest)) := by
  cases items <;> exact endsNumeral_cons (by decide) _

theorem endsNumeral_members (level : Nat) (members : List (String × Value)) (rest : List Char) :
    EndsNumeral (Value.renderMembers (level + 1) members ++ (newLine level ++ '\x7d' :: rest)) := by
  cases members <;> exact endsNumeral_cons (by decide) _

/-- a value is read where a value may stand, with room for `room` more containers -/
def Value.IsRead (room : Nat) (v : Value) : Prop :=
  ∀ (value : Value) (frames : List Frame) (rest : List Char) (level : Nat), frames.length + room < depthLimit →
    EndsNumeral rest → Reads value ⟨frames, .more v⟩ rest → Reads value ⟨frames, .value⟩ (v.render level ++ rest)

/-- the items behind one, up to the end of the array -/
theorem Reads.items {room : Nat} {items : List Value} (hi : ∀ item ∈ items, item.IsRead room) {value v : Value}
    {frames : List Frame} (hroom : frames.length + 1 + room < depthLimit) (level : Nat) {before : List Value}
    {rest : List Char} (h : Reads value ⟨frames, .more (.array (before.reverse ++ v :: items))⟩ rest) :
    Reads value ⟨.array before :: frames, .more v⟩
      (Value.renderItems (level + 1) items ++ (Json.newLine level ++ ']' :: rest)) := by
  induction items generalizing before v with
  | nil =>
    rw [← List.reverse_cons] at h
    exact .newLine level (.token .closeArray rfl rfl le_rfl rfl h)
  | cons item items ih =>
    obtain ⟨hitem, hitems⟩ := List.forall_mem_cons.1 hi
    have hlater : Reads value ⟨frames, .more (.array ((v :: before).reverse ++ item :: items))⟩ rest := by
      simpa using h
    have hnext := ih hitems hlater
    simp only [Value.renderItems, List.cons_append, List.append_assoc]
    refine .token .comma rfl rfl le_rfl rfl (.newLine _ (hitem value _ _ _ hroom ?_ hnext))
    exact endsNumeral_items _ _ _

theorem Reads.member {room : Nat} {v : Value} (hv : v.IsRead room) {value : Value} {frames : List Frame}
    (hroom : frames.length + 1 + room < depthLimit) (level : Nat) {before : List (String × Value)} {name : String}
    {rest : List Char} (hr : EndsNumeral rest) (h : Reads value ⟨.object before name :: frames, .more v⟩ rest) :
    Reads value ⟨frames, .colon before name⟩ (':' :: ' ' :: (v.render level ++ rest)) :=
  .token .colon rfl rfl le_rfl rfl (.blank rfl (hv value _ _ _ hroom hr h))

/-- the members behind one, up to the end of the object -/
theorem Reads.members {room : Nat} {members : List (String × Value)} (hi : ∀ member ∈ members, member.2.IsRead room)
    {value v : Value} {name : String} {frames : List Frame} (hroom : frames.length + 1 + room < depthLimit)
    (level : Nat) {before : List (String × Value)} {rest : List Char}
    (h : Reads value ⟨frames, .more (.object (before.reverse ++ (name, v) :: members))⟩ rest) :
    Reads value ⟨.object before name :: frames, .more v⟩
      (Value.renderMembers (level + 1) members ++ (Json.newLine level ++ '\x7d' :: rest)) := by
  induction members generalizing before name v with
  | nil =>
    rw [← List.reverse_cons] at h
    exact .newLine level (.token .closeObject rfl rfl le_rfl rfl h)
  | cons member members ih =>
    obtain ⟨hmember, hmembers⟩ := List.forall_mem_cons.1 hi
    have hlater : Reads value ⟨frames, .more (.object (((name, v) :: before).reverse ++ member :: members))⟩ rest := by
      simpa using h
    have hnext := ih hmembers hlater
    simp only [Value.renderMembers, List.cons_append, List.append_assoc, List.nil_append]
    refine .token .comma rfl rfl le_rfl rfl (.newLine _ (.quote _ rfl (.member hmember hroom _ ?_ hnext)))
    exact endsNumeral_members _ _ _

theorem enter_of_room {frames : List Frame} {room : Nat} (h : frames.length + (room + 1) < depthLimit)
    (before awaiting : Awaiting) : Machine.enter ⟨frames, before⟩ awaiting = some ⟨frames, awaiting⟩ := by
  rw [Machine.enter, if_pos (by simp only; omega)]

/-- **A value that fits is read** where a value may stand. -/
theorem Value.Fits.isRead {room : Nat} {v : Value} (hv : v.Fits room) : v.IsRead room := by
  induction hv with
  | null => exact fun _ _ _ _ _ _ h => .front .null rfl rfl rfl rfl h
  | bool room b =>
    intro value frames rest level _ _ h
    cases b with
    | true => exact .front (.bool true) rfl rfl rfl rfl h
    | false => exact .front (.bool false) rfl rfl rfl rfl h
  | number room hn =>
    intro value frames rest level _ hr h
    obtain ⟨c, cs, hc, hfirst⟩ := hn.renderNumeral_cons
    have hnumber := hn.number?_render hr
    refine .front (.number _) (by rw [render, hc]; rfl) (isBlank_of_starts hfirst) ?_ rfl h
    rw [render, hc, List.cons_append, token?_number hfirst, ← List.cons_append, ← hc, hnumber]
    rfl
  | string room text => exact fun _ _ _ _ _ _ h => h.quote text rfl
  | @array room items _ ih =>
    intro value frames rest level hroom _ h
    have henter := enter_of_room hroom .value .firstItem
    cases items with
    | nil => exact .token .openArray rfl rfl le_rfl henter (.token .closeArray rfl rfl le_rfl rfl h)
    | cons first items =>
      obtain ⟨hfirst, hitems⟩ := List.forall_mem_cons.1 ih
      have hroom' : frames.length + 1 + room < depthLimit := by omega
      simp only [render, List.cons_append, List.append_assoc, List.nil_append]
      refine .token .openArray rfl rfl le_rfl henter (.newLine _ (.firstItem ?_))
      refine hfirst value _ _ _ hroom' ?_ (.items hitems hroom' level h)
      exact endsNumeral_items _ _ _
  | @object room members _ ih =>
    intro value frames rest level hroom _ h
    have henter := enter_of_room hroom .value .firstMember
    cases members with
    | nil => exact .token .openObject rfl rfl le_rfl henter (.token .closeObject rfl rfl le_rfl rfl h)
    | cons first members =>
      obtain ⟨hfirst, hmembers⟩ := List.forall_mem_cons.1 ih
      have hroom' : frames.length + 1 + room < depthLimit := by omega
      simp only [render, List.cons_append, List.append_assoc, List.nil_append]
      refine .token .openObject rfl rfl le_rfl henter (.newLine _ (.quote _ rfl ?_))
      exact .member hfirst hroom' _ (endsNumeral_members _ _ _) (.members hmembers hroom' level h)

/-- **The layout of a value is read back as the value.** -/
theorem read?_render {v : Value} {room : Nat} (hv : v.Fits room) (hroom : room < depthLimit) (level : Nat) :
    read? (String.ofList (v.render level)) = some v := by
  have hreads := hv.isRead v [] [] level (by simpa using hroom) (fun _ h => nomatch h) .done
  rw [List.append_nil] at hreads
  obtain ⟨tokens, htokens, htaken⟩ := Option.bind_eq_some_iff.1 (hreads.takeAll le_rfl)
  have hstart : Machine.start.takeAll tokens = some ⟨[], .more v⟩ := htaken
  simp only [read?, tokens?, String.toList_ofList, htokens, hstart, bind, Option.bind, Machine.result?]

end Blockwork.Json

namespace Blockwork

/-! ## Natural numbers -/

namespace Binary64

theorem twoTo_eq (k : Nat) : twoTo k = 2 ^ k := rfl

theorem bitLength_le {n k : Nat} (h : n < 2 ^ k) : bitLength n ≤ k := by
  unfold bitLength
  split_ifs with hn
  · exact Nat.zero_le k
  · exact (Nat.log2_lt hn).2 h

theorem lt_bitLength (n : Nat) : n < 2 ^ bitLength n := by
  unfold bitLength
  split_ifs with hn
  · simp [hn]
  · exact Nat.lt_log2_self

theorem roundHalfEven_le (num den : Nat) : roundHalfEven num den ≤ num / den + 1 := by
  simp only [roundHalfEven]
  split_ifs <;> omega

/-- a quotient rounded, in units of the smallest positive number -/
def roundUnits (negative : Bool) (units den : Nat) : Binary64 :=
  let p := bitLength (units / den) - 53
  let m := roundHalfEven units (den * twoTo p)
  let (m, p) := if m = twoTo 53 then (twoTo 52, p + 1) else (m, p)
  if p > 2045 then .infinite negative else .finite negative m p

-- sealed, because comparing the two sides would otherwise evaluate the power of two
seal twoTo in
theorem round_eq (negative : Bool) (num den : Nat) :
    round negative num den = roundUnits negative (num * twoTo 1074) den := rfl

theorem units_le {m p k : Nat} (hm : m ≤ 2 ^ 53) (hp : p ≤ k) : units m p ≤ 2 ^ (53 + k) := by
  rw [Nat.pow_add]
  exact Nat.mul_le_mul hm (Nat.pow_le_pow_right (by decide) hp)

/-- a quotient of a limited size is rounded to a finite number of about that size -/
theorem roundUnits_finite (negative : Bool) {num den k : Nat} (hk : k ≤ 2044) (h : num / den < 2 ^ (53 + k)) :
    ∃ m p, roundUnits negative num den = .finite negative m p ∧ units m p ≤ 2 ^ (53 + (k + 1)) := by
  have hlength := bitLength_le h
  have hbits := lt_bitLength (num / den)
  unfold roundUnits
  generalize bitLength (num / den) = length at hlength hbits ⊢
  have hbound : num / den < 2 ^ (length - 53) * 2 ^ 53 := by
    rw [← Nat.pow_add]
    exact lt_of_lt_of_le hbits (Nat.pow_le_pow_right (by decide) (by omega))
  have hquotient : num / (den * twoTo (length - 53)) < 2 ^ 53 := by
    rw [← Nat.div_div_eq_div_mul]
    exact Nat.div_lt_of_lt_mul hbound
  have hm := roundHalfEven_le num (den * twoTo (length - 53))
  by_cases hcarry : roundHalfEven num (den * twoTo (length - 53)) = twoTo 53
  · simp only [hcarry, if_true]
    rw [if_neg (by omega)]
    exact ⟨_, _, rfl, units_le (Nat.pow_le_pow_right (by decide) (by decide)) (by omega)⟩
  · simp only [hcarry, if_false]
    rw [if_neg (by omega)]
    exact ⟨_, _, rfl, units_le (by omega) (by omega)⟩

/-- a natural number with few enough binary digits is rounded to a finite number -/
theorem round_natural (negative : Bool) {n k : Nat} (hk : k ≤ 970) (h : n < 2 ^ k) :
    ∃ m p, round negative n 1 = .finite negative m p ∧ units m p ≤ 2 ^ (1075 + k) := by
  have hbound : n * twoTo 1074 / 1 < 2 ^ (53 + (1021 + k)) := by
    have hsplit : 2 ^ (53 + (1021 + k)) = 2 ^ k * twoTo 1074 := by
      rw [twoTo_eq, ← Nat.pow_add]
      congr 1
      omega
    rw [Nat.div_one, hsplit]
    exact Nat.mul_lt_mul_of_pos_right h (Decimal.twoTo_pos 1074)
  obtain ⟨m, p, hround, hunits⟩ := roundUnits_finite negative (by omega) hbound
  refine ⟨m, p, by rw [round_eq, hround], ?_⟩
  have hexponent : 53 + (1021 + k + 1) = 1075 + k := by omega
  rwa [hexponent] at hunits

/-- the product of two numbers of a limited size is finite -/
theorem product_finite {s t : Bool} {m p n q a b : Nat} (hm : units m p ≤ 2 ^ a) (hn : units n q ≤ 2 ^ b)
    (hk : a + b ≤ 3170) : (product (.finite s m p) (.finite t n q)).isFinite := by
  have hbound : units m p * units n q * twoTo 1074 / twoTo 2148 < 2 ^ (53 + 2044) := by
    rw [twoTo_eq, twoTo_eq]
    apply Nat.div_lt_of_lt_mul
    rw [← Nat.pow_add]
    calc units m p * units n q * 2 ^ 1074 ≤ 2 ^ a * 2 ^ b * 2 ^ 1074 :=
          Nat.mul_le_mul_right _ (Nat.mul_le_mul hm hn)
      _ = 2 ^ (a + b + 1074) := by rw [Nat.pow_add, Nat.pow_add]
      _ < 2 ^ (2148 + (53 + 2044)) := Nat.pow_lt_pow_right (by decide) (by omega)
  obtain ⟨r, u, hround, -⟩ := roundUnits_finite (s != t) le_rfl hbound
  rw [product, round_eq, hround]
  rfl

end Binary64

namespace Json

theorem extend_cons (n : Nat) (c : Char) (cs : List Char) :
    extend n (c :: cs) =
      match longer? n c with
      | some longer => extend longer cs
      | none => (n, cs.length + 1) := by
  rfl

theorem extend_of_lt {digits : List Char} {n : Nat}
    (h : digits.foldl (fun n c => 10 * n + (c.toNat - '0'.toNat)) n < twoTo 64) :
    extend n digits = (digits.foldl (fun n c => 10 * n + (c.toNat - '0'.toNat)) n, 0) := by
  have hgrows : ∀ (cs : List Char) (n : Nat), n ≤ cs.foldl (fun n c => 10 * n + (c.toNat - '0'.toNat)) n := by
    intro cs
    induction cs with
    | nil => exact fun n => le_rfl
    | cons c cs ih =>
      intro n
      have hrest := ih (10 * n + (c.toNat - '0'.toNat))
      rw [List.foldl_cons]
      omega
  induction digits generalizing n with
  | nil => rfl
  | cons c cs ih =>
    rw [List.foldl_cons] at h ⊢
    have hroom := Nat.lt_of_le_of_lt (hgrows cs _) h
    simp only [extend_cons, longer?, hroom, if_true]
    exact ih h

theorem leading_ofNat {n : Nat} (h : n < twoTo 64) :
    leading { negative := false, whole := Nat.toDigits 10 n, fraction := [], exponentNegative := false,
              exponent := [] } = (n, 0) := by
  have hvalue := Decimal.readDigits_toDigits n
  rw [Text.readDigits] at hvalue
  have hextend : extend 0 (Nat.toDigits 10 n) = (n, 0) := by
    rw [extend_of_lt (by rw [hvalue]; exact h), hvalue]
  simp only [leading, hextend]
  rfl

theorem head?_toDigits {n : Nat} (h : (Nat.toDigits 10 n).head? = some '0') : n = 0 := by
  induction n using Nat.strongRecOn with
  | ind n ih =>
    by_cases hn : n < 10
    · rw [Nat.toDigits_of_lt_base hn] at h
      have hdigits : ∀ d < 10, some (Nat.digitChar d) = some '0' → d = 0 := by decide
      exact hdigits n hn h
    · have hsplit := Nat.toDigits_of_base_le (b := 10) (by decide) (Nat.le_of_not_lt hn)
      rw [hsplit, List.head?_append_of_ne_nil _ Nat.toDigits_ne_nil] at h
      have hzero := ih (n / 10) (by omega) h
      omega

/-- a natural number of 64 bits is within the range of numbers -/
theorem inRange_ofNat {n : Nat} (h : n < twoTo 64) :
    inRange { negative := false, whole := Nat.toDigits 10 n, fraction := [], exponentNegative := false,
              exponent := [] } := by
  have hpower : tenTo (0 : Int).toNat < 2 ^ 1 := by decide
  obtain ⟨m, p, hn, hunits⟩ := Binary64.round_natural false (by decide) h
  obtain ⟨m', p', hone, hunits'⟩ := Binary64.round_natural false (by decide) hpower
  have hproduct := Binary64.product_finite (s := false) (t := false) hunits hunits' (by decide)
  simp only [inRange, leading_ofNat h, hn, hone, hproduct]
  simp

/-- **A number of 64 bits is written as a numeral that is read back.** -/
theorem Value.fits_ofNat (room : Nat) {n : Nat} (h : n < twoTo 64) : (Value.ofNat n).Fits room := by
  refine .number room {
    whole := Decimal.isDigit_toDigits n
    notEmpty := Nat.toDigits_ne_nil
    noZero := fun hzero => ?_
    fraction := fun _ hc => nomatch hc
    exponent := fun _ hc => nomatch hc
    sign := fun _ => rfl
    inRange := inRange_ofNat h }
  rw [head?_toDigits hzero]
  rfl

end Json

end Blockwork
