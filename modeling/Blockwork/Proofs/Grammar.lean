/-
How the targets read an expression.

Text is read in two stages. `tokens` cuts it into tokens, each as long as it can be: two minus signs in a row
are one decrement in JavaScript and Dart, two asterisks are one power in Python, and a point behind digits
belongs to a number unless, in Dart, no digit follows it. `Reads` is the operator grammar over tokens: member
access and calls bind tightest, then in Python a power, whose right operand may carry a sign and whose left
operand may not, then the unary minus, then `*`, `/` and `%`, then `+` and `-`.

- `Reads.finish`: a machine with a stack of open operators and brackets follows every derivation.
- `Reads.unique`: so a row of tokens is read as at most one tree.
-/
import Blockwork.Language
import Blockwork.Names
import Mathlib.Tactic

namespace Blockwork.Grammar

/-! ## Tokens -/

inductive Sign
  | plus
  | minus
  | times
  | divide
  | remainder
  | power
  deriving DecidableEq

/-- a token of an expression; no production has a place for the decrement -/
inductive Token
  | number (digits : List Char)
  | name (letters : List Char)
  | literal (interior : List Char)
  | sign (sign : Sign)
  | decrement
  | point
  | comma
  | opening
  | closing
  deriving DecidableEq

/-- the number that a text of digits starts with, and what follows it -/
def scanNumber (language : Language) (cs : List Char) : List Char × List Char :=
  match cs.dropWhile Char.isDigit with
  | '.' :: after =>
    if language = .dart ∧ ¬ after.head?.any Char.isDigit then (cs.takeWhile Char.isDigit, '.' :: after)
    else (cs.takeWhile Char.isDigit ++ '.' :: after.takeWhile Char.isDigit, after.dropWhile Char.isDigit)
  | rest => (cs.takeWhile Char.isDigit, rest)

/-- the interior of a literal up to its closing quote, and what follows it -/
def scanLiteral : List Char → Option (List Char × List Char)
  | [] => none
  | '\n' :: _ => none
  | '\'' :: cs => some ([], cs)
  | '\\' :: c :: cs => (scanLiteral cs).map fun (interior, rest) => ('\\' :: c :: interior, rest)
  | c :: cs => (scanLiteral cs).map fun (interior, rest) => (c :: interior, rest)

/-- the token that a text starts with, or none for a blank, and what follows -/
def scan (language : Language) : List Char → Option (List Token × List Char)
  | [] => none
  | ' ' :: cs => some ([], cs)
  | '(' :: cs => some ([.opening], cs)
  | ')' :: cs => some ([.closing], cs)
  | ',' :: cs => some ([.comma], cs)
  | '.' :: cs => some ([.point], cs)
  | '+' :: cs => some ([.sign .plus], cs)
  | '/' :: cs => some ([.sign .divide], cs)
  | '%' :: cs => some ([.sign .remainder], cs)
  | '-' :: cs =>
    if language ≠ .python ∧ cs.head? = some '-' then some ([.decrement], cs.tail) else some ([.sign .minus], cs)
  | '*' :: cs =>
    if language = .python ∧ cs.head? = some '*' then some ([.sign .power], cs.tail) else some ([.sign .times], cs)
  | '\'' :: cs => (scanLiteral cs).map fun (interior, rest) => ([.literal interior], rest)
  | c :: cs =>
    if c.isDigit then some ([.number (scanNumber language (c :: cs)).1], (scanNumber language (c :: cs)).2)
    else if Names.isNameChar c then
      some ([.name ((c :: cs).takeWhile Names.isNameChar)], (c :: cs).dropWhile Names.isNameChar)
    else none

theorem scanLiteral_length {cs interior rest : List Char} (h : scanLiteral cs = some (interior, rest)) :
    rest.length < cs.length := by
  induction cs using scanLiteral.induct generalizing interior rest with
  | case1 => cases h
  | case2 => cases h
  | case3 cs =>
    simp only [scanLiteral, Option.some.injEq, Prod.mk.injEq] at h
    simp [← h.2]
  | case4 c cs ih =>
    simp only [scanLiteral, Option.map_eq_some_iff, Prod.mk.injEq] at h
    obtain ⟨⟨u, r⟩, hr, -, rfl⟩ := h
    have hlt := ih hr
    simp only [List.length_cons]
    omega
  | case5 c cs hn hq hb ih =>
    rw [scanLiteral] at h
    · simp only [Option.map_eq_some_iff, Prod.mk.injEq] at h
      obtain ⟨⟨u, r⟩, hr, -, rfl⟩ := h
      have hlt := ih hr
      simp only [List.length_cons]
      omega
    all_goals assumption

theorem scanNumber_length {language : Language} {c : Char} {cs : List Char} (hc : c.isDigit) :
    (scanNumber language (c :: cs)).2.length < (c :: cs).length := by
  have hdrop : ∀ cs : List Char, (cs.dropWhile Char.isDigit).length ≤ cs.length :=
    fun cs => (List.dropWhile_suffix _).length_le
  have hfirst : (c :: cs).dropWhile Char.isDigit = cs.dropWhile Char.isDigit := by simp [hc]
  have hrest := hdrop cs
  unfold scanNumber
  rw [hfirst]
  simp only [List.length_cons]
  split
  · rename_i after he
    have hafter := hdrop after
    rw [he, List.length_cons] at hrest
    split_ifs
    · simp only [List.length_cons]
      omega
    · simp only
      omega
  · simp only
    omega

theorem scan_length {language : Language} {cs rest : List Char} {ts : List Token}
    (h : scan language cs = some (ts, rest)) : rest.length < cs.length := by
  have hone : ∀ {c : Char} {cs : List Char} {t : List Token}, some (t, cs) = some (ts, rest) →
      rest.length < (c :: cs).length := by
    intro c cs t h
    obtain ⟨-, rfl⟩ := Prod.mk.inj (Option.some.inj h)
    simp
  have htwo : ∀ {c : Char} {cs : List Char} {t : List Token}, some (t, cs.tail) = some (ts, rest) →
      rest.length < (c :: cs).length := by
    intro c cs t h
    obtain ⟨-, rfl⟩ := Prod.mk.inj (Option.some.inj h)
    simp only [List.length_tail, List.length_cons]
    omega
  unfold scan at h
  split at h
  case h_1 => cases h
  case h_10 | h_11 =>
    split_ifs at h
    · exact htwo h
    · exact hone h
  case h_12 =>
    simp only [Option.map_eq_some_iff, Prod.mk.injEq] at h
    obtain ⟨⟨interior, after⟩, hl, -, rfl⟩ := h
    have hlt := scanLiteral_length hl
    simp only [List.length_cons]
    omega
  case h_13 c cs _ _ _ _ _ _ _ _ _ _ _ =>
    split_ifs at h with hd hn
    · obtain ⟨-, rfl⟩ := Prod.mk.inj (Option.some.inj h)
      exact scanNumber_length hd
    · obtain ⟨-, rfl⟩ := Prod.mk.inj (Option.some.inj h)
      have hle := (List.dropWhile_suffix Names.isNameChar (l := cs)).length_le
      simp only [List.dropWhile_cons, hn, if_true, List.length_cons]
      omega
  all_goals exact hone h

def tokens (language : Language) (cs : List Char) : Option (List Token) :=
  if cs = [] then some []
  else
    match _h : scan language cs with
    | none => none
    | some (first, rest) => (tokens language rest).map (first ++ ·)
termination_by cs.length
decreasing_by exact scan_length _h

/-! ## Trees and productions -/

/-- what an expression says: brackets are gone, every operator has its operands -/
inductive Tree
  | number (digits : List Char)
  | name (letters : List Char)
  | literal (interior : List Char)
  | member (object : Tree) (name : List Char)
  | call (callee : Tree) (arguments : List Tree)
  | negate (operand : Tree)
  | binary (sign : Sign) (left right : Tree)

/-- a dotted path: a name and the members taken of it -/
def path (first : String) (members : List String) : Tree :=
  members.foldl (fun t name => .member t name.toList) (.name first.toList)

/-- how loosely an expression is held together, from sums to names and calls -/
inductive Level
  | sum
  | product
  | signed
  | powered
  | primary

def Sign.isAdditive : Sign → Bool
  | plus => true
  | minus => true
  | _ => false

def Sign.isMultiplicative : Sign → Bool
  | times => true
  | divide => true
  | remainder => true
  | _ => false

/-- rows of tokens with a comma between neighbours -/
def listed : List (List Token) → List Token
  | [] => []
  | [ts] => ts
  | ts :: rest => ts ++ .comma :: listed rest

/-- the operator grammar of a target -/
inductive Reads (language : Language) : Level → List Token → Tree → Prop
  | number (digits : List Char) : Reads language .primary [.number digits] (.number digits)
  | name (letters : List Char) : Reads language .primary [.name letters] (.name letters)
  | literal (interior : List Char) : Reads language .primary [.literal interior] (.literal interior)
  | bracket {ts : List Token} {t : Tree} : Reads language .sum ts t →
      Reads language .primary (.opening :: (ts ++ [.closing])) t
  | member {ts : List Token} {t : Tree} (name : List Char) : Reads language .primary ts t →
      Reads language .primary (ts ++ [.point, .name name]) (.member t name)
  | call {ts : List Token} {t : Tree} (arguments : List (List Token × Tree)) : Reads language .primary ts t →
      (∀ argument ∈ arguments, Reads language .sum argument.1 argument.2) →
      Reads language .primary (ts ++ .opening :: (listed (arguments.map Prod.fst) ++ [.closing]))
        (.call t (arguments.map Prod.snd))
  | ofPrimary {ts : List Token} {t : Tree} : Reads language .primary ts t → Reads language .powered ts t
  | power {ts us : List Token} {t u : Tree} : language = .python → Reads language .primary ts t →
      Reads language .signed us u → Reads language .powered (ts ++ .sign .power :: us) (.binary .power t u)
  | ofPowered {ts : List Token} {t : Tree} : Reads language .powered ts t → Reads language .signed ts t
  | negate {ts : List Token} {t : Tree} : Reads language .signed ts t →
      Reads language .signed (.sign .minus :: ts) (.negate t)
  | ofSigned {ts : List Token} {t : Tree} : Reads language .signed ts t → Reads language .product ts t
  | product {ts us : List Token} {t u : Tree} (sign : Sign) : sign.isMultiplicative → Reads language .product ts t →
      Reads language .signed us u → Reads language .product (ts ++ .sign sign :: us) (.binary sign t u)
  | ofProduct {ts : List Token} {t : Tree} : Reads language .product ts t → Reads language .sum ts t
  | sum {ts us : List Token} {t u : Tree} (sign : Sign) : sign.isAdditive → Reads language .sum ts t →
      Reads language .product us u → Reads language .sum (ts ++ .sign sign :: us) (.binary sign t u)

/-! ## A machine that reads -/

/-- what is still open while an expression is read -/
inductive Frame
  | negation
  | operand (sign : Sign) (left : Tree)
  | bracket
  | arguments (callee : Tree) (done : List Tree)

/-- how strongly a sign holds on to the operand on its left -/
def Sign.strength : Sign → Nat
  | plus => 1
  | minus => 1
  | times => 2
  | divide => 2
  | remainder => 2
  | power => 4

namespace Frame

/-- how strongly what is open holds on to the operand that follows; brackets do not -/
def strength : Frame → Nat
  | negation => 3
  | operand sign _ => sign.strength
  | bracket => 0
  | arguments _ _ => 0

/-- what is open with its operand filled in -/
def close : Frame → Tree → Tree
  | negation, t => .negate t
  | operand sign left, t => .binary sign left t
  | bracket, t => t
  | arguments _ _, t => t

end Frame

/-- how strongly a token pulls at the operand before it: what is open goes first if it is at least as
strong, and a power lets nothing go first -/
def Token.pull : Token → Nat
  | sign .power => 5
  | sign s => s.strength
  | point => 6
  | opening => 6
  | _ => 1

/-- close what is open and at least as strong -/
def settle (pull : Nat) : Tree → List Frame → Tree × List Frame
  | t, [] => (t, [])
  | t, frame :: stack => if pull ≤ frame.strength then settle pull (frame.close t) stack else (t, frame :: stack)

/-- the machine waits for an operand, or holds one, or has read a point behind one -/
inductive State
  | expecting (stack : List Frame)
  | holding (t : Tree) (stack : List Frame)
  | selecting (t : Tree) (stack : List Frame)

def State.step : State → Token → Option State
  | expecting stack, .number digits => some (holding (.number digits) stack)
  | expecting stack, .name letters => some (holding (.name letters) stack)
  | expecting stack, .literal interior => some (holding (.literal interior) stack)
  | expecting stack, .sign .minus => some (expecting (.negation :: stack))
  | expecting stack, .opening => some (expecting (.bracket :: stack))
  | expecting (.arguments callee [] :: stack), .closing => some (holding (.call callee []) stack)
  | selecting t stack, .name letters => some (holding (.member t letters) stack)
  | holding t stack, .point => some (selecting t stack)
  | holding t stack, .opening => some (expecting (.arguments t [] :: stack))
  | holding t stack, .sign s =>
    match settle (Token.sign s).pull t stack with
    | (t, stack) => some (expecting (.operand s t :: stack))
  | holding t stack, .comma =>
    match settle 1 t stack with
    | (t, .arguments callee done :: stack) => some (expecting (.arguments callee (done ++ [t]) :: stack))
    | _ => none
  | holding t stack, .closing =>
    match settle 1 t stack with
    | (t, .bracket :: stack) => some (holding t stack)
    | (t, .arguments callee done :: stack) => some (holding (.call callee (done ++ [t])) stack)
    | _ => none
  | _, _ => none

/-- read tokens to the end: the tree, if everything that was opened is closed -/
def State.finish : State → List Token → Option Tree
  | holding t stack, [] =>
    match settle 1 t stack with
    | (t, []) => some t
    | _ => none
  | _, [] => none
  | state, token :: rest => (state.step token).bind fun next => next.finish rest

/-! ## The machine follows every derivation -/

/-- what may be open around an expression of a level: only what is weaker than the level's signs -/
def Level.room : Level → Nat
  | sum => 1
  | product => 2
  | _ => 6

/-- how strongly the token behind an expression of a level may pull at it -/
def Level.reach : Level → Nat
  | sum => 1
  | product => 2
  | signed => 3
  | powered => 3
  | primary => 6

/-- whatever is open innermost is weaker than `limit` -/
def Open (limit : Nat) (stack : List Frame) : Prop :=
  ∀ frame ∈ stack.head?, frame.strength < limit

/-- whatever follows pulls no more strongly than `limit` -/
def Ends (limit : Nat) (rest : List Token) : Prop :=
  ∀ token ∈ rest.head?, token.pull ≤ limit

theorem Ends.mono {limit limit' : Nat} {rest : List Token} (h : Ends limit rest) (hl : limit ≤ limit') :
    Ends limit' rest :=
  fun token ht => (h token ht).trans hl

theorem ends_cons {limit : Nat} {token : Token} (h : token.pull ≤ limit) (rest : List Token) :
    Ends limit (token :: rest) := by
  intro t ht
  rw [List.head?_cons, Option.mem_some_iff] at ht
  exact ht ▸ h

theorem open_cons {limit : Nat} {frame : Frame} (h : frame.strength < limit) (stack : List Frame) :
    Open limit (frame :: stack) := by
  intro f hf
  rw [List.head?_cons, Option.mem_some_iff] at hf
  exact hf ▸ h

theorem pull_le (token : Token) : token.pull ≤ 6 := by
  cases token with
  | sign s => cases s <;> decide
  | _ => simp [Token.pull]

theorem strength_lt (frame : Frame) : frame.strength < 5 := by
  cases frame with
  | operand s left => cases s <;> simp [Frame.strength, Sign.strength]
  | _ => simp [Frame.strength]

theorem settle_open {pull : Nat} {stack : List Frame} (h : Open pull stack) (t : Tree) :
    settle pull t stack = (t, stack) := by
  cases stack with
  | nil => rfl
  | cons frame stack =>
    have hlt := h frame rfl
    rw [settle, if_neg (by omega)]

/-- an operand that nothing behind it pulls away closes what is open -/
theorem finish_close {frame : Frame} {rest : List Token} (hs : 1 ≤ frame.strength) (he : Ends frame.strength rest)
    (t : Tree) (stack : List Frame) :
    (State.holding t (frame :: stack)).finish rest = (State.holding (frame.close t) stack).finish rest := by
  have hsettle : ∀ pull ≤ frame.strength, settle pull t (frame :: stack) = settle pull (frame.close t) stack :=
    fun pull hp => by rw [settle, if_pos hp]
  cases rest with
  | nil => simp only [State.finish, hsettle 1 hs]
  | cons token rest =>
    have hp := he token rfl
    have hlt := strength_lt frame
    simp only [State.finish]
    cases token with
    | sign s => simp only [State.step, hsettle _ hp]
    | comma => simp only [State.step, hsettle 1 hs]
    | closing => simp only [State.step, hsettle 1 hs]
    | point => exact absurd hp (by simp only [Token.pull]; omega)
    | opening => exact absurd hp (by simp only [Token.pull]; omega)
    | number digits => rfl
    | name letters => rfl
    | literal interior => rfl
    | decrement => rfl

/-- a sign takes the operand before it, and its own operand when that is read -/
theorem finish_sign {sign : Sign} {t u : Tree} {stack : List Frame} {us rest : List Token}
    (hopen : Open (Token.sign sign).pull stack) (hends : Ends sign.strength rest)
    (hu : (State.expecting (.operand sign t :: stack)).finish (us ++ rest) =
      (State.holding u (.operand sign t :: stack)).finish rest) :
    (State.holding t stack).finish (.sign sign :: (us ++ rest)) =
      (State.holding (.binary sign t u) stack).finish rest := by
  have hone : 1 ≤ (Frame.operand sign t).strength := by cases sign <;> simp [Frame.strength, Sign.strength]
  simp only [State.finish, State.step, settle_open hopen, Option.bind_some, hu]
  exact finish_close hone hends u stack

/-- the arguments of a call are read one after the other -/
theorem finish_arguments {callee : Tree} {stack : List Frame} {rest : List Token}
    (arguments : List (List Token × Tree))
    (h : ∀ argument ∈ arguments, ∀ stack rest, Open 1 stack → Ends 1 rest →
      (State.expecting stack).finish (argument.1 ++ rest) = (State.holding argument.2 stack).finish rest)
    (done : List Tree) (hd : arguments = [] → done = []) :
    (State.expecting (.arguments callee done :: stack)).finish
        (listed (arguments.map Prod.fst) ++ .closing :: rest) =
      (State.holding (.call callee (done ++ arguments.map Prod.snd)) stack).finish rest := by
  have hopen : ∀ done, Open 1 (.arguments callee done :: stack) :=
    fun done => open_cons (by simp [Frame.strength]) stack
  induction arguments generalizing done with
  | nil =>
    rw [hd rfl]
    rfl
  | cons first others ih =>
    obtain ⟨hfirst, hothers⟩ := List.forall_mem_cons.1 h
    cases others with
    | nil =>
      simp only [List.map_cons, List.map_nil, listed]
      rw [hfirst _ _ (hopen done) (ends_cons (by decide) rest)]
      simp only [State.finish, State.step, settle_open (hopen done), Option.bind_some]
    | cons second others =>
      simp only [List.map_cons, listed, List.append_assoc, List.cons_append]
      rw [hfirst _ _ (hopen done) (ends_cons (by decide) _)]
      simp only [State.finish, State.step, settle_open (hopen done), Option.bind_some]
      have hrest := ih hothers (done ++ [first.2]) (by simp)
      simpa using hrest

/-- **The machine follows every derivation.** Reading an expression of a level, with only weaker operators
open around it and nothing behind it that pulls at its parts, is the same as holding its tree. -/
theorem Reads.finish {language : Language} {level : Level} {ts : List Token} {t : Tree}
    (h : Reads language level ts t) : ∀ stack rest, Open level.room stack → Ends level.reach rest →
      (State.expecting stack).finish (ts ++ rest) = (State.holding t stack).finish rest := by
  have hany : ∀ rest, Ends 6 rest := fun _ token _ => pull_le token
  have hfree : ∀ stack, Open 6 stack := fun _ frame _ => (strength_lt frame).trans (by decide)
  induction h with
  | number digits => exact fun stack rest _ _ => rfl
  | name letters => exact fun stack rest _ _ => rfl
  | literal interior => exact fun stack rest _ _ => rfl
  | bracket _ ih =>
    intro stack rest _ _
    have hopen : Open 1 (.bracket :: stack) := open_cons (by decide) stack
    have hsum := ih (.bracket :: stack) (.closing :: rest) hopen (ends_cons (by decide) rest)
    simp only [List.cons_append, List.append_assoc, List.nil_append, State.finish, State.step, Option.bind_some, hsum,
      settle_open hopen]
  | member name _ ih =>
    intro stack rest _ _
    have hobject := ih stack (.point :: .name name :: rest) (hfree stack) (hany _)
    simp only [List.append_assoc, List.cons_append, List.nil_append, hobject, State.finish, State.step,
      Option.bind_some]
  | call arguments _ _ ih iharguments =>
    intro stack rest _ _
    rw [List.append_assoc, List.cons_append, ih stack _ (hfree stack) (hany _)]
    simp only [State.finish, State.step, Option.bind_some, List.append_assoc, List.cons_append, List.nil_append]
    exact finish_arguments arguments iharguments [] fun _ => rfl
  | ofPrimary _ ih => exact fun stack rest _ _ => ih stack rest (hfree stack) (hany rest)
  | power _ _ _ ih ih' =>
    intro stack rest _ hends
    rw [List.append_assoc, List.cons_append, ih stack _ (hfree stack) (hany _)]
    exact finish_sign (fun frame _ => strength_lt frame) (hends.mono (by decide)) (ih' _ rest (hfree _) hends)
  | ofPowered _ ih => exact fun stack rest _ hends => ih stack rest (hfree stack) hends
  | negate _ ih =>
    intro stack rest _ hends
    simp only [List.cons_append, State.finish, State.step, Option.bind_some]
    rw [ih _ rest (hfree _) hends]
    exact finish_close (show 1 ≤ Frame.negation.strength by decide) hends _ stack
  | ofSigned _ ih => exact fun stack rest _ hends => ih stack rest (hfree stack) (hends.mono (by decide))
  | product sign hsign _ _ ih ih' =>
    intro stack rest hopen hends
    obtain ⟨hpull, hstrength⟩ : (Token.sign sign).pull = 2 ∧ sign.strength = 2 := by
      cases sign <;> first | exact ⟨rfl, rfl⟩ | cases hsign
    rw [List.append_assoc, List.cons_append, ih stack _ hopen (ends_cons hpull.le _)]
    refine finish_sign (hpull ▸ hopen) (hstrength ▸ hends) (ih' _ rest (hfree _) (hends.mono (by decide)))
  | ofProduct _ ih =>
    exact fun stack rest hopen hends =>
      ih stack rest (fun frame hf => (hopen frame hf).trans (by decide)) (hends.mono (by decide))
  | sum sign hsign _ _ ih ih' =>
    intro stack rest hopen hends
    obtain ⟨hpull, hstrength⟩ : (Token.sign sign).pull = 1 ∧ sign.strength = 1 := by
      cases sign <;> first | exact ⟨rfl, rfl⟩ | cases hsign
    rw [List.append_assoc, List.cons_append, ih stack _ hopen (ends_cons hpull.le _)]
    refine finish_sign (hpull ▸ hopen) (hstrength ▸ hends) (ih' _ rest (open_cons ?_ stack) (hends.mono (by decide)))
    exact hstrength.trans_lt (by decide)

/-- **A row of tokens is read in at most one way.** -/
theorem Reads.unique {language : Language} {ts : List Token} {t t' : Tree} (h : Reads language .sum ts t)
    (h' : Reads language .sum ts t') : t = t' := by
  have hrun := h.finish [] [] (fun _ hf => nomatch hf) fun _ ht => nomatch ht
  have hrun' := h'.finish [] [] (fun _ hf => nomatch hf) fun _ ht => nomatch ht
  rw [hrun] at hrun'
  exact Option.some.inj hrun'

end Blockwork.Grammar
