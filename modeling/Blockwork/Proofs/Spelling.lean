/-
Cutting put-together code into tokens.

A piece of code is cut into the same tokens wherever it stands, provided that what follows cannot lengthen
its last token. `Spells` is for texts that end in a sign or a bracket, where anything may follow; `Lexes` for
those that end in a name or a number, where something has to break it off. `Reading` adds that the tokens are
an expression of a level; its lemmas put expressions together the way the templates do.
-/
import Blockwork.Proofs.Grammar
import Blockwork.Proofs.Naming
import Blockwork.Proofs.Numerals
import Blockwork.Template.Piece

namespace Blockwork.Grammar

variable {language : Language}

/-! ## Cutting -/

/-- what follows cannot belong to a name or a number before it -/
def Breaks (language : Language) (rest : List Char) : Prop :=
  ∀ c cs, rest = c :: cs →
    Names.isNameChar c = false ∧ (c = '.' → language = .dart ∧ cs.head?.any Char.isDigit = false)

/-- a text that is cut into the given tokens whatever follows -/
def Spells (language : Language) (cs : List Char) (ts : List Token) : Prop :=
  ∀ rest, tokens language (cs ++ rest) = (tokens language rest).map (ts ++ ·)

/-- a text that is cut into the given tokens where what follows breaks it off -/
def Lexes (language : Language) (cs : List Char) (ts : List Token) : Prop :=
  ∀ rest, Breaks language rest → tokens language (cs ++ rest) = (tokens language rest).map (ts ++ ·)

theorem tokens_nil : tokens language [] = some [] := by
  rw [tokens]
  rfl

theorem tokens_of_scan {cs rest : List Char} {ts : List Token} (h : scan language cs = some (ts, rest)) :
    tokens language cs = (tokens language rest).map (ts ++ ·) := by
  have hne : cs ≠ [] := by
    rintro rfl
    cases h
  rw [tokens, if_neg hne]
  split
  · rename_i hn
    rw [h] at hn
    cases hn
  · rename_i hs
    rw [h] at hs
    obtain ⟨rfl, rfl⟩ := Prod.mk.inj (Option.some.inj hs)
    rfl

theorem tokens_of_scan_none {c : Char} {cs : List Char} (h : scan language (c :: cs) = none) :
    tokens language (c :: cs) = none := by
  rw [tokens, if_neg (List.cons_ne_nil c cs)]
  split
  · rfl
  · rename_i hs
    rw [h] at hs
    cases hs

/-- the tokens found in a number of scans, and what is left -/
def scans (language : Language) : Nat → List Char → Option (List Token × List Char)
  | 0, cs => some ([], cs)
  | n + 1, cs =>
    match scan language cs with
    | none => none
    | some (first, rest) => (scans language n rest).map fun (others, left) => (first ++ others, left)

theorem tokens_of_scans {n : Nat} {cs rest : List Char} {ts : List Token}
    (h : scans language n cs = some (ts, rest)) : tokens language cs = (tokens language rest).map (ts ++ ·) := by
  induction n generalizing cs ts with
  | zero =>
    obtain ⟨rfl, rfl⟩ := Prod.mk.inj (Option.some.inj h)
    simp
  | succ n ih =>
    rw [scans] at h
    split at h
    · cases h
    · rename_i first left hs
      simp only [Option.map_eq_some_iff, Prod.mk.injEq] at h
      obtain ⟨⟨others, left'⟩, hl, rfl, rfl⟩ := h
      rw [tokens_of_scan hs, ih hl, Option.map_map]
      simp [Function.comp_def]

/-- a fixed text is scanned as the list of its characters -/
theorem spells_ofList (n : Nat) {cs : List Char} {ts : List Token}
    (h : ∀ rest, scans language n (cs ++ rest) = some (ts, rest)) : Spells language (String.ofList cs).toList ts := by
  intro rest
  rw [String.toList_ofList]
  exact tokens_of_scans (h rest)

/-! ## Names and numbers -/

theorem scan_digit {c : Char} (h : c.isDigit) (cs : List Char) :
    scan language (c :: cs) =
      some ([.number (scanNumber language (c :: cs)).1], (scanNumber language (c :: cs)).2) := by
  rw [scan]
  · rw [if_pos h]
  all_goals
    rintro rfl
    exact absurd h (by decide)

theorem scan_name {c : Char} (h : Names.isNameChar c) (hd : ¬ c.isDigit) (cs : List Char) :
    scan language (c :: cs) =
      some ([.name ((c :: cs).takeWhile Names.isNameChar)], (c :: cs).dropWhile Names.isNameChar) := by
  rw [scan]
  · rw [if_neg hd, if_pos h]
  all_goals
    rintro rfl
    exact absurd h (by decide)

/-- a run of characters of a kind is cut off where another kind follows -/
theorem run_append {p : Char → Bool} {cs rest : List Char} (hc : ∀ c ∈ cs, p c) (hr : ∀ c ∈ rest.head?, p c = false) :
    (cs ++ rest).takeWhile p = cs ∧ (cs ++ rest).dropWhile p = rest := by
  rw [List.takeWhile_append_of_pos hc, List.dropWhile_append_of_pos hc]
  cases rest with
  | nil => simp
  | cons c rest =>
    have hf := hr c rfl
    simp [hf]

theorem Breaks.not_name {rest : List Char} (h : Breaks language rest) :
    ∀ c ∈ rest.head?, Names.isNameChar c = false := by
  cases rest with
  | nil => exact fun _ hc => nomatch hc
  | cons c rest =>
    intro d hd
    rw [List.head?_cons, Option.mem_some_iff] at hd
    exact hd ▸ (h c rest rfl).1

theorem Breaks.not_digit {rest : List Char} (h : Breaks language rest) : ∀ c ∈ rest.head?, c.isDigit = false := by
  intro c hc
  have hn := h.not_name c hc
  simp only [Names.isNameChar, Char.isAlphanum, Bool.or_eq_false_iff] at hn
  exact hn.1.2

theorem lexes_name {name : String} (h : Names.IsIdentifier name) : Lexes language name.toList [.name name.toList] := by
  intro rest hb
  obtain ⟨c, cs, he, hc, hd, hcs⟩ := h
  have hrun := run_append (List.forall_mem_cons.2 ⟨hc, hcs⟩) hb.not_name
  rw [he]
  refine tokens_of_scan ?_
  rw [List.cons_append, scan_name hc hd, ← List.cons_append, hrun.1, hrun.2]

theorem scanNumber_whole {ds rest : List Char} (hd : ∀ c ∈ ds, c.isDigit) (hb : Breaks language rest) :
    scanNumber language (ds ++ rest) = (ds, rest) := by
  obtain ⟨htake, hdrop⟩ := run_append hd hb.not_digit
  unfold scanNumber
  rw [htake, hdrop]
  split
  · rename_i after
    obtain ⟨hdart, hhead⟩ := (hb '.' after rfl).2 rfl
    rw [if_pos ⟨hdart, by simp [hhead]⟩]
  · rfl

theorem scanNumber_fraction {ds es rest : List Char} (hd : ∀ c ∈ ds, c.isDigit) (hne : es ≠ [])
    (he : ∀ c ∈ es, c.isDigit) (hb : Breaks language rest) :
    scanNumber language (ds ++ '.' :: es ++ rest) = (ds ++ '.' :: es, rest) := by
  have hpoint : ∀ c ∈ ('.' :: (es ++ rest)).head?, c.isDigit = false := by
    intro c hc
    rw [List.head?_cons, Option.mem_some_iff] at hc
    subst hc
    decide
  obtain ⟨htake, hdrop⟩ := run_append hd hpoint
  obtain ⟨htake', hdrop'⟩ := run_append he hb.not_digit
  have hhead : (es ++ rest).head?.any Char.isDigit := by
    obtain ⟨e, es, rfl⟩ := List.exists_cons_of_ne_nil hne
    simpa using he e List.mem_cons_self
  unfold scanNumber
  rw [List.append_assoc, List.cons_append, htake, hdrop]
  simp only [hhead, not_true_eq_false, and_false, if_false, htake', hdrop']

theorem lexes_number {cs : List Char} (h : IsNumeral cs) : Lexes language cs [.number cs] := by
  intro rest hb
  have hfirst : ∀ {ds : List Char}, ds ≠ [] → (∀ c ∈ ds, c.isDigit) → ∃ c ds', ds = c :: ds' ∧ c.isDigit := by
    intro ds hne hd
    obtain ⟨c, ds', rfl⟩ := List.exists_cons_of_ne_nil hne
    exact ⟨c, ds', rfl, hd c List.mem_cons_self⟩
  cases h with
  | whole hne hd =>
    have hscan := scanNumber_whole hd hb
    obtain ⟨c, ds, rfl, hc⟩ := hfirst hne hd
    refine tokens_of_scan ?_
    rw [List.cons_append] at hscan ⊢
    rw [scan_digit hc, hscan]
  | fraction hne hd hne' he =>
    have hscan := scanNumber_fraction hd hne' he hb
    obtain ⟨c, ds, rfl, hc⟩ := hfirst hne hd
    refine tokens_of_scan ?_
    simp only [List.cons_append] at hscan ⊢
    rw [scan_digit hc, hscan]

/-! ## Texts one after the other -/

theorem breaks_nil : Breaks language [] := fun _ _ h => nomatch h

theorem breaks_cons {c : Char} (hn : Names.isNameChar c = false) (hp : c ≠ '.') (cs : List Char) :
    Breaks language (c :: cs) := by
  intro d ds h
  obtain ⟨rfl, rfl⟩ := List.cons.inj h
  exact ⟨hn, fun hd => absurd hd hp⟩

section

variable {cs ds : List Char} {ts us : List Token}

theorem Spells.lexes (h : Spells language cs ts) : Lexes language cs ts := fun rest _ => h rest

theorem Spells.append_lexes (h : Spells language cs ts) (h' : Lexes language ds us) :
    Lexes language (cs ++ ds) (ts ++ us) := by
  intro rest hb
  rw [List.append_assoc, h, h' rest hb, Option.map_map]
  simp [Function.comp_def]

theorem Lexes.append (h : Lexes language cs ts) (h' : Lexes language ds us)
    (hb : ∀ rest, Breaks language (ds ++ rest)) : Lexes language (cs ++ ds) (ts ++ us) := by
  intro rest hr
  rw [List.append_assoc, h _ (hb rest), h' rest hr, Option.map_map]
  simp [Function.comp_def]

theorem Lexes.tokens_eq (h : Lexes language cs ts) : tokens language cs = some ts := by
  have hend := h [] breaks_nil
  simpa [tokens_nil] using hend

/-- a minus sign in front, where it does not become a decrement -/
theorem Lexes.minus (h : Lexes language cs ts) (hne : cs ≠ []) (hd : language = .python ∨ cs.head? ≠ some '-') :
    Lexes language ('-' :: cs) (.sign .minus :: ts) := by
  intro rest hb
  obtain ⟨c, cs, rfl⟩ := List.exists_cons_of_ne_nil hne
  have hscan : scan language ('-' :: (c :: cs ++ rest)) = some ([.sign .minus], c :: cs ++ rest) := by
    rw [scan, if_neg]
    rintro ⟨hl, hc⟩
    rcases hd with hd | hd
    · exact hl hd
    · exact hd hc
  rw [List.cons_append, tokens_of_scan hscan, h rest hb, Option.map_map]
  simp [Function.comp_def]

end

/-! ## Reading -/

/-- a text that is cut into an expression of a level -/
def Reading (language : Language) (level : Level) (cs : List Char) (t : Tree) : Prop :=
  ∃ ts, Lexes language cs ts ∧ Reads language level ts t

def pathTokens (first : String) (members : List String) : List Token :=
  .name first.toList :: members.flatMap fun name => [.point, .name name.toList]

theorem reads_path (first : String) (members : List String) :
    Reads language .primary (pathTokens first members) (path first members) := by
  have hmembers : ∀ (members : List String) (ts : List Token) (t : Tree), Reads language .primary ts t →
      Reads language .primary (ts ++ members.flatMap fun name => [.point, .name name.toList])
        (members.foldl (fun t name => .member t name.toList) t) := by
    intro members
    induction members with
    | nil =>
      intro ts t h
      simpa using h
    | cons name rest ih =>
      intro ts t h
      have hrest := ih _ _ (h.member name.toList)
      simpa using hrest
  exact hmembers members [.name first.toList] _ (.name first.toList)

theorem Reads.callAll {callee : List Token} {f : Tree} (hf : Reads language .primary callee f)
    {tss : List (List Token)} {xs : List Tree} (h : List.Forall₂ (Reads language .sum) tss xs) :
    Reads language .primary (callee ++ .opening :: (listed tss ++ [Token.closing])) (.call f xs) := by
  have hzip : ∀ argument ∈ tss.zip xs, Reads language .sum argument.1 argument.2 :=
    fun argument hm => (List.forall₂_iff_zip.1 h).2 hm
  have hlength := h.length_eq
  have hcall := Reads.call (tss.zip xs) hf hzip
  rwa [List.map_fst_zip hlength.le, List.map_snd_zip hlength.ge] at hcall

theorem Reads.ne_nil {level : Level} {ts : List Token} {t : Tree} (h : Reads language level ts t) : ts ≠ [] := by
  induction h with
  | ofPrimary _ ih => exact ih
  | ofPowered _ ih => exact ih
  | ofSigned _ ih => exact ih
  | ofProduct _ ih => exact ih
  | _ => simp

namespace Reading

variable {cs ds : List Char} {t u : Tree}

theorem toSigned (h : Reading language .primary cs t) : Reading language .signed cs t := by
  obtain ⟨ts, hl, hr⟩ := h
  exact ⟨ts, hl, hr.ofPrimary.ofPowered⟩

theorem toSum (h : Reading language .signed cs t) : Reading language .sum cs t := by
  obtain ⟨ts, hl, hr⟩ := h
  exact ⟨ts, hl, hr.ofSigned.ofProduct⟩

theorem ne_nil {level : Level} (h : Reading language level cs t) : cs ≠ [] := by
  rintro rfl
  obtain ⟨ts, hl, hr⟩ := h
  have he := hl.tokens_eq
  rw [tokens_nil] at he
  exact hr.ne_nil (Option.some.inj he).symm

/-- **A text that reads as an expression is read in one way only.** -/
theorem tokens_unique (h : Reading language .sum cs t) :
    ∃ ts, tokens language cs = some ts ∧ Reads language .sum ts t ∧ ∀ u, Reads language .sum ts u → u = t := by
  obtain ⟨ts, hl, hr⟩ := h
  exact ⟨ts, hl.tokens_eq, hr, fun u hu => hu.unique hr⟩

/-! ## Expressions put together -/

theorem bracketed (h : Reading language .sum cs t) : Reading language .primary ('(' :: (cs ++ [')'])) t := by
  obtain ⟨ts, hl, hr⟩ := h
  have hopening : Spells language ['('] [.opening] := fun rest => tokens_of_scan rfl
  have hclosing : Spells language [')'] [.closing] := fun rest => tokens_of_scan rfl
  have hinner := hl.append hclosing.lexes fun rest => breaks_cons (by decide) (by decide) rest
  exact ⟨_, hopening.append_lexes hinner, hr.bracket⟩

theorem negate (h : Reading language .signed cs t) (hd : language = .python ∨ cs.head? ≠ some '-') :
    Reading language .signed ('-' :: cs) (.negate t) := by
  have hne := h.ne_nil
  obtain ⟨ts, hl, hr⟩ := h
  exact ⟨_, hl.minus hne hd, hr.negate⟩

theorem binary {op : List Char} {sign : Sign} (hop : Spells language op [.sign sign])
    (hbreak : ∀ rest, Breaks language (op ++ rest)) (hs : sign.isAdditive ∨ sign.isMultiplicative)
    (h : Reading language .signed cs t) (h' : Reading language .signed ds u) :
    Reading language .sum (cs ++ (op ++ ds)) (.binary sign t u) := by
  obtain ⟨ts, hl, hr⟩ := h
  obtain ⟨us, hl', hr'⟩ := h'
  have hlex := hl.append (hop.append_lexes hl') fun rest => List.append_assoc op ds rest ▸ hbreak (ds ++ rest)
  rcases hs with hs | hs
  · exact ⟨_, hlex, hr.ofSigned.ofProduct.sum sign hs hr'.ofSigned⟩
  · exact ⟨_, hlex, (hr.ofSigned.product sign hs hr').ofProduct⟩

theorem power {op : List Char} (hpython : language = .python) (hop : Spells language op [.sign .power])
    (hbreak : ∀ rest, Breaks language (op ++ rest))
    (h : Reading language .primary cs t) (h' : Reading language .signed ds u) :
    Reading language .sum (cs ++ (op ++ ds)) (.binary .power t u) := by
  obtain ⟨ts, hl, hr⟩ := h
  obtain ⟨us, hl', hr'⟩ := h'
  have hlex := hl.append (hop.append_lexes hl') fun rest => List.append_assoc op ds rest ▸ hbreak (ds ++ rest)
  exact ⟨_, hlex, (hr.power hpython hr').ofPowered.ofSigned.ofProduct⟩

section

variable {before after : List Char} {callee divisor : List Token} {f d : Tree}

theorem call (hbefore : Spells language before (callee ++ [Token.opening])) (hf : Reads language .primary callee f)
    (hafter : Spells language after [.closing]) (hbreak : ∀ rest, Breaks language (after ++ rest))
    (h : Reading language .sum cs t) : Reading language .primary (before ++ (cs ++ after)) (.call f [t]) := by
  obtain ⟨ts, hl, hr⟩ := h
  have hlex := hbefore.append_lexes (hl.append hafter.lexes hbreak)
  have hcall := hf.callAll (.cons hr .nil)
  exact ⟨_, hlex, by simpa [listed] using hcall⟩

/-- a function called on a fixed number and an expression -/
theorem callAfter {digits : List Char}
    (hbefore : Spells language before (callee ++ [Token.opening, .number digits, .comma]))
    (hf : Reads language .primary callee f) (hafter : Spells language after [.closing])
    (hbreak : ∀ rest, Breaks language (after ++ rest)) (h : Reading language .sum cs t) :
    Reading language .primary (before ++ (cs ++ after)) (.call f [.number digits, t]) := by
  obtain ⟨ts, hl, hr⟩ := h
  have hlex := hbefore.append_lexes (hl.append hafter.lexes hbreak)
  have hnumber : Reads language .sum [.number digits] (.number digits) :=
    (Reads.number digits).ofPrimary.ofPowered.ofSigned.ofProduct
  have hcall := hf.callAll (.cons hnumber (.cons hr .nil))
  exact ⟨_, hlex, by simpa [listed] using hcall⟩

theorem callTwo {between : List Char} (hbefore : Spells language before (callee ++ [Token.opening]))
    (hf : Reads language .primary callee f) (hbetween : Spells language between [.comma])
    (hbreak : ∀ rest, Breaks language (between ++ rest)) (hafter : Spells language after [.closing])
    (hbreak' : ∀ rest, Breaks language (after ++ rest)) (h : Reading language .sum cs t)
    (h' : Reading language .sum ds u) :
    Reading language .primary (before ++ (cs ++ (between ++ (ds ++ after)))) (.call f [t, u]) := by
  obtain ⟨ts, hl, hr⟩ := h
  obtain ⟨us, hl', hr'⟩ := h'
  have hsecond := hbetween.append_lexes (hl'.append hafter.lexes hbreak')
  have hlex := hbefore.append_lexes (hl.append hsecond fun rest => List.append_assoc between _ rest ▸ hbreak _)
  have hcall := hf.callAll (.cons hr (.cons hr' .nil))
  exact ⟨_, hlex, by simpa [listed] using hcall⟩

theorem ofDegrees {pi : List Token} {p : Tree} {digits : List Char}
    (hbefore : Spells language before (callee ++ [Token.opening])) (hf : Reads language .primary callee f)
    (hafter : Spells language after ([Token.sign .divide, .number digits, .sign .times] ++ pi ++ [Token.closing]))
    (hp : Reads language .primary pi p) (hbreak : ∀ rest, Breaks language (after ++ rest))
    (h : Reading language .signed cs t) :
    Reading language .primary (before ++ (cs ++ after))
      (.call f [.binary .times (.binary .divide t (.number digits)) p]) := by
  obtain ⟨ts, hl, hr⟩ := h
  have hlex := hbefore.append_lexes (hl.append hafter.lexes hbreak)
  have hangle := ((hr.ofSigned.product .divide rfl (Reads.number digits).ofPrimary.ofPowered).product .times rfl
    hp.ofPrimary.ofPowered).ofProduct
  have hcall := hf.callAll (.cons hangle .nil)
  exact ⟨_, hlex, by simpa [listed] using hcall⟩

/-- the quotient of a call and what is written behind it -/
theorem callOver (hbefore : Spells language before (callee ++ [Token.opening])) (hf : Reads language .primary callee f)
    (hafter : Lexes language after ([Token.closing, .sign .divide] ++ divisor)) (hd : Reads language .primary divisor d)
    (hbreak : ∀ rest, Breaks language (after ++ rest)) (h : Reading language .sum cs t) :
    Reading language .sum (before ++ (cs ++ after)) (.binary .divide (.call f [t]) d) := by
  obtain ⟨ts, hl, hr⟩ := h
  have hlex := hbefore.append_lexes (hl.append hafter hbreak)
  have hcall := hf.callAll (.cons hr .nil)
  have hquotient := (hcall.ofPrimary.ofPowered.ofSigned.product .divide rfl hd.ofPrimary.ofPowered).ofProduct
  exact ⟨_, hlex, by simpa [listed] using hquotient⟩

theorem toDegrees {digits : List Char} (hbefore : Spells language before (callee ++ [Token.opening]))
    (hf : Reads language .primary callee f)
    (hafter : Lexes language after ([Token.closing, .sign .divide] ++ divisor ++ [Token.sign .times, .number digits]))
    (hd : Reads language .primary divisor d) (hbreak : ∀ rest, Breaks language (after ++ rest))
    (h : Reading language .sum cs t) :
    Reading language .sum (before ++ (cs ++ after))
      (.binary .times (.binary .divide (.call f [t]) d) (.number digits)) := by
  obtain ⟨ts, hl, hr⟩ := h
  have hlex := hbefore.append_lexes (hl.append hafter hbreak)
  have hcall := hf.callAll (.cons hr .nil)
  have hquotient := hcall.ofPrimary.ofPowered.ofSigned.product .divide rfl hd.ofPrimary.ofPowered
  have hdegrees := (hquotient.product .times rfl (Reads.number digits).ofPrimary.ofPowered).ofProduct
  exact ⟨_, hlex, by simpa [listed] using hdegrees⟩

theorem method {name : List Char} (hafter : Spells language after [.point, .name name, .opening, .closing])
    (hbreak : ∀ rest, Breaks language (after ++ rest)) (h : Reading language .primary cs t) :
    Reading language .primary (cs ++ after) (.call (.member t name) []) := by
  obtain ⟨ts, hl, hr⟩ := h
  have hlex := hl.append hafter.lexes hbreak
  have hcall := (hr.member name).callAll .nil
  exact ⟨_, hlex, by simpa [listed] using hcall⟩

end

end Reading

end Blockwork.Grammar
