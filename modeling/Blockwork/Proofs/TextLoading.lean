/-
Loading the literal of a text block.

- `Workspace.textDocument`: the document of one text block, with the three characters that would start or end
  markup written as references.
- `Markup.InText.step`: one character of the literal, escaped or not, is taken into the piece of text that is being
  read, or held back as the possible start of a mark; `InText.feed` is this for all characters in a row.
- `Workspace.load_textDocument`: the document loads to one text block. Its literal is the one that was written, unless
  that is blank: a blank piece of text between two tags is dropped, and the literal is empty then.
- `generate_text`: the program of a text block is the quoted literal as a statement.
-/
import Blockwork.Proofs.Chronicle
import Blockwork.Proofs.Coding
import Blockwork.Proofs.Literals
import Blockwork.Workspace

namespace Blockwork

/-! ## The document of a text block -/

namespace Workspace

/-- a character as it is written between tags -/
def escapeChar : Char → List Char
  | '&' => "&amp;".toList
  | '<' => "&lt;".toList
  | '>' => "&gt;".toList
  | c => [c]

def beforeText : List Char := "<xml><block type=\"text\"><title slot=\"1\">".toList

def behindText : List Char := "</title></block></xml>".toList

def textDocument (literal : String) : String :=
  String.ofList (beforeText ++ (literal.toList.flatMap escapeChar ++ behindText))

end Workspace

namespace Markup

/-! ## Reading the literal -/

/-- the open elements around the literal, innermost first, with what the innermost has in it so far, last first -/
def titleTree (children : List Node) : Builder :=
  ⟨[⟨⟨"", "title"⟩, [("slot", "1")], ["", "xml", "xmlns"], children⟩,
    ⟨⟨"", "block"⟩, [("type", "text")], ["", "xml", "xmlns"], []⟩,
    ⟨⟨"", "xml"⟩, [], ["", "xml", "xmlns"], []⟩], none⟩

/-- the reader inside the title, `text` being the piece of text so far, last character first -/
def titleReader (text : List Char) : Reader :=
  ⟨.content, .v10, none, false, [], titleTree [], text, text.all isSpace⟩

/-- the characters that the scanner holds back between two characters of text -/
def Mode.held? : Mode → Option (List Char)
  | .ground => some []
  | .slash => some ['/']
  | .bracket => some [']']
  | .brackets => some [']', ']']
  | _ => none

/-- the document has been read up to a place inside the literal, `seen` being its characters so far -/
inductive InText (seen : List Char) : Machine → Prop
  | mk (mode : Mode) (text : List Char) {held : List Char} : mode.held? = some held → text.reverse ++ held = seen →
      InText seen ⟨⟨.text, mode⟩, titleReader text⟩

theorem Reader.run?_append {r r' : Reader} {before : List Token} (h : r.run? before = some (r', []))
    (after : List Token) : r.run? (before ++ after) = r'.run? after := by
  induction before generalizing r with
  | nil =>
    cases h
    rfl
  | cons t before ih =>
    simp only [run?, bind, Option.bind_eq_some_iff] at h
    obtain ⟨⟨r1, text⟩, hstep, ⟨r2, more⟩, hrest, hdone⟩ := h
    obtain ⟨rfl, htext⟩ := Prod.mk.inj (Option.some.inj hdone)
    obtain ⟨rfl, rfl⟩ := List.append_eq_nil_iff.1 htext
    rw [List.cons_append, run?, hstep]
    simp only [bind, Option.bind, ih hrest, List.nil_append]
    cases r2.run? after <;> rfl

/-- a character that is allowed is added to the text -/
theorem titleReader_char {c : Char} (h : Version.v10.allows c) (text : List Char) :
    (titleReader text).step? (.char c) = some (titleReader (c :: text), []) := by
  simp only [Reader.step?, titleReader, Reader.content?, Reader.char?, h, if_true, List.all_cons, Bool.and_comm]
  rfl

/-- a mark that stands for itself is added to the text -/
theorem titleReader_mark {t : Token} {c : Char} (hs : isSpace c = false) (ht : t.spelling = [c]) (text : List Char)
    (hmark : (titleReader text).step? t = ((titleReader text).mark? t).map Reader.alone) :
    (titleReader text).step? t = some (titleReader (c :: text), []) := by
  rw [hmark, Reader.mark?, ht]
  simp only [titleReader, List.all_cons, hs, Bool.false_and]
  rfl

theorem titleReader_chars {cs : List Char} (h : ∀ c ∈ cs, Version.v10.allows c) (text : List Char) :
    (titleReader text).run? (cs.map .char) = some (titleReader (cs.reverse ++ text), []) := by
  induction cs generalizing text with
  | nil => rfl
  | cons c cs ih =>
    obtain ⟨hc, hcs⟩ := List.forall_mem_cons.1 h
    rw [List.map_cons, Reader.run?, titleReader_char hc]
    simp only [bind, Option.bind, ih hcs, List.reverse_cons, List.append_assoc, List.cons_append, List.nil_append]
    rfl

theorem run?_singleton {r r' : Reader} {t : Token} (h : r.step? t = some (r', [])) : r.run? [t] = some (r', []) := by
  rw [Reader.run?, h]
  rfl

theorem held_allowed {mode : Mode} {held : List Char} (h : mode.held? = some held) :
    ∀ c ∈ held, Version.v10.allows c := by
  cases mode <;> cases h <;> exact List.all_eq_true.1 (by decide)

/-- what one character makes of the text when nothing is held back -/
theorem plain_text {c : Char} (ha : Version.v10.allows c) (hl : c ≠ '<') (hg : c ≠ '>') (hr : c ≠ '&')
    (text : List Char) : ∃ mode held tokens read, Scanner.plain .text c = (⟨.text, mode⟩, tokens) ∧
      mode.held? = some held ∧ (titleReader text).run? tokens = some (titleReader (read.reverse ++ text), []) ∧
      read ++ held = [c] := by
  unfold Scanner.plain
  simp only
  split
  · exact absurd rfl hl
  · exact ⟨_, _, _, [], rfl, rfl, rfl, rfl⟩
  · exact ⟨_, _, _, [], rfl, rfl, rfl, rfl⟩
  · exact absurd rfl hg
  · exact ⟨_, _, _, ['='], rfl, rfl, run?_singleton (titleReader_mark rfl rfl text rfl), rfl⟩
  · exact ⟨_, _, _, ['"'], rfl, rfl, run?_singleton (titleReader_mark rfl rfl text rfl), rfl⟩
  · exact ⟨_, _, _, ['\''], rfl, rfl, run?_singleton (titleReader_mark rfl rfl text rfl), rfl⟩
  · exact absurd rfl hr
  · exact ⟨_, _, _, [';'], rfl, rfl, run?_singleton (titleReader_mark rfl rfl text rfl), rfl⟩
  · exact ⟨_, _, _, [c], rfl, rfl, run?_singleton (titleReader_char ha text), rfl⟩

/-- a character that completes no mark with what is held back leaves it behind as text -/
theorem step?_behind {mode : Mode} {held : List Char} (h : mode.held? = some held) {c : Char} (hg : c ≠ '>')
    (hb : c ≠ ']') :
    Scanner.step? ⟨.text, mode⟩ c = some (Scanner.plainBehind (held.map .char) .text c) := by
  cases mode <;> cases h <;> simp [Scanner.step?, Scanner.plainBehind, hg, hb]

theorem Machine.feed?_cons {m m' : Machine} {c : Char} (h : m.step? c = some (m', [])) (cs : List Char) :
    m.feed? (c :: cs) = m'.feed? cs := by
  rw [feed?, h]

theorem Machine.step?_of_run {s s' : Scanner} {r r' : Reader} {c : Char} {tokens : List Token}
    (hs : s.step? c = some (s', tokens)) (hr : r.run? tokens = some (r', [])) :
    Machine.step? ⟨s, r⟩ c = some (⟨s', r'⟩, []) := by
  rw [step?, hs]
  simp only [bind, Option.bind, hr]
  rfl

def inReference (text : List Char) : Machine :=
  ⟨⟨.text, .ground⟩, (titleReader text).moveTo (.reference [])⟩

/-- an ampersand ends what is held back and starts a reference -/
theorem feed?_ampersand {mode : Mode} {held : List Char} (h : mode.held? = some held) (text cs : List Char) :
    Machine.feed? ⟨⟨.text, mode⟩, titleReader text⟩ ('&' :: cs) = (inReference (held.reverse ++ text)).feed? cs := by
  have hscan := step?_behind h (c := '&') (by decide) (by decide)
  have hread : (titleReader text).run? (held.map .char ++ [.ampersand]) =
      some ((titleReader (held.reverse ++ text)).moveTo (.reference []), []) := by
    rw [Reader.run?_append (titleReader_chars (held_allowed h) text)]
    rfl
  exact Machine.feed?_cons (Machine.step?_of_run hscan hread) cs

/-- a reference to one of the escaped characters puts it into the text -/
theorem feed?_reference {c : Char} {name : List Char} (hc : isSpace c = false)
    (hname : ∀ text rest, (inReference text).feed? (name ++ ';' :: rest) =
      Machine.feed? ⟨⟨.text, .ground⟩, { titleReader text with text := c :: text }.behindReference⟩ rest)
    (text rest : List Char) :
    (inReference text).feed? (name ++ ';' :: rest) =
      Machine.feed? ⟨⟨.text, .ground⟩, titleReader (c :: text)⟩ rest := by
  rw [hname]
  congr 2
  simp only [Reader.behindReference, titleReader, List.all_cons, hc, Bool.false_and, Bool.and_false]

/-- an escaped character is taken in; `name` is its reference -/
theorem InText.refer {seen : List Char} {m : Machine} (h : InText seen m) {c : Char} (name : List Char)
    (hc : isSpace c = false)
    (hname : ∀ text rest, (inReference text).feed? (name ++ ';' :: rest) =
      Machine.feed? ⟨⟨.text, .ground⟩, { titleReader text with text := c :: text }.behindReference⟩ rest) :
    ∃ m', InText (seen ++ [c]) m' ∧ ∀ rest, m.feed? ('&' :: (name ++ ';' :: rest)) = m'.feed? rest := by
  cases h with
  | @mk mode text held hheld hseen =>
  refine ⟨_, .mk .ground (c :: (held.reverse ++ text)) rfl (by simp [← hseen]), fun rest => ?_⟩
  rw [feed?_ampersand hheld]
  exact feed?_reference hc hname _ rest

/-- a bracket may be the start of a mark, with the brackets held back -/
theorem InText.bracket {seen : List Char} {m : Machine} (h : InText seen m) :
    ∃ m', InText (seen ++ [']']) m' ∧ ∀ rest, m.feed? (']' :: rest) = m'.feed? rest := by
  cases h with
  | @mk mode text held hheld hseen =>
  have hchar : ∀ c, Version.v10.allows c → (titleReader text).run? [.char c] = some (titleReader (c :: text), []) :=
    fun c hc => run?_singleton (titleReader_char hc text)
  cases mode with
  | ground =>
    cases hheld
    exact ⟨_, .mk .bracket text rfl (by simp [← hseen]), fun rest => rfl⟩
  | slash =>
    cases hheld
    exact ⟨_, .mk .bracket ('/' :: text) rfl (by simp [← hseen]),
      Machine.feed?_cons (Machine.step?_of_run rfl (hchar '/' (by decide)))⟩
  | bracket =>
    cases hheld
    exact ⟨_, .mk .brackets text rfl (by simp [← hseen]), fun rest => rfl⟩
  | brackets =>
    cases hheld
    exact ⟨_, .mk .brackets (']' :: text) rfl (by simp [← hseen]),
      Machine.feed?_cons (Machine.step?_of_run rfl (hchar ']' (by decide)))⟩
  | _ => cases hheld

/-- **One character of the literal**, as it is written, is taken in. -/
theorem InText.step {seen : List Char} {m : Machine} (h : InText seen m) {c : Char} (ha : Version.v10.allows c) :
    ∃ m', InText (seen ++ [c]) m' ∧ ∀ rest, m.feed? (Workspace.escapeChar c ++ rest) = m'.feed? rest := by
  by_cases hr : c = '&'
  · subst hr
    exact h.refer ['a', 'm', 'p'] rfl fun _ _ => rfl
  by_cases hl : c = '<'
  · subst hl
    exact h.refer ['l', 't'] rfl fun _ _ => rfl
  by_cases hg : c = '>'
  · subst hg
    exact h.refer ['g', 't'] rfl fun _ _ => rfl
  by_cases hb : c = ']'
  · subst hb
    exact h.bracket
  have hescape : Workspace.escapeChar c = [c] := by
    unfold Workspace.escapeChar
    split
    · exact absurd rfl hr
    · exact absurd rfl hl
    · exact absurd rfl hg
    · rfl
  cases h with
  | @mk mode text held hheld hseen =>
  -- what is held back becomes text, and the character is read behind it
  obtain ⟨mode', held', tokens, read, hplain, hheld', hread, htext⟩ := plain_text ha hl hg hr (held.reverse ++ text)
  have hscan := step?_behind hheld hg hb
  rw [Scanner.plainBehind, hplain] at hscan
  have hrun : (titleReader text).run? (held.map .char ++ tokens) =
      some (titleReader (read.reverse ++ (held.reverse ++ text)), []) := by
    rw [Reader.run?_append (titleReader_chars (held_allowed hheld) text)]
    exact hread
  refine ⟨_, .mk mode' (read.reverse ++ (held.reverse ++ text)) hheld' ?_, fun rest => ?_⟩
  · simp [← hseen, ← htext]
  · rw [hescape]
    exact Machine.feed?_cons (Machine.step?_of_run hscan hrun) rest

/-- **The whole literal is taken in.** -/
theorem InText.feed {seen : List Char} {m : Machine} (h : InText seen m) {cs : List Char}
    (ha : ∀ c ∈ cs, Version.v10.allows c) :
    ∃ m', InText (seen ++ cs) m' ∧ ∀ rest, m.feed? (cs.flatMap Workspace.escapeChar ++ rest) = m'.feed? rest := by
  induction cs generalizing seen m with
  | nil => exact ⟨m, by simpa using h, fun _ => rfl⟩
  | cons c cs ih =>
    obtain ⟨hc, hcs⟩ := List.forall_mem_cons.1 ha
    obtain ⟨m1, h1, hfeed1⟩ := h.step hc
    obtain ⟨m2, h2, hfeed2⟩ := ih h1 hcs
    refine ⟨m2, by simpa using h2, fun rest => ?_⟩
    rw [List.flatMap_cons, List.append_assoc, hfeed1, hfeed2]

/-- what the title has in it: the piece of text, unless it is blank -/
def titleChildren (text : List Char) : List Node :=
  if text.all isSpace then [] else [.text (String.ofList text)]

def textRoot (children : List Node) : Node :=
  .element "xml" [] [.element "block" [("type", "text")] [.element "title" [("slot", "1")] children]]

theorem titleReader_flush (text : List Char) :
    (titleReader text).flush =
      ⟨.content, .v10, none, false, [], titleTree (titleChildren text.reverse), [], true⟩ := by
  have hblank : text.reverse.all isSpace = text.all isSpace := List.all_reverse
  unfold Reader.flush titleChildren
  rw [hblank]
  cases hb : text.all isSpace with
  | true => simp [titleReader, hb]
  | false =>
    have hne : text.isEmpty = false := by
      cases text with
      | nil => cases hb
      | cons c cs => rfl
    simp [titleReader, hb, hne]
    rfl

theorem titleChildren_reverse (text : List Char) : (titleChildren text).reverse = titleChildren text := by
  unfold titleChildren
  split_ifs <;> rfl

/-- the end tags close the open elements, from inside the first of them on -/
theorem feed?_endTags (children : List Node) :
    Machine.feed? ⟨⟨.text, .ground⟩, ⟨.endTag [], .v10, none, false, [], titleTree children, [], true⟩⟩
        "title></block></xml>".toList =
      some ⟨.start, ⟨.content, .v10, none, false, [], ⟨[], some (textRoot children.reverse)⟩, [], true⟩⟩ := by rfl

theorem InText.finish {seen : List Char} {m : Machine} (h : InText seen m) :
    ∃ m', m.feed? Workspace.behindText = some m' ∧ m'.reader.encoding = none ∧
      m'.finish? = some (textRoot (titleChildren seen)) := by
  cases h with
  | @mk mode text held hheld hseen =>
  have hreversed : (held.reverse ++ text).reverse = seen := by simp [← hseen]
  have hscan := step?_behind hheld (c := '<') (by decide) (by decide)
  have hchars : (titleReader text).run? (held.map .char ++ []) = some (titleReader (held.reverse ++ text), []) := by
    rw [List.append_nil]
    exact titleReader_chars (held_allowed hheld) text
  have hless := Machine.feed?_cons (Machine.step?_of_run hscan hchars) "/title></block></xml>".toList
  -- the text is put into the tree when the end tag starts
  have hslash : Machine.step? ⟨⟨.text, .less⟩, titleReader (held.reverse ++ text)⟩ '/' =
      some (⟨⟨.text, .ground⟩, ⟨.endTag [], .v10, none, false, [], titleTree (titleChildren seen), [], true⟩⟩, []) := by
    refine Machine.step?_of_run rfl (run?_singleton (t := .endTagStart) ?_)
    change (((titleReader (held.reverse ++ text)).flush.inner? (.endTag [])).map Reader.alone) = _
    rw [titleReader_flush, hreversed]
    rfl
  have hend := Machine.feed?_cons hslash "title></block></xml>".toList
  refine ⟨_, hless.trans (hend.trans (feed?_endTags _)), rfl, ?_⟩
  rw [titleChildren_reverse]
  rfl

theorem feed?_beforeText : Machine.start.feed? Workspace.beforeText = some ⟨⟨.text, .ground⟩, titleReader []⟩ := by rfl

theorem Machine.feed?_append {m m' : Machine} {before : List Char} (h : m.feed? before = some m')
    (after : List Char) : m.feed? (before ++ after) = m'.feed? after := by
  induction before generalizing m with
  | nil =>
    cases h
    rfl
  | cons c before ih =>
    rw [feed?] at h
    rw [List.cons_append, feed?]
    split at h
    · cases h
    · exact ih h
    · split at h
      · cases h
      · exact ih h

/-- the characters of the document, read to their end -/
theorem feed?_textDocument {literal : String} (h : ∀ c ∈ literal.toList, Version.v10.allows c) :
    ∃ m, Machine.start.feed? (Workspace.textDocument literal).toList = some m ∧ m.reader.encoding = none ∧
      m.finish? = some (textRoot (titleChildren literal.toList)) := by
  have hstart : InText [] ⟨⟨.text, .ground⟩, titleReader []⟩ := .mk .ground [] rfl rfl
  obtain ⟨m, hm, hfeed⟩ := hstart.feed h
  obtain ⟨m', hfinish, hencoding, hroot⟩ := hm.finish
  refine ⟨m', ?_, hencoding, hroot⟩
  rw [Workspace.textDocument, String.toList_ofList, Machine.feed?_append feed?_beforeText, hfeed]
  exact hfinish

/-! ## The bytes of the document -/

theorem splitDeclaration_of_ne {bytes : List UInt8} (h : (0x3F : UInt8) ∉ bytes) (before rest : List UInt8) :
    splitDeclaration before (bytes ++ rest) = splitDeclaration (bytes.reverse ++ before) rest := by
  induction bytes generalizing before with
  | nil => rfl
  | cons b bytes ih =>
    simp only [List.mem_cons, not_or] at h
    rw [List.cons_append, splitDeclaration, ih h.2, List.reverse_cons, List.append_assoc]
    · rfl
    · intro _ hb _
      exact h.1 hb.symm

theorem splitDeclaration_of_not_closed {before bytes rest : List UInt8} (h : (0x3E : UInt8) ∉ bytes)
    (hr : rest.head? ≠ some 0x3E) :
    splitDeclaration before (bytes ++ rest) = splitDeclaration (bytes.reverse ++ before) rest := by
  induction bytes generalizing before with
  | nil => rfl
  | cons b bytes ih =>
    simp only [List.mem_cons, not_or] at h
    rw [List.cons_append, splitDeclaration, ih h.2, List.reverse_cons, List.append_assoc]
    · rfl
    · intro after _ hb
      cases bytes with
      | nil =>
        rw [List.nil_append] at hb
        rw [hb] at hr
        exact hr rfl
      | cons c bytes =>
        rw [List.cons_append] at hb
        exact h.2 ((List.cons.inj hb).1 ▸ List.mem_cons_self)

/-- no end of a declaration stands in the document, so that all of it is read at once -/
theorem splitDeclaration_textDocument (literal : String) :
    splitDeclaration [] (Bytes.ofText (Workspace.textDocument literal)) =
      (Bytes.ofText (Workspace.textDocument literal), []) := by
  have hescape : ∀ c, '>' ∉ Workspace.escapeChar c := by
    intro c
    unfold Workspace.escapeChar
    split
    · decide
    · decide
    · decide
    next hg => exact fun hm => hg (List.mem_singleton.1 hm).symm
  have hliteral : (0x3E : UInt8) ∉ (literal.toList.flatMap Workspace.escapeChar).flatMap String.utf8EncodeChar := by
    intro hm
    obtain ⟨c, hc, hb⟩ := List.mem_flatMap.1 hm
    obtain ⟨d, -, hd⟩ := List.mem_flatMap.1 hc
    refine Bytes.not_mem_encodeChar (d := '>') (by decide) (fun he => ?_) hb
    exact hescape d (he ▸ hd)
  have hbefore : (0x3F : UInt8) ∉ Workspace.beforeText.flatMap String.utf8EncodeChar := by decide
  have hbehind : (0x3F : UInt8) ∉ Workspace.behindText.flatMap String.utf8EncodeChar := by decide
  have hhead : (Workspace.behindText.flatMap String.utf8EncodeChar).head? ≠ some 0x3E := by decide
  have hrest := fun before => splitDeclaration_of_ne hbehind before []
  simp only [List.append_nil] at hrest
  rw [Workspace.textDocument, Bytes.ofText_ofList, List.flatMap_append, List.flatMap_append,
    splitDeclaration_of_ne hbefore, splitDeclaration_of_not_closed hliteral hhead, hrest, splitDeclaration]
  simp

/-- a document in UTF-8 that has no mark and no declaration is read from its characters -/
theorem ofBytes?_of_feed {text : String} {m : Machine} {root : Node}
    (hmark : Mark.split (Bytes.ofText text) = (.unmarked, Bytes.ofText text))
    (hsplit : splitDeclaration [] (Bytes.ofText text) = (Bytes.ofText text, []))
    (hfeed : Machine.start.feed? text.toList = some m) (hencoding : m.reader.encoding = none)
    (hroot : m.finish? = some root) : Node.ofBytes? (Bytes.ofText text) = some root := by
  have hnone : Encoding.utf8Chars? [] = some [] := Bytes.utf8Chars?_ofText ""
  rw [Node.ofBytes?, hmark]
  simp only [Node.ofDeclared?, hsplit, Bytes.utf8Chars?_ofText, bind, Option.bind, hfeed, hencoding, Mark.permits,
    if_true, hnone, Machine.feed?, hroot]

theorem split_unmarked {cs : List Char} (h : cs.head? = some '<') :
    Mark.split (Bytes.ofText (String.ofList cs)) = (.unmarked, Bytes.ofText (String.ofList cs)) := by
  obtain ⟨rest, rfl⟩ := List.head?_eq_some_iff.1 h
  rw [Bytes.ofText_ofList]
  rfl

theorem ofBytes?_textDocument {literal : String} (h : ∀ c ∈ literal.toList, Version.v10.allows c) :
    Node.ofBytes? (Bytes.ofText (Workspace.textDocument literal)) = some (textRoot (titleChildren literal.toList)) := by
  obtain ⟨m, hfeed, hencoding, hroot⟩ := feed?_textDocument h
  exact ofBytes?_of_feed (split_unmarked rfl) (splitDeclaration_textDocument literal) hfeed hencoding hroot

/-- a document that starts with a tag and holds no question mark -/
theorem ofBytes?_undeclared {cs : List Char} (hstart : cs.head? = some '<') (hq : '?' ∉ cs) {m : Machine} {root : Node}
    (hfeed : Machine.start.feed? cs = some m) (hencoding : m.reader.encoding = none) (hroot : m.finish? = some root) :
    Node.ofBytes? (Bytes.ofText (String.ofList cs)) = some root := by
  have hbytes : (0x3F : UInt8) ∉ cs.flatMap String.utf8EncodeChar := by
    intro hm
    obtain ⟨c, hc, hb⟩ := List.mem_flatMap.1 hm
    refine Bytes.not_mem_encodeChar (d := '?') (by decide) ?_ hb
    rintro rfl
    exact hq hc
  have hsplit : splitDeclaration [] (Bytes.ofText (String.ofList cs)) = (Bytes.ofText (String.ofList cs), []) := by
    have hwhole := splitDeclaration_of_ne hbytes [] []
    rw [List.append_nil] at hwhole
    rw [Bytes.ofText_ofList, hwhole, splitDeclaration, List.append_nil, List.reverse_reverse]
  exact ofBytes?_of_feed (split_unmarked hstart) hsplit (by rw [String.toList_ofList]; exact hfeed) hencoding hroot

end Markup

namespace Workspace

/-- **The document of a text block loads to one text block.** A blank literal is lost on the way. -/
theorem load_textDocument {literal : String} (h : ∀ c ∈ literal.toList, Markup.Version.v10.allows c) :
    load (Bytes.ofText (textDocument literal)) =
      .ok [Block.text (if literal.toList.all Markup.isSpace then "" else literal)] := by
  rw [load, Markup.ofBytes?_textDocument h]
  change Except.ok [Block.text (textOf (Markup.titleChildren literal.toList))] = _
  rw [Markup.titleChildren]
  split_ifs
  · rfl
  · simp [textOf]

end Workspace

/-! ## The program of a text block -/

/-- the run of a single block with nothing plugged in -/
theorem programRun_leaf {language : Language} {head : Head} {form : Form} {text : String} {after : Pass}
    (hf : head.form = .ok form)
    (hcode : (Pass.start language).perform ((Block.leaf head).code (.standard language) true) = (.ok text, after))
    (hl : after.language = language) :
    programRun language [.leaf head] = (.ok (form.line language text), after) := by
  have hlink := Head.perform_link hf hcode hl
  simp only [Block.leaf] at hlink ⊢
  simp only [programRun, Block.chainsCode, Block.chainCode, Block.chain_eq, Pass.perform_bind, hlink, Block.nextChain,
    Pass.perform_pure, String.append_empty]

theorem Language.isEmpty_quote (language : Language) (literal : String) : (language.quote literal).isEmpty = false := by
  simp [Language.quote, Text.quoteChars]

/-- the run of a text block leaves the state as it is -/
theorem programRun_text (language : Language) (literal : String) :
    programRun language [.text literal] =
      (.ok (language.expressionStatement (language.quote literal)), Pass.start language) := by
  have hform : ({ Head.bare Kind.text.name with titles := [(1, literal)] } : Head).form = .ok (.text literal) := rfl
  have hcode : (Pass.start language).perform ((Block.text literal).code (.standard language) true) =
      (.ok (language.quote literal), Pass.start language) := by
    have hquote : language.quote literal ++ "" = language.quote literal := String.append_empty
    rw [Block.text, Block.leaf, Block.perform_code, hform]
    cases language <;> exact congrArg (fun code => (Except.ok code, _)) hquote
  have hline : (Form.text literal).line language (language.quote literal) =
      language.expressionStatement (language.quote literal) := by
    rw [Form.line, language.isEmpty_quote]
    rfl
  rw [← hline]
  exact programRun_leaf hform hcode rfl

theorem Pass.finish_start (language : Language) (body : String) :
    (Pass.start language).finish body = Text.joinWith "\n\n" ((Pass.start language).bodySections body) ++ "\n" := by
  cases language <;> rfl

theorem prefixLines_quote (language : Language) (literal : String) :
    Text.prefixLines (language.quote literal ++ ";\n") Text.indentation =
      Text.indentation ++ language.quote literal ++ ";\n" := by
  have hu := Text.interior_flatMap_escape language.interpolates literal.toList
  have hlines := Text.lines_literal hu [';', '\n']
  have hend : Text.lines [';', '\n'] = [[';']] := rfl
  rw [hend] at hlines
  apply String.toList_inj.1
  simp only [Text.prefixLines, Text.indentChars, Language.quote, Text.quoteChars, String.toList_ofList,
    String.toList_append]
  simp [hlines, Text.attach, Text.indentLine]

/-- **The program of a text block** is its literal as a statement. -/
theorem generate_text (language : Language) (literal : String) :
    generate language [.text literal] = .ok (match language with
      | .javascript => language.quote literal ++ ";\n"
      | .dart => "main() \x7b\n" ++ Text.indentation ++ language.quote literal ++ ";\n\x7d\n"
      | .python => language.quote literal ++ "\n") := by
  rw [generate_eq, programRun_text]
  simp only [Except.map, Pass.finish_start]
  congr 1
  apply String.toList_inj.1
  cases language with
  | javascript =>
    simp [Pass.bodySections, Language.wrapsBody, Pass.start, Language.expressionStatement, Text.dropFinalNewlines,
      Text.joinWith, Language.quote, Text.quoteChars]
  | dart =>
    simp [Pass.bodySections, Language.wrapsBody, Pass.start, Language.expressionStatement, prefixLines_quote,
      Text.joinWith]
  | python =>
    simp [Pass.bodySections, Language.wrapsBody, Pass.start, Language.expressionStatement, Text.dropFinalNewlines,
      Text.joinWith, Language.quote, Text.quoteChars]

theorem Block.text_inj {a b : String} (h : Block.text a = Block.text b) : a = b := by
  have htitles : [(1, a)] = [(1, b)] := congrArg (fun block => block.head.titles) h
  simpa using htitles

namespace Workspace

/-- **Literals survive loading exactly when they are not blank.** A literal of allowed characters is loaded as it was
written if and only if it is empty or has a character that is no white space, and the program of the block quotes it in
every target; a literal of white space alone is loaded as the empty one. -/
theorem literal_loads_iff_not_blank {literal : String} (h : ∀ c ∈ literal.toList, Markup.Version.v10.allows c) :
    (load (Bytes.ofText (textDocument literal)) = .ok [Block.text literal] ↔
      literal = "" ∨ ∃ c ∈ literal.toList, Markup.isSpace c = false) ∧
    ((∀ c ∈ literal.toList, Markup.isSpace c) →
      load (Bytes.ofText (textDocument literal)) = .ok [Block.text ""]) ∧
    ∀ language, ∃ before after,
      generate language [Block.text literal] = .ok (before ++ language.quote literal ++ after) := by
  refine ⟨?_, ?_, fun language => ?_⟩
  · rw [load_textDocument h]
    split_ifs with hb
    · have hnone : ¬ ∃ c ∈ literal.toList, Markup.isSpace c = false := by
        rintro ⟨c, hc, hs⟩
        rw [List.all_eq_true.1 hb c hc] at hs
        cases hs
      constructor
      · intro hload
        exact .inl (Block.text_inj (List.cons.inj (Except.ok.inj hload)).1).symm
      · rintro (rfl | hsome)
        · rfl
        · exact absurd hsome hnone
    · simp only [List.all_eq_true, not_forall, Bool.not_eq_true] at hb
      obtain ⟨c, hc, hs⟩ := hb
      exact iff_of_true rfl (.inr ⟨c, hc, hs⟩)
  · intro hb
    rw [load_textDocument h, if_pos (List.all_eq_true.2 hb)]
  · rw [generate_text]
    cases language with
    | javascript => exact ⟨"", ";\n", by rw [String.empty_append]⟩
    | dart => exact ⟨"main() \x7b\n" ++ Text.indentation, ";\n\x7d\n", rfl⟩
    | python => exact ⟨"", "\n", by rw [String.empty_append]⟩

/-- a literal with all three escaped characters, and blanks at both ends -/
theorem comparison_loads :
    (∀ c ∈ " a<b & c>d ".toList, Markup.Version.v10.allows c) ∧
      load (Bytes.ofText (textDocument " a<b & c>d ")) = .ok [Block.text " a<b & c>d "] := by
  have hallowed : ∀ c ∈ " a<b & c>d ".toList, Markup.Version.v10.allows c := List.all_eq_true.1 (by decide)
  exact ⟨hallowed, (literal_loads_iff_not_blank hallowed).1.2 (.inr ⟨'a', by decide, by decide⟩)⟩

/-- a text of a single blank, such as a separator, is lost -/
theorem separator_is_lost :
    (∀ c ∈ " ".toList, Markup.Version.v10.allows c) ∧
      load (Bytes.ofText (textDocument " ")) = .ok [Block.text ""] ∧
      load (Bytes.ofText (textDocument " ")) ≠ .ok [Block.text " "] := by
  have hallowed : ∀ c ∈ " ".toList, Markup.Version.v10.allows c := List.all_eq_true.1 (by decide)
  have hload : load (Bytes.ofText (textDocument " ")) = .ok [Block.text ""] := load_textDocument hallowed
  refine ⟨hallowed, hload, fun hkept => ?_⟩
  have hsame := Block.text_inj (List.cons.inj (Except.ok.inj (hload.symm.trans hkept))).1
  exact absurd hsame (by decide)

end Workspace

end Blockwork
