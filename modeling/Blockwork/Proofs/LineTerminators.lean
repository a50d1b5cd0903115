/-
Which programs have line ends of their target besides the line feeds of their layout.

- `Language.lineEnds`: the characters that end a line in a target, within a literal as anywhere else. JavaScript knows
  two more than the others, the separators U+2028 and U+2029, and the code of a text does not escape them.
- `Text.isLegal`: every literal is closed before its line ends.
- `alike_outline`: outside literals a program is made of basic characters, so a separator can only stand in a literal.
- `isLegal_program_iff`: so the literals of a program are legal when no character but line feeds ends its lines.
- `line_ends_iff_separator_visited`: the main statement, and the text that refutes the rule without a condition.
-/
import Blockwork.Proofs.Contents
import Blockwork.Proofs.Interference

namespace Blockwork

/-- the characters that end a line in every target -/
def lineBreaks : List Char := ['\n', '\r']

def separators : List Char := ['\u2028', '\u2029']

/-- the characters that end a line in a target -/
def Language.lineEnds : Language → List Char
  | javascript => lineBreaks ++ separators
  | dart => lineBreaks
  | python => lineBreaks

theorem Language.mem_lineEnds_iff {language : Language} {c : Char} :
    c ∈ language.lineEnds ↔ c ∈ lineBreaks ∨ language = .javascript ∧ c ∈ separators := by
  cases language <;> simp [lineEnds]

theorem IsForeign.of_mem_separators {c : Char} (h : c ∈ separators) : IsForeign c := by
  rcases List.mem_pair.1 h with rfl | rfl
  · exact (by decide : 0x7F < '\u2028'.toNat)
  · exact (by decide : 0x7F < '\u2029'.toNat)

theorem not_printable_of_mem {c : Char} (h : c ∈ lineBreaks ∨ c ∈ separators) : Text.isPrintable c = false := by
  rcases h with h | h
  · rcases List.mem_pair.1 h with rfl | rfl <;> rfl
  · exact (IsForeign.of_mem_separators h).not_printable

/-! ## Literals on one line -/

namespace Text

/-- whether every literal of a text is closed before its line ends; `inside` a literal or not at its start -/
def isLegal (ends : List Char) : Bool → List Char → Bool
  | inside, [] => !inside
  | false, c :: cs => isLegal ends (c == '\'') cs
  | true, '\'' :: cs => isLegal ends false cs
  | true, '\\' :: c :: cs => !ends.contains c && isLegal ends true cs
  | true, '\\' :: [] => false
  | true, c :: cs => !ends.contains c && isLegal ends true cs

theorem isLegal_interior {ends : List Char} (he : '\\' ∉ ends) {u : List Char} (h : Interior u) (s : List Char) :
    isLegal ends true (u ++ '\'' :: s) ↔ (∀ c ∈ u, c ∉ ends) ∧ isLegal ends false s := by
  induction h with
  | nil => simp [isLegal]
  | escape c _ _ _ ih => simp [isLegal, ih, he, and_assoc]
  | plain c hq hb _ _ _ ih =>
    rw [List.cons_append, isLegal]
    · simp [ih, and_assoc]
    · exact hq
    · exact fun d ds hd _ => hb hd
    · exact fun hd _ => hb hd

/-- **Literals end in their lines where line feeds are the only line ends**, if lines end in no other way outside
them. -/
theorem Alike.isLegal_iff {ends s t : List Char} (hb : '\\' ∉ ends) (hq : '\'' ∉ ends) (h : Alike s t)
    (ht : ∀ c ∈ t, c ∈ ends → c = '\n') : isLegal ends false s ↔ ∀ c ∈ s, c ∈ ends → c = '\n' := by
  induction h with
  | nil => simp [isLegal]
  | char c hc _ ih =>
    obtain ⟨hfirst, hrest⟩ := List.forall_mem_cons.1 ht
    rw [isLegal, beq_false_of_ne hc, ih hrest, List.forall_mem_cons]
    exact (and_iff_right hfirst).symm
  | @literal s t u v hu _ _ ih =>
    have hbehind : ∀ c ∈ t, c ∈ ends → c = '\n' := fun c hc =>
      ht c (List.mem_cons_of_mem _ (List.mem_append_right _ (List.mem_cons_of_mem _ hc)))
    -- no line feed stands in a literal
    have hinterior : (∀ c ∈ u, c ∉ ends) ↔ ∀ c ∈ u, c ∈ ends → c = '\n' :=
      forall₂_congr fun c hc => ⟨fun hnone he => absurd he hnone, fun hone he => (hu.not_line_end c hc).1 (hone he)⟩
    have hquote : '\'' ∈ ends → '\'' = '\n' := fun he => absurd he hq
    rw [isLegal, beq_self_eq_true, isLegal_interior hb hu, ih hbehind, hinterior, List.forall_mem_cons,
      List.forall_mem_append, List.forall_mem_cons]
    exact ⟨fun ⟨hin, hafter⟩ => ⟨hquote, hin, hquote, hafter⟩, fun ⟨_, hin, _, hafter⟩ => ⟨hin, hafter⟩⟩

end Text

/-! ## Outside literals -/

theorem Head.withoutText_withoutText (head : Head) : head.withoutText.withoutText = head.withoutText := by
  rw [withoutText, head.withoutText_kind]
  unfold withoutText
  split_ifs
  · simp only [List.filter_filter, Bool.and_self]
  · rfl

theorem Slots.get?_filter_ne {α : Type} (slot : Nat) (entries : List (Nat × α)) :
    get? slot (entries.filter fun entry => entry.1 != slot) = none := by
  induction entries with
  | nil => rfl
  | cons entry rest ih =>
    obtain ⟨s, a⟩ := entry
    by_cases hs : s = slot
    · rwa [List.filter_cons_of_neg (by simpa using hs)]
    · rw [List.filter_cons_of_pos (by simpa using hs), get?, if_neg (Ne.symm hs)]
      exact ih

/-- only a block of the kind of texts is read as a text -/
theorem Form.read_text {kind : Kind} {head : Head} {content : String} (h : Form.read kind head = .ok (.text content)) :
    kind = .text ∧ (head.title? 1).getD "" = content := by
  cases kind with
  | text => exact ⟨rfl, Form.text.inj (Except.ok.inj h)⟩
  | _ => first | cases h | exact (exists_of_map_eq_ok h).elim fun _ he => Form.noConfusion he

/-- a block without the content of texts is read as the empty text, if it is read as a text -/
theorem Head.eq_empty_of_withoutText {head : Head} {content : String}
    (h : head.withoutText.form = .ok (.text content)) : content = "" := by
  obtain ⟨kind, hkind, hread⟩ := Head.exists_kind h
  obtain ⟨rfl, rfl⟩ := Form.read_text hread
  have hname : head.kind = Kind.text.name := by
    rw [← head.withoutText_kind, Kind.name_of_read hkind]
  rw [withoutText, if_pos hname, title?, Slots.get?_filter_ne]
  rfl

namespace Block

theorem withoutText_withoutText (block : Block) : block.withoutText.withoutText = block.withoutText := by
  induction block with
  | mk head values statements next hv hs hn =>
    have hslots : ∀ {entries : List (Nat × Block)},
        (∀ entry ∈ entries, entry.2.withoutText.withoutText = entry.2.withoutText) →
        withoutTexts (withoutTexts entries) = withoutTexts entries := by
      intro entries h
      simp only [withoutTexts_eq_map, List.map_map]
      exact List.map_congr_left fun entry he => congrArg (Prod.mk entry.1) (h entry he)
    have hnext : nextWithoutText (nextWithoutText next) = nextWithoutText next := by
      cases next with
      | none => rfl
      | some below => exact congrArg some (hn below rfl)
    simp only [withoutText, head.withoutText_withoutText, hslots hv, hslots hs, hnext]

/-- every text visited in a block without the content of texts is empty -/
theorem eq_empty_of_mem_withoutText {content : String} (block : Block) :
    (.text content ∈ block.withoutText.constructs.own → content = "") ∧
      (.text content ∈ block.withoutText.constructs.chain → content = "") := by
  induction block with
  | mk head values statements next hv hs hn =>
    have hslot : ∀ {entries : List (Nat × Block)} {slot : Nat} {visited : Constructs → List Form},
        (∀ entry ∈ entries, .text content ∈ visited entry.2.withoutText.constructs → content = "") →
        .text content ∈ ((Slots.get? slot (slotConstructs (withoutTexts entries))).map visited).getD [] →
        content = "" := by
      intro entries slot visited h hm
      rw [get?_slotConstructs, withoutTexts_eq_map, Slots.get?_map] at hm
      cases hc : Slots.get? slot entries with
      | none =>
        rw [hc] at hm
        cases hm
      | some child =>
        obtain ⟨entry, he, rfl⟩ := Slots.mem_of_get? hc
        rw [hc] at hm
        exact h entry he hm
    have hown : .text content ∈ head.withoutText.constructs (slotConstructs (withoutTexts values))
        (slotConstructs (withoutTexts statements)) → content = "" := by
      intro hm
      cases hform : head.withoutText.form with
      | error cause =>
        rw [Head.constructs, hform] at hm
        cases hm
      | ok form =>
        rcases (Head.mem_constructs hform).1 hm with rfl | ⟨visit, -, hvisit⟩
        · exact Head.eq_empty_of_withoutText hform
        · cases visit with
          | value slot => exact hslot (fun entry he => (hv entry he).1) hvisit
          | statement slot => exact hslot (fun entry he => (hs entry he).2) hvisit
          | name role user => cases hvisit
    refine ⟨hown, fun hm => ?_⟩
    rcases List.mem_append.1 hm with hm | hm
    · exact hown hm
    · cases next with
      | none => cases hm
      | some below => exact (hn below rfl).2 hm

end Block

def Alphabet.basic : Alphabet where
  mem c := Text.isBasic true c
  printable _ h := Bool.or_eq_true_iff.2 (.inl h)

/-- **Outside literals a program is made of basic characters.** -/
theorem alike_outline {language : Language} {blocks : List Block} {program : String}
    (h : generate language blocks = .ok program) :
    ∃ outline, AlikeCode program outline ∧ MadeOf .basic outline := by
  have hsame : blocks.map Block.withoutText = (blocks.map Block.withoutText).map Block.withoutText := by
    rw [List.map_map]
    exact List.map_congr_left fun block _ => block.withoutText_withoutText.symm
  obtain ⟨body, pass, hrun, rfl⟩ := generate_ok_iff.1 h
  obtain ⟨houtcome, hpass⟩ := Block.alike_chainsCode language hsame _ _ (.start language)
  rw [show (Pass.start language).perform _ = (.ok body, pass) from hrun] at houtcome hpass
  rcases hempty : programRun language (blocks.map Block.withoutText) with ⟨outcome, pass'⟩
  rw [show (Pass.start language).perform _ = (outcome, pass') from hempty] at houtcome hpass
  obtain ⟨body', rfl, hbody⟩ : ∃ body', outcome = .ok body' ∧ AlikeCode body body' := by
    cases houtcome with
    | ok hbody => exact ⟨_, rfl, hbody⟩
  have hprogram := generate_ok_iff.2 ⟨body', pass', hempty, rfl⟩
  refine ⟨pass'.finish body', hpass.finish hbody, generate_madeOf rfl (fun content hm => ?_) hprogram⟩
  obtain ⟨block, hblock, hcontent⟩ := List.mem_flatMap.1 hm
  obtain ⟨original, -, rfl⟩ := List.mem_map.1 hblock
  rw [(original.eq_empty_of_mem_withoutText).2 hcontent]
  exact .printable (by cases language <;> rfl)

/-! ## Programs -/

/-- **No program has a carriage return**, whatever its texts are. -/
theorem return_not_mem_program {language : Language} {blocks : List Block} {program : String}
    (h : generate language blocks = .ok program) : '\r' ∉ program.toList := by
  have hquotable : Quotable (.without '\r' rfl) language (blocks.flatMap fun block => block.constructs.chain) :=
    fun content _ c hc => ((IsWord.quote language content).2 c hc).2
  exact fun hm => generate_madeOf (by decide : '\n' ≠ '\r') hquotable h '\r' hm rfl

/-- whatever characters end a line, the literals of a program are legal when it has none of them but line feeds -/
theorem isLegal_program_iff {ends : List Char} (he : ∀ c ∈ ends, c ∈ lineBreaks ∨ c ∈ separators) {language : Language}
    {blocks : List Block} {program : String} (h : generate language blocks = .ok program) :
    Text.isLegal ends false program.toList ↔ ∀ c ∈ program.toList, c ∈ ends → c = '\n' := by
  have hprintable : ∀ {c : Char}, Text.isPrintable c = true → c ∉ ends := by
    intro c hc hm
    rw [not_printable_of_mem (he c hm)] at hc
    cases hc
  obtain ⟨outline, halike, hbasic⟩ := alike_outline h
  refine Text.Alike.isLegal_iff (hprintable rfl) (hprintable rfl) halike fun c hc hm => ?_
  have hchar : Text.isPrintable c ∨ c = '\n' := by
    simpa [Alphabet.basic, Text.isBasic] using hbasic c hc
  exact hchar.resolve_left fun hp => hprintable hp hm

/-- **The line ends of a program are line feeds, unless a separator stands in a text that is visited.** There is no
carriage return in any target, and no literal has a line feed in it. In Dart and Python nothing else ends a line. In
JavaScript there is a separator just when a text that is visited has it, and this is also when a literal runs over its
line. -/
theorem line_ends_iff_separator_visited {language : Language} {blocks : List Block} {program : String}
    (h : generate language blocks = .ok program) :
    ('\r' ∉ program.toList ∧ Text.isLegal lineBreaks false program.toList) ∧
    ((∀ c ∈ program.toList, c ∈ language.lineEnds → c = '\n') ↔
      ¬(language = .javascript ∧
        ∃ c ∈ separators, Mentions c (blocks.flatMap fun block => block.constructs.chain))) ∧
    (Text.isLegal language.lineEnds false program.toList ↔ ∀ c ∈ program.toList, c ∈ language.lineEnds → c = '\n') := by
  have hreturn := return_not_mem_program h
  have hbreaks : ∀ c ∈ program.toList, c ∈ lineBreaks → c = '\n' := by
    intro c hc hm
    rcases List.mem_pair.1 hm with rfl | rfl
    · rfl
    · exact absurd hc hreturn
  have hends : ∀ c ∈ language.lineEnds, c ∈ lineBreaks ∨ c ∈ separators :=
    fun c hm => (Language.mem_lineEnds_iff.1 hm).imp_right And.right
  refine ⟨⟨hreturn, (isLegal_program_iff (fun _ hm => .inl hm) h).2 hbreaks⟩, ⟨?_, ?_⟩, isLegal_program_iff hends h⟩
  · rintro hall ⟨rfl, c, hc, hm⟩
    have hforeign := IsForeign.of_mem_separators hc
    have hnewline := hall c ((mem_program_iff_mentions h hforeign).2 hm) (Language.mem_lineEnds_iff.2 (.inr ⟨rfl, hc⟩))
    exact hforeign.ne_of_le (by decide) hnewline
  · intro hnone c hc he
    rcases Language.mem_lineEnds_iff.1 he with hm | ⟨hl, hs⟩
    · exact hbreaks c hc hm
    · exact absurd ⟨hl, c, hs, mentions_of_mem_program h (.of_mem_separators hs) hc⟩ hnone

/-- in Dart a separator in a text is a character like any other -/
theorem separator_is_kept_in_dart :
    generate .dart [.text "\u2028"] = .ok "main() \x7b\n  '\u2028';\n\x7d\n" ∧
      (∀ c ∈ "main() \x7b\n  '\u2028';\n\x7d\n".toList, c ∈ Language.dart.lineEnds → c = '\n') ∧
      Text.isLegal Language.dart.lineEnds false "main() \x7b\n  '\u2028';\n\x7d\n".toList := by
  have hprogram : generate .dart [.text "\u2028"] = .ok "main() \x7b\n  '\u2028';\n\x7d\n" := by decide +kernel
  obtain ⟨-, hends, hlegal⟩ := line_ends_iff_separator_visited hprogram
  have hall := hends.2 fun hseparator => Language.noConfusion hseparator.1
  exact ⟨hprogram, hall, hlegal.2 hall⟩

/-- **In JavaScript a separator of a text ends a line within its literal.** -/
theorem separator_ends_a_line :
    generate .javascript [.text "\u2028"] = .ok "'\u2028';\n" ∧
      Text.isLegal Language.javascript.lineEnds false "'\u2028';\n".toList = false ∧
      ¬ ∀ language blocks program, generate language blocks = .ok program →
        ∀ c ∈ program.toList, c ∈ language.lineEnds → c = '\n' := by
  have hprogram : generate .javascript [.text "\u2028"] = .ok "'\u2028';\n" := by decide +kernel
  refine ⟨hprogram, by decide +kernel, fun hall => ?_⟩
  have hnewline := hall _ _ _ hprogram '\u2028' (by decide +kernel) (by decide +kernel)
  exact absurd hnewline (by decide)

end Blockwork
