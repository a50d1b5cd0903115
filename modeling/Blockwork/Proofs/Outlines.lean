/-
Texts whose structure is carried by indentation.

- `Outline`: lines below each other, each with the outline that is indented under it.
- `Outline.text` writes an outline down, two blanks further in at each level; `Outline.ofText` groups the lines of a text
  by their indentation.
- `IsPhrase`, `IsHeader`: lines that nothing is indented under, and lines that something has to be indented under.
  `Outline.Proper`: an outline in which this is so.
- `Outline.Proper.ofText_text`: grouping the lines of a proper outline gives it back.
- `Outline.Proper.isLayout`: in the text of a proper outline the indentation grows by one level behind a header, and
  nowhere else.
-/
import Blockwork.Proofs.Rows

namespace Blockwork

/-! ## Outlines and their lines -/

/-- lines below each other, each with what is indented under it -/
inductive Outline
  | done
  | line (text : String) (suite below : Outline)
  deriving DecidableEq

namespace Outline

def append : Outline → Outline → Outline
  | done, other => other
  | line text suite below, other => line text suite (below.append other)

instance : Append Outline := ⟨append⟩

def single (text : String) : Outline := line text done done

/-- headers with their suites, one below the other -/
def ofSuites : List (String × Outline) → Outline
  | [] => done
  | (text, suite) :: rest => line text suite (ofSuites rest)

def lines (indent : Nat) : Outline → List (Nat × String)
  | done => []
  | line text suite below => (indent, text) :: (suite.lines (indent + 2) ++ below.lines indent)

/-- a line behind its indentation -/
def row (entry : Nat × String) : List Char :=
  List.replicate entry.1 ' ' ++ entry.2.toList

/-- an outline written down -/
def text (indent : Nat) (outline : Outline) : String :=
  String.ofList (Text.ended ((outline.lines indent).map row))

/-- lines grouped by their indentation: under a line comes what is indented further, up to the first line that is not -/
def group : List (Nat × String) → Outline
  | [] => done
  | (indent, text) :: rest =>
    line text (group (rest.takeWhile (indent < ·.1))) (group (rest.dropWhile (indent < ·.1)))
  termination_by lines => lines.length
  decreasing_by
    · exact Nat.lt_succ_of_le (List.takeWhile_sublist _).length_le
    · exact Nat.lt_succ_of_le (List.dropWhile_sublist _).length_le

/-- a line taken apart into its indentation and the rest -/
def entry (row : List Char) : Nat × String :=
  ((row.takeWhile (· == ' ')).length, String.ofList (row.dropWhile (· == ' ')))

def entries (code : String) : List (Nat × String) :=
  (Text.lines code.toList).map entry

/-- the lines of a text grouped by their indentation -/
def ofText (code : String) : Outline :=
  group (entries code)

/-! ## Writing down -/

section

variable (indent : Nat) (header : String) (suite below other : Outline)

@[simp] theorem done_append : done ++ other = other := rfl

@[simp] theorem line_append : line header suite below ++ other = line header suite (below ++ other) := rfl

@[simp] theorem text_done : done.text indent = "" := rfl

theorem text_line : (line header suite below).text indent =
    String.ofList (List.replicate indent ' ') ++ header ++ "\n" ++ suite.text (indent + 2) ++ below.text indent := by
  apply String.toList_inj.1
  simp [text, lines, row, Text.ended]

theorem text_append (outline : Outline) : (outline ++ other).text indent = outline.text indent ++ other.text indent := by
  induction outline with
  | done => simp
  | line header suite below _ ih => rw [line_append, text_line, text_line, ih, ← String.append_assoc]

theorem text_ne_empty : (line header suite below).text indent ≠ "" := by
  intro h
  have hchars := congrArg String.toList h
  simp [text_line] at hchars

theorem lines_add_two (outline : Outline) :
    outline.lines (indent + 2) = (outline.lines indent).map fun entry => (entry.1 + 2, entry.2) := by
  induction outline generalizing indent with
  | done => rfl
  | line header suite below ihs ihb => simp only [lines, ihs, ihb, List.map_cons, List.map_append]

theorem row_add_two (entry : Nat × String) : row (entry.1 + 2, entry.2) = Text.indentation.toList ++ row entry := by
  have hlead : List.replicate (entry.1 + 2) ' ' = Text.indentation.toList ++ List.replicate entry.1 ' ' := by
    rw [Nat.add_comm, List.replicate_add]
    rfl
  rw [row, hlead, List.append_assoc]
  rfl

end

/-! ## Grouping -/

theorem indent_le_of_mem_lines {indent : Nat} {outline : Outline} {entry : Nat × String}
    (h : entry ∈ outline.lines indent) : indent ≤ entry.1 := by
  induction outline generalizing indent with
  | done => cases h
  | line header suite below ihs ihb =>
    simp only [lines, List.mem_cons, List.mem_append] at h
    rcases h with rfl | h | h
    · exact le_rfl
    · exact (Nat.le_add_right indent 2).trans (ihs h)
    · exact ihb h

theorem indent_of_head_lines {indent : Nat} {outline : Outline} {entry : Nat × String}
    (h : entry ∈ (outline.lines indent).head?) : entry.1 = indent := by
  cases outline with
  | done => cases h
  | line header suite below =>
    obtain rfl := Option.mem_some_iff.1 h
    rfl

/-- **Grouping the lines of an outline gives it back.** -/
theorem group_lines (indent : Nat) (outline : Outline) : group (outline.lines indent) = outline := by
  induction outline generalizing indent with
  | done => rw [lines, group]
  | line header suite below ihs ihb =>
    have hdeeper : ∀ entry ∈ suite.lines (indent + 2), decide (indent < entry.1) = true := fun entry hm => by
      have := indent_le_of_mem_lines hm
      simp only [decide_eq_true_eq]
      omega
    -- what is below starts where the header does, so nothing of it is taken
    have hstop : (below.lines indent).takeWhile (indent < ·.1) = [] ∧
        (below.lines indent).dropWhile (indent < ·.1) = below.lines indent := by
      cases below with
      | done => exact ⟨rfl, rfl⟩
      | line => simp [lines]
    rw [lines, group, List.takeWhile_append_of_pos hdeeper, List.dropWhile_append_of_pos hdeeper, hstop.1, hstop.2,
      List.append_nil, ihs, ihb]

end Outline

/-! ## Phrases and headers -/

/-- a line that nothing is indented under: it starts with no white space, and ends with no colon -/
def IsPhrase (text : String) : Prop :=
  IsWord text ∧ text.toList.head?.any Text.isBlank = false ∧ text.toList.getLast? ≠ some ':'

instance (text : String) : Decidable (IsPhrase text) :=
  inferInstanceAs (Decidable (_ ∧ _ ∧ _))

theorem IsPhrase.inline {text : String} (h : IsPhrase text) : IsInline text := h.1.2

/-- a line that something is indented under -/
def IsHeader (text : String) : Prop :=
  text = "else:" ∨ ∃ keyword ∈ ["if ", "elif ", "while ", "for ", "def "], ∃ clause, text = keyword ++ clause ++ ":"

theorem IsHeader.getLast? {text : String} (h : IsHeader text) : text.toList.getLast? = some ':' := by
  rcases h with rfl | ⟨keyword, -, clause, rfl⟩
  · rfl
  · simp

theorem IsHeader.head? {text : String} (h : IsHeader text) :
    ∃ c, text.toList.head? = some c ∧ Text.isBlank c = false := by
  rcases h with rfl | ⟨keyword, hk, clause, rfl⟩
  · exact ⟨'e', rfl, rfl⟩
  · simp only [List.mem_cons, List.not_mem_nil, or_false] at hk
    rcases hk with rfl | rfl | rfl | rfl | rfl <;> simp [Text.isBlank]

theorem IsPhrase.head? {text : String} (h : IsPhrase text) :
    ∃ c, text.toList.head? = some c ∧ Text.isBlank c = false := by
  obtain ⟨⟨hne, -⟩, hfirst, -⟩ := h
  cases hcs : text.toList with
  | nil => exact absurd hcs hne
  | cons c cs =>
    rw [hcs] at hfirst
    exact ⟨c, rfl, hfirst⟩

/-- the indentation of lines: nothing before the first, one level more behind a line that ends with a colon, never more
behind any other line, and there is a line behind every one that ends with a colon -/
structure IsLayout (code : String) : Prop where
  /-- every line is ended -/
  ended : code.toList = Text.ended (Text.lines code.toList)
  /-- behind its indentation, every line starts with something to see -/
  visible : ∀ line ∈ Outline.entries code, ∃ c, line.2.toList.head? = some c ∧ Text.isBlank c = false
  /-- exactly the headers end with a colon -/
  header : ∀ line ∈ Outline.entries code, line.2.toList.getLast? = some ':' ↔ IsHeader line.2
  first : ∀ line ∈ (Outline.entries code).head?, line.1 = 0
  next : (Outline.entries code).IsChain fun line next =>
    if line.2.toList.getLast? = some ':' then next.1 = line.1 + 2 else next.1 ≤ line.1
  last : ∀ line ∈ (Outline.entries code).getLast?, line.2.toList.getLast? ≠ some ':'

namespace Outline

/-- something is indented under every header, and nothing under any other line -/
inductive Proper : Outline → Prop
  | done : Proper done
  | phrase {text : String} {below : Outline} : IsPhrase text → Proper below → Proper (line text done below)
  | header {text : String} {suite below : Outline} : IsHeader text → IsInline text → suite ≠ done → Proper suite →
      Proper below → Proper (line text suite below)

namespace Proper

variable {outline other : Outline} {indent : Nat}

theorem append (h : outline.Proper) (ho : other.Proper) : (outline ++ other).Proper := by
  induction h with
  | done => exact ho
  | phrase ht _ ih => exact .phrase ht ih
  | header ht hi hs hsuite _ _ ih => exact .header ht hi hs hsuite ih

/-- every line is visible and within a line, and ends with a colon exactly if it is a header -/
theorem entry (h : outline.Proper) {entry : Nat × String} (hm : entry ∈ outline.lines indent) :
    (∃ c, entry.2.toList.head? = some c ∧ Text.isBlank c = false) ∧ IsInline entry.2 ∧
      (entry.2.toList.getLast? = some ':' ↔ IsHeader entry.2) := by
  induction h generalizing indent with
  | done => cases hm
  | phrase ht _ ih =>
    simp only [lines, List.nil_append, List.mem_cons] at hm
    rcases hm with rfl | hm
    · exact ⟨ht.head?, ht.1.2, iff_of_false ht.2.2 fun hh => ht.2.2 hh.getLast?⟩
    · exact ih hm
  | header ht hi _ _ _ ihs ihb =>
    simp only [lines, List.mem_cons, List.mem_append] at hm
    rcases hm with rfl | hm | hm
    · exact ⟨ht.head?, hi, iff_of_true ht.getLast? ht⟩
    · exact ihs hm
    · exact ihb hm

theorem lines_ne_nil (h : outline ≠ Outline.done) : outline.lines indent ≠ [] := by
  cases outline with
  | done => exact absurd rfl h
  | line => exact List.cons_ne_nil _ _

theorem last (h : outline.Proper) {line : Nat × String} (hm : line ∈ (outline.lines indent).getLast?) :
    line.2.toList.getLast? ≠ some ':' := by
  induction h generalizing indent line with
  | done => cases hm
  | @phrase text below ht _ ih =>
    rw [lines, lines, List.nil_append, List.getLast?_cons, Option.mem_some_iff] at hm
    cases hbelow : (below.lines indent).getLast? with
    | none =>
      rw [← hm, hbelow]
      exact ht.2.2
    | some found =>
      rw [← hm, hbelow]
      exact ih hbelow
  | @header text suite below _ _ hne _ _ ihs ihb =>
    obtain ⟨final, hfinal⟩ : ∃ final, (suite.lines (indent + 2)).getLast? = some final :=
      ⟨_, List.getLast?_eq_some_getLast (lines_ne_nil hne)⟩
    rw [lines, List.getLast?_cons, List.getLast?_append, hfinal, Option.mem_some_iff] at hm
    cases hbelow : (below.lines indent).getLast? with
    | none =>
      rw [← hm, hbelow]
      exact ihs hfinal
    | some found =>
      rw [← hm, hbelow]
      exact ihb hbelow

/-- **The indentation follows the headers.** -/
theorem next (h : outline.Proper) : (outline.lines indent).IsChain fun line next =>
    if line.2.toList.getLast? = some ':' then next.1 = line.1 + 2 else next.1 ≤ line.1 := by
  induction h generalizing indent with
  | done => exact .nil
  | phrase ht _ ih =>
    rw [lines, lines, List.nil_append, List.isChain_cons]
    refine ⟨fun next hn => ?_, ih⟩
    rw [if_neg ht.2.2, indent_of_head_lines hn]
  | header ht _ hne hs _ ihs ihb =>
    rw [lines, List.isChain_cons, List.isChain_append]
    refine ⟨fun next hn => ?_, ihs, ihb, fun line hl next hn => ?_⟩
    · rw [List.head?_append_of_ne_nil _ (lines_ne_nil hne)] at hn
      rw [if_pos ht.getLast?, indent_of_head_lines hn]
    · -- the suite ends with a line further in than the header, and what is below starts where the header does
      rw [if_neg (hs.last hl), indent_of_head_lines hn]
      exact (Nat.le_add_right _ 2).trans (indent_le_of_mem_lines (List.mem_of_getLast? hl))

theorem isWord_row (h : outline.Proper) : ∀ row ∈ (outline.lines indent).map Outline.row, Text.IsWord row := by
  intro row hm
  obtain ⟨entry, he, rfl⟩ := List.mem_map.1 hm
  obtain ⟨⟨c, hc, -⟩, hinline, -⟩ := h.entry he
  refine ⟨fun hnil => ?_, List.forall_mem_append.2 ⟨fun d hd => ?_, hinline⟩⟩
  · rw [(List.append_eq_nil_iff.1 hnil).2] at hc
    cases hc
  · rw [List.eq_of_mem_replicate hd]
    decide

/-- the indentation of a line is found in front of it -/
theorem entry_row {entry : Nat × String} (h : ∃ c, entry.2.toList.head? = some c ∧ Text.isBlank c = false) :
    Outline.entry (row entry) = entry := by
  obtain ⟨c, hc, hblank⟩ := h
  obtain ⟨cs, hcs⟩ : ∃ cs, entry.2.toList = c :: cs := by
    cases hlist : entry.2.toList with
    | nil => simp [hlist] at hc
    | cons d cs => exact ⟨cs, by simpa [hlist] using hc⟩
  have hne : (c == ' ') = false := by
    cases hb : c == ' ' with
    | false => rfl
    | true => rw [beq_iff_eq.1 hb] at hblank; cases hblank
  have hlead : ∀ d ∈ List.replicate entry.1 ' ', (d == ' ') = true := fun d hd => by
    rw [List.eq_of_mem_replicate hd]
    rfl
  rw [Outline.entry, row, hcs, List.takeWhile_append_of_pos hlead, List.dropWhile_append_of_pos hlead,
    List.takeWhile_cons_of_neg (by simp [hne]), List.dropWhile_cons_of_neg (by simp [hne]), ← hcs]
  simp

/-- the lines of the text of an outline are its lines -/
theorem entries_text (h : outline.Proper) : entries (outline.text indent) = outline.lines indent := by
  rw [entries, Outline.text, String.toList_ofList, Text.lines_ended h.isWord_row, List.map_map]
  exact (List.map_congr_left fun entry hm => entry_row (h.entry hm).1).trans (List.map_id _)

/-- **Grouping the lines of a proper outline gives it back.** -/
theorem ofText_text (h : outline.Proper) (indent : Nat) : ofText (outline.text indent) = outline := by
  rw [ofText, h.entries_text, group_lines]

/-- **The text of a proper outline is laid out by its headers.** -/
theorem isLayout (h : outline.Proper) : IsLayout (outline.text 0) where
  ended := by rw [Outline.text, String.toList_ofList, Text.lines_ended h.isWord_row]
  visible line hm := (h.entry (h.entries_text ▸ hm)).1
  header line hm := (h.entry (h.entries_text ▸ hm)).2.2
  first line hm := indent_of_head_lines (h.entries_text ▸ hm)
  next := h.entries_text ▸ h.next
  last line hm := h.last (h.entries_text ▸ hm)

/-- **An outline is indented line by line.** -/
theorem prefixLines_text (h : outline.Proper) :
    Text.prefixLines (outline.text indent) Text.indentation = outline.text (indent + 2) := by
  rw [Text.prefixLines, Outline.text, String.toList_ofList, Text.indentChars_ended h.isWord_row, Outline.text,
    lines_add_two, List.map_map, List.map_map]
  refine congrArg (fun rows => String.ofList (Text.ended rows)) (List.map_congr_left fun entry _ => ?_)
  exact (row_add_two entry).symm

end Proper

end Outline

end Blockwork
