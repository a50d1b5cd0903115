/-
Indentation, line by line.

- `Text.lines_append_of_ended`: behind a line end, lines are read as if nothing stood in front.
- `Text.prefixLines_append`, `Text.prefixLines_prefixLines`: so texts are indented part by part, and two indentations
  are one.
- `Text.spaced`: a text with blanks in front of its lines, without a word about how lines are read;
  `Text.prefixLines_spaces`: this is what indentation makes of ended lines.
-/
import Blockwork.Proofs.Fragments

namespace Blockwork.Text

/-! ## Lines behind a line end -/

theorem isLine_of_mem_lines {cs line : List Char} (hc : '\r' ∉ cs) (h : line ∈ lines cs) : IsLine line :=
  ⟨fun hn => (mem_of_mem_lines h hn).2 rfl, fun hr => hc (mem_of_mem_lines h (List.mem_of_getLast? hr)).1⟩

/-- a carriage return with a line feed behind it adds nothing to the line end -/
theorem lines_return_newline {s : List Char} (h : s.head? = some '\n') : lines ('\r' :: s) = lines s := by
  obtain ⟨rest, rfl⟩ := List.head?_eq_some_iff.1 h
  rfl

theorem attach_append (w : List Char) {first : List (List Char)} (h : first ≠ []) (others : List (List Char)) :
    attach w (first ++ others) = attach w first ++ others := by
  cases first with
  | nil => exact absurd rfl h
  | cons line rest => rfl

theorem lines_newline_append (front s : List Char) : lines (front ++ '\n' :: s) = lines (front ++ ['\n']) ++ lines s := by
  induction front with
  | nil => rfl
  | cons c front ih =>
    have hne : lines (front ++ ['\n']) ≠ [] := lines_ne_nil (by simp)
    have hhead : (front ++ '\n' :: s).head? = (front ++ ['\n']).head? := by cases front <;> rfl
    rw [List.cons_append, List.cons_append]
    by_cases hn : c = '\n'
    · subst hn
      rw [lines.eq_2, lines.eq_2, ih, List.cons_append]
    by_cases hr : c = '\r'
    · subst hr
      by_cases hnewline : (front ++ ['\n']).head? = some '\n'
      · rw [lines_return_newline (hhead.trans hnewline), lines_return_newline hnewline, ih]
      · rw [lines_return (hhead ▸ hnewline), lines_return hnewline, ih, attach_append _ hne]
    · rw [lines_cons_of_ne hn hr, lines_cons_of_ne hn hr, ih, attach_append _ hne]

/-- **Behind a line end, lines are read as if nothing stood in front.** -/
theorem lines_append_of_ended {cs : List Char} (h : cs = [] ∨ cs.getLast? = some '\n') (s : List Char) :
    lines (cs ++ s) = lines cs ++ lines s := by
  rcases h with rfl | h
  · rfl
  · obtain ⟨front, rfl⟩ := List.getLast?_eq_some_iff.1 h
    rw [List.append_assoc, List.singleton_append, lines_newline_append]

/-! ## Indentation of parts, and of what is indented -/

theorem indentChars_append {cs : List Char} (h : cs = [] ∨ cs.getLast? = some '\n') (s lead : List Char) :
    indentChars lead (cs ++ s) = indentChars lead cs ++ indentChars lead s := by
  rw [indentChars, lines_append_of_ended h, List.flatMap_append]
  rfl

theorem isLine_leadLine {lead line : List Char} (hl : '\n' ∉ lead) (h : IsLine line) : IsLine (leadLine lead line) := by
  unfold leadLine
  split_ifs with hempty
  · exact ⟨List.not_mem_nil, nofun⟩
  · have hne : line ≠ [] := by simpa using hempty
    refine ⟨fun hn => (List.mem_append.1 hn).elim hl h.1, ?_⟩
    rw [List.getLast?_append_of_ne_nil _ hne]
    exact h.2

theorem leadLine_leadLine (inner outer line : List Char) :
    leadLine outer (leadLine inner line) = leadLine (outer ++ inner) line := by
  cases line with
  | nil => rfl
  | cons c cs =>
    have hne : (inner ++ c :: cs).isEmpty = false := by simp
    simp [leadLine, hne]

/-- **Two indentations are one**, with the outer lead in front of the inner one. -/
theorem indentChars_indentChars {cs inner : List Char} (hc : '\r' ∉ cs) (hi : '\n' ∉ inner) (outer : List Char) :
    indentChars outer (indentChars inner cs) = indentChars (outer ++ inner) cs := by
  have hrows : ∀ row ∈ (lines cs).map (leadLine inner), IsLine row := by
    intro row hm
    obtain ⟨line, hline, rfl⟩ := List.mem_map.1 hm
    exact isLine_leadLine hi (isLine_of_mem_lines hc hline)
  rw [indentChars_eq_ended, indentChars_eq_ended, lines_ended_of_isLine hrows, indentChars_eq_ended, List.map_map]
  exact congrArg ended (List.map_congr_left fun line _ => leadLine_leadLine inner outer line)

theorem toList_ended {code : String} (h : code = "" ∨ EndsLine code) :
    code.toList = [] ∨ code.toList.getLast? = some '\n' :=
  h.imp_left String.toList_eq_nil_iff.2

/-- **A text is indented part by part**, if the first part ends its last line. -/
theorem prefixLines_append {a : String} (h : a = "" ∨ EndsLine a) (b lead : String) :
    prefixLines (a ++ b) lead = prefixLines a lead ++ prefixLines b lead := by
  rw [prefixLines, String.toList_append, indentChars_append (toList_ended h), String.ofList_append]
  rfl

/-- **Two indentations are one**, if the text has no carriage return and the inner lead no line feed. -/
theorem prefixLines_prefixLines {code inner : String} (hc : '\r' ∉ code.toList) (hi : '\n' ∉ inner.toList)
    (outer : String) : prefixLines (prefixLines code inner) outer = prefixLines code (outer ++ inner) := by
  rw [prefixLines, prefixLines, prefixLines, String.toList_ofList, indentChars_indentChars hc hi, String.toList_append]

/-- a carriage return that the first indentation leaves at the end of a line is taken by the second -/
example :
    prefixLines (prefixLines "a\r\r\n" "") "" = "a\n" ∧ prefixLines "a\r\r\n" "" = "a\r\n" := by
  decide +kernel

/-! ## Blanks in front of lines -/

def spaces (width : Nat) : String :=
  String.ofList (List.replicate width ' ')

/-- a text with so many blanks in front of each of its lines, but for those that are empty -/
def spaced (width : Nat) (code : String) : String :=
  String.ofList (List.intercalate ['\n'] ((code.toList.splitOn '\n').map (leadLine (List.replicate width ' '))))

@[simp]
theorem spaced_empty (width : Nat) : spaced width "" = "" := rfl

@[simp]
theorem spaced_zero (code : String) : spaced 0 code = code := by
  have hself : leadLine [] = id := by
    funext line
    cases line <;> rfl
  rw [spaced, List.replicate_zero, hself, List.map_id, List.intercalate_splitOn, String.ofList_toList]

/-- every text is made of ended lines and a last one -/
theorem exists_rows (cs : List Char) :
    ∃ rows last, (∀ row ∈ rows, '\n' ∉ row) ∧ '\n' ∉ last ∧ cs = ended rows ++ last := by
  induction cs using List.reverseRecOn with
  | nil => exact ⟨[], [], List.forall_mem_nil _, List.not_mem_nil, rfl⟩
  | append_singleton cs c ih =>
    obtain ⟨rows, last, hrows, hlast, rfl⟩ := ih
    by_cases hc : c = '\n'
    · subst hc
      refine ⟨rows ++ [last], [], List.forall_mem_append.2 ⟨hrows, List.forall_mem_singleton.2 hlast⟩,
        List.not_mem_nil, ?_⟩
      rw [ended_concat, List.append_nil, List.append_assoc]
    · refine ⟨rows, last ++ [c], hrows, ?_, List.append_assoc ..⟩
      simpa using ⟨hlast, Ne.symm hc⟩

/-- **Indentation by blanks puts them in front of lines that are not empty**, where all lines are ended and none by a
carriage return. -/
theorem prefixLines_spaces {code : String} (hc : '\r' ∉ code.toList) (he : code = "" ∨ EndsLine code) (width : Nat) :
    prefixLines code (spaces width) = spaced width code := by
  obtain ⟨rows, last, hrows, hlast, hcode⟩ := exists_rows code.toList
  -- behind the last line end there is nothing
  obtain rfl : last = [] := by
    by_contra hne
    rcases toList_ended he with hnil | hend
    · exact hne (List.append_eq_nil_iff.1 (hcode ▸ hnil)).2
    · rw [hcode, List.getLast?_append_of_ne_nil _ hne] at hend
      exact hlast (List.mem_of_getLast? hend)
  rw [List.append_nil] at hcode
  have hlines : ∀ row ∈ rows, IsLine row := fun row hm => ⟨hrows row hm, fun hr => hc <| by
    rw [hcode]
    exact List.mem_flatMap.2 ⟨row, hm, List.mem_append_left _ (List.mem_of_getLast? hr)⟩⟩
  rw [prefixLines, spaced, hcode, spaces, String.toList_ofList, indentChars_eq_ended, lines_ended_of_isLine hlines,
    splitOn_ended hrows, List.map_append, ← List.append_nil (ended _), ended_append]
  rfl

/-- **One more level of indentation** puts two more blanks in front. -/
theorem prefixLines_spaced {code : String} (hc : '\r' ∉ code.toList) (he : code = "" ∨ EndsLine code) (width : Nat) :
    prefixLines (spaced width code) indentation = spaced (width + 2) code := by
  have hspaces : '\n' ∉ (spaces width).toList := by simp [spaces]
  have hmore : indentation ++ spaces width = spaces (width + 2) := by
    rw [Nat.add_comm, spaces, spaces, List.replicate_add, String.ofList_append]
    rfl
  rw [← prefixLines_spaces hc he, prefixLines_prefixLines hc hspaces, hmore, prefixLines_spaces hc he]

theorem endsLine_spaced {code : String} (hc : '\r' ∉ code.toList) (he : EndsLine code) (width : Nat) :
    EndsLine (spaced width code) := by
  have hne : lines code.toList ≠ [] := lines_ne_nil fun hnil => by rw [EndsLine, hnil] at he; cases he
  rw [← prefixLines_spaces hc (.inr he), EndsLine, prefixLines, String.toList_ofList, indentChars_eq_ended]
  exact getLast?_ended (by simpa using hne)

end Blockwork.Text
