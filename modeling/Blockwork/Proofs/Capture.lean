/-
Captured globals: when a name issued during a run is also a global identifier that the target's templates
or helpers refer to.

Most globals are reserved words and can never be issued (`distinct_not_mem`). Three are not reserved:
`RegExp` and `Match` in Dart, `isinstance` in Python. `captured_iff_asked` says exactly when one of these is
issued: when the workspace asks for a variable or a procedure whose name reads as that word. No other name
of a run can be one, since helpers and temporaries have bases of their own and a suffixed name ends in a
digit.
-/
import Blockwork.Proofs.Naming
import Blockwork.Proofs.Survey

namespace Blockwork

namespace Language

/-- the global identifiers that a target's templates and helpers refer to -/
def globals : Language → List String
  | javascript => ["Math", "String", "console"]
  | dart => ["Math", "List", "String", "num", "int", "bool", "double", "print", "RegExp", "Match"]
  | python =>
    ["math", "random", "re", "Number", "isinstance", "float", "len", "max", "min", "print", "range", "round",
     "sorted", "str", "sum"]

/-- the globals that are no reserved words -/
def unguarded : Language → List String
  | javascript => []
  | dart => ["RegExp", "Match"]
  | python => ["isinstance"]

theorem mem_globals_iff_unguarded {language : Language} {word : String} (h : word ∈ language.globals) :
    word ∈ language.unguarded ↔ word ∉ language.reservedWords := by
  revert word
  cases language <;> decide

theorem unguarded_subset (language : Language) : language.unguarded ⊆ language.globals := by
  cases language <;> decide

def freshBases : List String :=
  ["math_mean", "math_median", "math_modes", "math_standard_deviation", "math_random_item", "text_toTitleCase",
   "temp_text"]

theorem issuesFrom_freshBases (language : Language) : language.IssuesFrom (· ∈ freshBases) := by
  suffices h : ∀ form, (language.template form).steps.all fun step => step.base?.all (freshBases.contains ·) by
    intro form step hs base hb
    have hall := List.all_eq_true.1 (h form) step hs
    rw [Option.mem_def.1 hb] at hall
    simpa using hall
  intro form
  cases form using Form.byData with
  | plain form hm =>
    have hplain : ∀ form ∈ Form.plain,
        (language.template form).steps.all fun step => step.base?.all (freshBases.contains ·) := by
      cases language <;> decide +kernel
    exact hplain form hm
  | list items => exact list_steps_all (fun _ => rfl) items
  | choice elseifs otherwise => exact choice_steps_all (fun _ => rfl) (fun _ => rfl) elseifs otherwise
  | onList op => cases language <;> cases op <;> rfl
  | changeCase style => cases language <;> cases style <;> rfl
  | _ => cases language <;> rfl

end Language

/-! ## Where issued names come from -/

namespace Names

/-- the names issued beyond the reserved words: none of them is reserved, each is a candidate of a fixed base
or of a name asked for; and whatever is asked for, the name it reads as is taken -/
structure Accounted (reserved bases : List String) (names : Names) : Prop where
  issued : ∃ new, names.issued = new ++ reserved ∧ ∀ name ∈ new, name ∉ reserved ∧
    ∃ base j, name = candidate (safeName base) j ∧ (base ∈ bases ∨ ∃ role, (role, base) ∈ names.asked)
  taken : ∀ key ∈ names.asked, safeName key.2 ∈ names.issued

variable {reserved bases : List String} {names : Names}

theorem accounted_start : Accounted reserved bases (start reserved) :=
  ⟨⟨[], rfl, fun _ h => nomatch h⟩, fun _ h => nomatch h⟩

/-- one more name, of a base that is fixed or asked for by then -/
theorem Accounted.grow {after : Names} {base : String} (h : Accounted reserved bases names)
    (hi : after.issued = (names.distinct base).1 :: names.issued) (ha : ∀ key ∈ names.asked, key ∈ after.asked)
    (hb : base ∈ bases ∨ ∃ role, (role, base) ∈ after.asked)
    (hn : ∀ key ∈ after.asked, key ∈ names.asked ∨ key.2 = base) : Accounted reserved bases after := by
  obtain ⟨new, hnew, hall⟩ := h.issued
  have hfresh := distinct_not_mem names base
  constructor
  · refine ⟨(names.distinct base).1 :: new, by rw [hi, hnew, List.cons_append], List.forall_mem_cons.2 ⟨⟨?_, ?_⟩, ?_⟩⟩
    · exact fun hr => hfresh (hnew ▸ List.mem_append_right new hr)
    · obtain ⟨j, hj, -⟩ := distinct_eq_candidate names base
      exact ⟨base, j, hj, hb⟩
    · intro name hm
      obtain ⟨hr, b, j, hj, hb' | ⟨role, hrole⟩⟩ := hall name hm
      · exact ⟨hr, b, j, hj, .inl hb'⟩
      · exact ⟨hr, b, j, hj, .inr ⟨role, ha _ hrole⟩⟩
  · intro key hk
    rcases hn key hk with hk | rfl
    · exact hi ▸ List.mem_cons_of_mem _ (h.taken key hk)
    · exact hi ▸ safeName_mem_distinct names key.2

theorem Accounted.distinct (h : Accounted reserved bases names) {base : String} (hb : base ∈ bases) :
    Accounted reserved bases (names.distinct base).2 :=
  h.grow (distinct_issued names base) (fun _ hk => hk) (.inl hb) fun _ hk => .inl hk

theorem Accounted.bind (h : Accounted reserved bases names) (role : Role) (user : String) :
    Accounted reserved bases (names.bind role user).2 := by
  have hasked := names.asked_bind role user
  unfold Names.bind at hasked ⊢
  cases hb : names.binding? role user with
  | some name => exact h
  | none =>
    rw [hb] at hasked
    have hmem : ∀ key, key ∈ remember names.asked (role, user) ↔ key ∈ names.asked ∨ key = (role, user) := by
      intro key
      unfold remember
      split_ifs with hk
      · exact ⟨.inl, fun h => h.elim id fun he => he ▸ hk⟩
      · simp
    refine h.grow rfl (fun key hk => ?_) (.inr ⟨role, ?_⟩) fun key hk => ?_
    · exact hasked ▸ (hmem key).2 (.inl hk)
    · exact hasked ▸ (hmem _).2 (.inr rfl)
    · exact ((hmem key).1 (hasked ▸ hk)).imp id fun he => by rw [he]

end Names

/-- every change of a run keeps its names accounted for -/
theorem accounted_invariant (reserved bases : List String) :
    Pass.Invariant (· ∈ bases) fun pass => pass.names.Accounted reserved bases :=
  ⟨fun _ role user h => h.bind role user, fun _ _ hb h => h.distinct hb, fun _ _ _ _ h => h⟩

theorem programRun_accounted (language : Language) (blocks : List Block) :
    (programRun language blocks).2.names.Accounted language.reservedWords Language.freshBases :=
  Block.keeps_chainsCode (accounted_invariant _ _) language.issuesFrom_freshBases blocks _ Names.accounted_start

/-! ## Capture -/

/-- the names issued during a run: all that are taken at its end but the reserved words it starts from -/
def issuedNames (language : Language) (blocks : List Block) : List String :=
  let taken := (programRun language blocks).2.names.issued
  taken.take (taken.length - language.reservedWords.length)

theorem issuedNames_append (language : Language) (blocks : List Block) :
    issuedNames language blocks ++ language.reservedWords = (programRun language blocks).2.names.issued := by
  obtain ⟨new, hnew, -⟩ := (programRun_accounted language blocks).issued
  simp [issuedNames, hnew]

theorem mem_foldl_remember (keys seen : List (Role × String)) (key : Role × String) :
    key ∈ keys.foldl remember seen ↔ key ∈ seen ∨ key ∈ keys := by
  induction keys generalizing seen with
  | nil => simp
  | cons k rest ih =>
    rw [List.foldl_cons, ih, remember]
    split_ifs with hk
    · constructor
      · rintro (h | h)
        · exact .inl h
        · exact .inr (List.mem_cons_of_mem k h)
      · rintro (h | h)
        · exact .inl h
        · rcases List.mem_cons.1 h with rfl | h
          · exact .inl hk
          · exact .inr h
    · simp [or_assoc]

theorem mem_firstUses (keys : List (Role × String)) (key : Role × String) : key ∈ firstUses keys ↔ key ∈ keys := by
  simp [firstUses, mem_foldl_remember]

theorem Names.getLast?_candidate_succ (base : String) (j : Nat) :
    ((candidate base (j + 1)).toList.getLast?).any Char.isDigit := by
  have hd : ((toString (j + 2)).toList.getLast?).any Char.isDigit := by
    change ((j + 2).repr.toList.getLast?).any Char.isDigit
    rw [Nat.toList_repr, List.getLast?_eq_some_getLast Nat.toDigits_ne_nil]
    exact Nat.isDigit_of_mem_toDigits (by decide) (by decide) (List.getLast_mem _)
  rw [candidate, String.toList_append, List.getLast?_append]
  cases hl : (toString (j + 2)).toList.getLast? with
  | none => rw [hl] at hd; cases hd
  | some c => rw [hl] at hd; exact hd

theorem Language.global_last (language : Language) :
    ∀ word ∈ language.globals, (word.toList.getLast?).any Char.isDigit = false := by
  cases language <;> decide

theorem Language.freshBases_safe (language : Language) :
    ∀ base ∈ freshBases, Names.safeName base ∉ language.globals := by
  cases language <;> decide

/-- a global is issued exactly when it is unguarded and the workspace asks for a name that reads as it -/
theorem global_mem_issuedNames_iff (language : Language) (blocks : List Block) {word : String}
    (hw : word ∈ language.globals) :
    word ∈ issuedNames language blocks ↔
      word ∈ language.unguarded ∧ ∃ key ∈ Finding.requests (Block.findings blocks), Names.safeName key.2 = word := by
  have hacc := programRun_accounted language blocks
  have happ := issuedNames_append language blocks
  have hasked : ∀ key, key ∈ (programRun language blocks).2.names.asked ↔
      key ∈ Finding.requests (Block.findings blocks) := by
    intro key
    rw [programRun_asked, mem_firstUses]
  constructor
  · intro hm
    obtain ⟨new, hnew, hall⟩ := hacc.issued
    obtain rfl : issuedNames language blocks = new := List.append_cancel_right (happ.trans hnew)
    obtain ⟨hr, base, j, rfl, hb⟩ := hall word hm
    refine ⟨(Language.mem_globals_iff_unguarded hw).2 hr, ?_⟩
    cases j with
    | zero =>
      rcases hb with hb | ⟨role, hrole⟩
      · exact absurd hw (language.freshBases_safe base hb)
      · exact ⟨(role, base), (hasked _).1 hrole, rfl⟩
    | succ j =>
      have hd := Names.getLast?_candidate_succ (Names.safeName base) j
      rw [language.global_last _ hw] at hd
      cases hd
  · rintro ⟨hu, key, hk, rfl⟩
    have htaken := hacc.taken key ((hasked key).2 hk)
    rw [← happ] at htaken
    rcases List.mem_append.1 htaken with hm | hr
    · exact hm
    · exact absurd hr ((Language.mem_globals_iff_unguarded hw).1 hu)

/-- **When a global is captured.** The names a run issues are those taken at its end beyond the reserved
words. A global of the target is among them exactly when it is unguarded and the workspace asks, before the
first violation, for a variable or a procedure that reads as it; so no global is captured exactly when no
such name is asked for, and in JavaScript, where every global is reserved, none ever is. -/
theorem captured_iff_asked (language : Language) (blocks : List Block) :
    issuedNames language blocks ++ language.reservedWords = (programRun language blocks).2.names.issued ∧
    (∀ word ∈ language.globals, word ∈ issuedNames language blocks ↔ word ∈ language.unguarded ∧
      ∃ key ∈ Finding.requests (Block.findings blocks), Names.safeName key.2 = word) ∧
    ((∀ word ∈ language.globals, word ∉ issuedNames language blocks) ↔
      ∀ key ∈ Finding.requests (Block.findings blocks), Names.safeName key.2 ∉ language.unguarded) := by
  refine ⟨issuedNames_append language blocks, fun word hw => global_mem_issuedNames_iff language blocks hw, ?_⟩
  constructor
  · intro hnone key hk hu
    have hw := language.unguarded_subset hu
    exact hnone _ hw ((global_mem_issuedNames_iff language blocks hw).2 ⟨hu, key, hk, rfl⟩)
  · intro hnone word hw hm
    obtain ⟨hu, key, hk, rfl⟩ := (global_mem_issuedNames_iff language blocks hw).1 hm
    exact hnone key hk hu

def isinstanceWorkspace : List Block :=
  [.leaf { Head.bare Kind.change.name with titles := [(1, "isinstance")] }]

/-- a user's variable takes the name of the function that its own template calls -/
theorem isinstance_is_captured :
    ¬ (∀ word ∈ Language.python.globals, word ∉ issuedNames .python isinstanceWorkspace) ∧
      generate .python isinstanceWorkspace = .ok
        "from numbers import Number\n\nisinstance = (isinstance if isinstance(isinstance, Number) else 0) + 0\n" := by
  constructor
  · intro h
    exact h "isinstance" (by decide) (by decide)
  · rfl

end Blockwork
