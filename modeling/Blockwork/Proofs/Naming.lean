/-
Names issued by the allocator.

- `distinct_not_mem`: a distinct name is none of those issued before. The candidates are pairwise different,
  so among one more candidate than there are issued names one is free.
- `distinct_eq_candidate`: it is a candidate of its base; when the base itself is free it is the base.
- `isIdentifier_safeName`, `isIdentifier_distinct`: whatever the user writes, a name is a letter or an
  underscore followed by letters, digits and underscores.
- `Reachable`: what any sequence of requests can make of the allocator; `Reachable.wellFormed` is the
  invariant that every bound name is an identifier.
-/
import Blockwork.Names
import Mathlib.Tactic

namespace Blockwork.Names

/-! ## The search for a free name -/

theorem toString_ne_empty (n : Nat) : toString n ≠ "" := by
  intro h
  have hd : Nat.toDigits 10 n = [] := by
    rw [← Nat.toList_repr]
    exact congrArg String.toList h
  exact Nat.toDigits_ne_nil hd

theorem toString_injective : Function.Injective (toString : Nat → String) := by
  intro m n h
  have hd : Nat.toDigits 10 m = Nat.toDigits 10 n := by
    rw [← Nat.toList_repr, ← Nat.toList_repr]
    exact congrArg String.toList h
  rw [← Nat.ofDigitChars_ten_toDigits (n := m), hd, Nat.ofDigitChars_ten_toDigits]

theorem candidate_succ_ne (base : String) (k : Nat) : candidate base (k + 1) ≠ base := by
  intro h
  have hs : base ++ toString (k + 2) = base ++ "" := by rw [String.append_empty]; exact h
  exact toString_ne_empty (k + 2) ((String.append_right_inj base).1 hs)

/-- the candidates of a base are pairwise different -/
theorem candidate_injective (base : String) : Function.Injective (candidate base) := by
  intro j k h
  match j, k with
  | 0, 0 => rfl
  | 0, k + 1 => exact absurd h.symm (candidate_succ_ne base k)
  | j + 1, 0 => exact absurd h (candidate_succ_ne base j)
  | j + 1, k + 1 =>
    have := toString_injective ((String.append_right_inj base).1 h)
    omega

/-- the search gives the first candidate that is free, or the one after the last it looks at -/
theorem firstFree_eq_candidate (issued : List String) (base : String) (fuel k : Nat) :
    ∃ j ≤ fuel, firstFree issued base fuel k = candidate base (k + j) ∧
      ∀ i < j, candidate base (k + i) ∈ issued := by
  induction fuel generalizing k with
  | zero => exact ⟨0, le_refl 0, rfl, fun i hi => absurd hi (Nat.not_lt_zero i)⟩
  | succ fuel ih =>
    simp only [firstFree]
    split_ifs with hc
    · obtain ⟨j, hj, he, hall⟩ := ih (k + 1)
      refine ⟨j + 1, by omega, by rw [he]; congr 1; omega, fun i hi => ?_⟩
      cases i with
      | zero => simpa using hc
      | succ i =>
        have h := hall i (by omega)
        rwa [show k + 1 + i = k + (i + 1) by omega] at h
    · exact ⟨0, Nat.zero_le _, rfl, fun i hi => absurd hi (Nat.not_lt_zero i)⟩

/-- if the search ends on a taken name, every candidate it looked at is taken -/
theorem mem_of_firstFree_mem {issued : List String} {base : String} {fuel k : Nat}
    (h : firstFree issued base fuel k ∈ issued) : ∀ j ≤ fuel, candidate base (k + j) ∈ issued := by
  induction fuel generalizing k with
  | zero =>
    intro j hj
    obtain rfl : j = 0 := by omega
    exact h
  | succ fuel ih =>
    simp only [firstFree] at h
    split_ifs at h with hc
    · intro j hj
      cases j with
      | zero => simpa using hc
      | succ j =>
        have h' := ih h j (by omega)
        rwa [show k + 1 + j = k + (j + 1) by omega] at h'
    · exact absurd h (by simpa using hc)

/-- **A distinct name is new.** -/
theorem distinct_not_mem (names : Names) (base : String) : (names.distinct base).1 ∉ names.issued := by
  intro h
  -- otherwise one more candidate than there are issued names would be issued, all different
  have hall := mem_of_firstFree_mem h
  have hnodup : ((List.range (names.issued.length + 1)).map (candidate (safeName base))).Nodup :=
    List.nodup_range.map (candidate_injective _)
  have hsub : (List.range (names.issued.length + 1)).map (candidate (safeName base)) ⊆ names.issued := by
    intro name hn
    obtain ⟨j, hj, rfl⟩ := List.mem_map.1 hn
    have := hall j (by have := List.mem_range.1 hj; omega)
    rwa [Nat.zero_add] at this
  have hlen := hnodup.length_le_of_subset hsub
  simp at hlen

/-- a distinct name is a candidate of its base, and all candidates before it are taken -/
theorem distinct_eq_candidate (names : Names) (base : String) :
    ∃ j, (names.distinct base).1 = candidate (safeName base) j ∧
      ∀ i < j, candidate (safeName base) i ∈ names.issued := by
  obtain ⟨j, -, he, hall⟩ := firstFree_eq_candidate names.issued (safeName base) names.issued.length 0
  simp only [Nat.zero_add] at he hall
  exact ⟨j, he, hall⟩

theorem distinct_issued (names : Names) (base : String) :
    (names.distinct base).2.issued = (names.distinct base).1 :: names.issued := rfl

/-- after a request for a distinct name, the base of the request is taken in any case -/
theorem safeName_mem_distinct (names : Names) (base : String) : safeName base ∈ (names.distinct base).2.issued := by
  obtain ⟨j, he, hall⟩ := distinct_eq_candidate names base
  rw [distinct_issued]
  cases j with
  | zero => exact he ▸ List.mem_cons_self
  | succ j => exact List.mem_cons_of_mem _ (hall 0 (Nat.succ_pos j))

/-! ## Identifiers -/

/-- a letter or an underscore, followed by letters, digits and underscores -/
def IsIdentifier (name : String) : Prop :=
  ∃ c cs, name.toList = c :: cs ∧ isNameChar c ∧ ¬ c.isDigit ∧ ∀ d ∈ cs, isNameChar d

theorem isNameChar_of_isDigit {c : Char} (h : c.isDigit) : isNameChar c := by
  simp [isNameChar, Char.isAlphanum, h]

theorem toNat_of_isNameChar {c : Char} (h : isNameChar c) :
    c = '_' ∨ (0x41 ≤ c.toNat ∧ c.toNat ≤ 0x5A) ∨ (0x61 ≤ c.toNat ∧ c.toNat ≤ 0x7A) ∨
      (0x30 ≤ c.toNat ∧ c.toNat ≤ 0x39) := by
  rw [isNameChar, Bool.or_eq_true, beq_iff_eq] at h
  rcases h with h | rfl
  · delta Char.isAlphanum Char.isAlpha Char.isUpper Char.isLower Char.isDigit at h
    simp only [Bool.or_eq_true, Bool.and_eq_true, decide_eq_true_eq, ge_iff_le, UInt32.le_iff_toNat_le] at h
    exact .inr (or_assoc.1 h)
  · exact .inl rfl

theorem isIdentifier_safeName (name : String) : IsIdentifier (safeName name) := by
  have hcover : ∀ c : Char, isNameChar (if isNameChar c then c else '_') := by
    intro c
    split_ifs with h
    · exact h
    · rfl
  unfold IsIdentifier safeName safeChars
  rw [String.toList_ofList]
  cases hm : (Text.trim name.toList).map fun c => if isNameChar c then c else '_' with
  | nil => exact ⟨'u', "nnamed".toList, rfl, rfl, by decide, List.all_eq_true.1 rfl⟩
  | cons c rest =>
    have hall : ∀ d ∈ c :: rest, isNameChar d := by
      intro d hd
      rw [← hm] at hd
      obtain ⟨e, -, rfl⟩ := List.mem_map.1 hd
      exact hcover e
    obtain ⟨hc, hrest⟩ := List.forall_mem_cons.1 hall
    dsimp only
    split_ifs with hdigit
    · refine ⟨'m', "y_".toList ++ c :: rest, rfl, rfl, by decide, fun d hd => ?_⟩
      rcases List.mem_append.1 hd with hd | hd
      · have hy : ∀ e ∈ "y_".toList, isNameChar e := List.all_eq_true.1 rfl
        exact hy d hd
      · exact hall d hd
    · exact ⟨c, rest, rfl, hc, hdigit, hrest⟩

theorem isIdentifier_candidate {base : String} (h : IsIdentifier base) (j : Nat) : IsIdentifier (candidate base j) := by
  cases j with
  | zero => exact h
  | succ j =>
    obtain ⟨c, cs, he, hc, hd, hcs⟩ := h
    refine ⟨c, cs ++ (toString (j + 2)).toList, by simp [candidate, he], hc, hd, fun d hm => ?_⟩
    rcases List.mem_append.1 hm with hm | hm
    · exact hcs d hm
    · have hdig : d ∈ Nat.toDigits 10 (j + 2) := by
        rw [← Nat.toList_repr]; exact hm
      exact isNameChar_of_isDigit (Nat.isDigit_of_mem_toDigits (by decide) (by decide) hdig)

theorem isIdentifier_distinct (names : Names) (base : String) : IsIdentifier (names.distinct base).1 := by
  obtain ⟨j, he, -⟩ := distinct_eq_candidate names base
  rw [he]
  exact isIdentifier_candidate (isIdentifier_safeName base) j

/-! ## Any sequence of requests -/

/-- what requests can make of an allocator that starts from any list of reserved words -/
inductive Reachable : Names → Prop
  | start (reserved : List String) : Reachable (start reserved)
  | distinct {names : Names} (base : String) : Reachable names → Reachable (names.distinct base).2
  | bind {names : Names} (role : Role) (user : String) : Reachable names → Reachable (names.bind role user).2

/-- every bound name and every variable is an identifier -/
structure WellFormed (names : Names) : Prop where
  bound : ∀ entry ∈ names.bound, IsIdentifier entry.2
  variableNames : ∀ name ∈ names.variableNames, IsIdentifier name

theorem mem_of_binding? {names : Names} {role : Role} {user name : String}
    (h : names.binding? role user = some name) : ((role, user), name) ∈ names.bound := by
  obtain ⟨before, after, he, -⟩ := List.lookup_eq_some_iff.1 h
  rw [he]; simp

theorem binding?_bind (names : Names) (role : Role) (user : String) :
    (names.bind role user).2.binding? role user = some (names.bind role user).1 := by
  unfold Names.bind
  cases hn : names.binding? role user with
  | some name => exact hn
  | none => simp [binding?]

theorem wellFormed_start (reserved : List String) : WellFormed (start reserved) :=
  ⟨fun _ h => absurd h List.not_mem_nil, fun _ h => absurd h List.not_mem_nil⟩

theorem WellFormed.distinct {names : Names} (h : names.WellFormed) (base : String) :
    (names.distinct base).2.WellFormed := ⟨h.bound, h.variableNames⟩

theorem WellFormed.bind {names : Names} (h : names.WellFormed) (role : Role) (user : String) :
    IsIdentifier (names.bind role user).1 ∧ (names.bind role user).2.WellFormed := by
  unfold Names.bind
  cases hb : names.binding? role user with
  | some name => exact ⟨h.bound _ (mem_of_binding? hb), h⟩
  | none =>
    have hname := isIdentifier_distinct names user
    refine ⟨hname, List.forall_mem_cons.2 ⟨hname, h.bound⟩, ?_⟩
    intro name hm
    simp only at hm
    split_ifs at hm
    · rcases List.mem_append.1 hm with hm | hm
      · exact h.variableNames name hm
      · exact List.mem_singleton.1 hm ▸ hname
    · exact h.variableNames name hm

/-- **Whatever is asked for, bound names are identifiers.** -/
theorem Reachable.wellFormed {names : Names} (h : names.Reachable) : names.WellFormed := by
  induction h with
  | start reserved => exact wellFormed_start reserved
  | distinct base _ ih => exact ih.distinct base
  | bind role user _ ih => exact (ih.bind role user).2

theorem IsIdentifier.quote_not_mem {name : String} (h : IsIdentifier name) : '\'' ∉ name.toList := by
  obtain ⟨c, cs, he, hc, -, hcs⟩ := h
  have hall : ∀ d ∈ name.toList, isNameChar d := by
    rw [he]
    exact List.forall_mem_cons.2 ⟨hc, hcs⟩
  exact fun hm => absurd (hall _ hm) (by decide)

end Blockwork.Names
