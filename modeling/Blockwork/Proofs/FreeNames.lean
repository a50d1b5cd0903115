/-
The search for a free name, as the loop that it is.

- `Search`: the loop, with no bound on it: each candidate that is taken leads to the next one.
- `search_iff`: it ends at the first free candidate, and nowhere else.
- `firstFree_eq`: the search that counts its candidates gives the outcome of the loop, if it may look that far; among
  one more candidate than there are issued names, it may (`Search.le_card`).
- `safeName_eq_self_iff`: the names that are identifiers already are the ones that stay as they are.
- `distinct_takes_first_free`: the main statement.
-/
import Blockwork.Proofs.Layout
import Blockwork.Proofs.Phrases

namespace Blockwork.Names

/-! ## The loop -/

/-- from the `k`-th candidate on, the search ends at the `j`-th: a free candidate ends it, and behind one that is taken
it goes on with the next -/
inductive Search (issued : List String) (base : String) : Nat → Nat → Prop
  | free {k : Nat} : candidate base k ∉ issued → Search issued base k k
  | taken {k j : Nat} : candidate base k ∈ issued → Search issued base (k + 1) j → Search issued base k j

section

variable {issued : List String} {base : String} {k j : Nat}

theorem search_of_mem (h : candidate base k ∈ issued) : Search issued base k j ↔ Search issued base (k + 1) j := by
  refine ⟨fun hs => ?_, .taken h⟩
  cases hs with
  | free hfree => exact absurd h hfree
  | taken _ hnext => exact hnext

/-- **The search ends at the first candidate that is free.** -/
theorem search_iff : Search issued base k j ↔
    k ≤ j ∧ candidate base j ∉ issued ∧ ∀ i, k ≤ i → i < j → candidate base i ∈ issued := by
  constructor
  · intro h
    induction h with
    | free hfree => exact ⟨le_rfl, hfree, fun i hk hi => absurd hk (not_le.2 hi)⟩
    | @taken k j htaken _ ih =>
      obtain ⟨hle, hfree, hbetween⟩ := ih
      refine ⟨Nat.le_of_succ_le hle, hfree, fun i hk hi => ?_⟩
      rcases hk.eq_or_lt with rfl | hlt
      · exact htaken
      · exact hbetween i hlt hi
  · rintro ⟨hle, hfree, hbetween⟩
    induction hle using Nat.decreasingInduction with
    | self => exact .free hfree
    | of_succ k hk ih =>
      exact .taken (hbetween k le_rfl hk) (ih fun i hi => hbetween i (Nat.le_of_succ_le hi))

theorem Search.unique {i : Nat} (h : Search issued base k j) (h' : Search issued base k i) : i = j := by
  obtain ⟨hj, hfree, hbetween⟩ := search_iff.1 h
  obtain ⟨hi, hfree', hbetween'⟩ := search_iff.1 h'
  rcases Nat.lt_trichotomy i j with hlt | heq | hgt
  · exact absurd (hbetween i hi hlt) hfree'
  · exact heq
  · exact absurd (hbetween' j hj hgt) hfree

/-- the candidates that are passed over are as many issued names -/
theorem Search.le_card (h : Search issued base 0 j) : j ≤ issued.toFinset.card := by
  obtain ⟨-, -, hbetween⟩ := search_iff.1 h
  have hsub : (Finset.range j).image (candidate base) ⊆ issued.toFinset := by
    intro name hn
    obtain ⟨i, hi, rfl⟩ := Finset.mem_image.1 hn
    exact List.mem_toFinset.2 (hbetween i (Nat.zero_le i) (Finset.mem_range.1 hi))
  calc j = ((Finset.range j).image (candidate base)).card := by
        rw [Finset.card_image_of_injective _ (candidate_injective base), Finset.card_range]
    _ ≤ issued.toFinset.card := Finset.card_le_card hsub

/-- **Counting the candidates changes nothing**, as long as the count reaches the outcome of the loop. -/
theorem firstFree_eq {fuel : Nat} (h : Search issued base k j) (hj : j ≤ k + fuel) :
    firstFree issued base fuel k = candidate base j := by
  induction fuel generalizing k with
  | zero =>
    obtain rfl : k = j := le_antisymm (search_iff.1 h).1 hj
    rfl
  | succ fuel ih =>
    unfold firstFree
    split_ifs with hc
    · have hmem : candidate base k ∈ issued := by simpa using hc
      exact ih ((search_of_mem hmem).1 h) (by omega)
    · cases h with
      | free _ => rfl
      | taken htaken _ => exact absurd (by simpa using htaken) hc

end

/-- **The search ends**, whatever has been issued: not all candidates can be taken, as they are pairwise different. -/
theorem exists_search (issued : List String) (base : String) : ∃ j, Search issued base 0 j := by
  have hfree : ∃ j, candidate base j ∉ issued := by
    by_contra hall
    have hinfinite := Set.infinite_range_of_injective (candidate_injective base)
    refine hinfinite (issued.finite_toSet.subset ?_)
    rintro _ ⟨j, rfl⟩
    exact not_not.1 fun hj => hall ⟨j, hj⟩
  classical
  refine ⟨Nat.find hfree, search_iff.2 ⟨Nat.zero_le _, Nat.find_spec hfree, fun i _ hi => ?_⟩⟩
  exact not_not.1 (Nat.find_min hfree hi)

/-! ## Names that stay as they are -/

theorem safeName_of_isIdentifier {name : String} (h : IsIdentifier name) : safeName name = name := by
  obtain ⟨c, cs, hname, hc, hdigit, hcs⟩ := h
  have hall : ∀ d ∈ c :: cs, isNameChar d := List.forall_mem_cons.2 ⟨hc, hcs⟩
  have hkept : (c :: cs).map (fun d => if isNameChar d then d else '_') = c :: cs :=
    (List.map_congr_left fun d hd => if_pos (hall d hd)).trans (List.map_id _)
  have hsafe : safeChars (c :: cs) = c :: cs := by
    unfold safeChars
    rw [Text.trim_of_not_isBlank fun d hd => isBlank_of_isNameChar (hall d hd), hkept]
    exact if_neg hdigit
  rw [safeName, hname, hsafe, ← hname, String.ofList_toList]

/-- **The names that stay as they are, are the identifiers.** -/
theorem safeName_eq_self_iff {name : String} : safeName name = name ↔ IsIdentifier name :=
  ⟨fun h => h ▸ isIdentifier_safeName name, safeName_of_isIdentifier⟩

/-! ## Distinct names -/

/-- **A distinct name is the first free one.** Whatever has been issued and whatever the base, the loop over the base,
the base with 2, the base with 3 and so on ends, at one candidate only. It looks at no more candidates than one more
than there are issued names; the one it ends at is free, and all before it are taken. That candidate is the answer, and
it is all that the request adds to the allocator. The base is made an identifier first, and making it one again changes
nothing. -/
theorem distinct_takes_first_free (names : Names) (base : String) :
    (∃ j, (∀ i, Search names.issued (safeName base) 0 i ↔ i = j) ∧ j + 1 ≤ names.issued.toFinset.card + 1 ∧
      candidate (safeName base) j ∉ names.issued ∧ (∀ i < j, candidate (safeName base) i ∈ names.issued) ∧
      names.distinct base = (candidate (safeName base) j,
        { names with issued := candidate (safeName base) j :: names.issued })) ∧
    safeName (safeName base) = safeName base ∧ IsIdentifier (safeName base) := by
  have hidentifier := isIdentifier_safeName base
  obtain ⟨j, hsearch⟩ := exists_search names.issued (safeName base)
  obtain ⟨-, hfree, hbefore⟩ := search_iff.1 hsearch
  have hcard := hsearch.le_card
  have hlength : j ≤ 0 + names.issued.length := by
    rw [Nat.zero_add]
    exact hcard.trans (List.toFinset_card_le _)
  refine ⟨⟨j, fun i => ⟨hsearch.unique, fun hi => hi ▸ hsearch⟩, Nat.succ_le_succ hcard, hfree,
    fun i hi => hbefore i (Nat.zero_le i) hi, ?_⟩, safeName_of_isIdentifier hidentifier, hidentifier⟩
  rw [distinct, firstFree_eq hsearch hlength]

/-- issued names that look like candidates are passed over -/
example : ((start ["a", "a2", "a3"]).distinct " \ta").1 = "a4" := by
  rfl

end Blockwork.Names
