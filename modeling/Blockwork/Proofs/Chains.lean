/-
Blocks below each other and blocks beside each other. A workspace lists the first blocks of its stacks, and each stack
goes on below its first block; for the program only the order in which the blocks come matters.

- `Block.chainCode_chain`: the code of a chain put below another is generated after it, in the state it left.
- `Block.chainsCode_append`: so is the code of further stacks.
- `stacks_and_chains_agree`: two neighbouring stacks may be made one, and so may all of them, with the same program or
  the same cause of failure.
-/
import Blockwork.Proofs.Chronicle

namespace Blockwork

namespace Block

variable (table : Table)

/-- a chain is what its first block adds to it, and then the chain below that block -/
theorem chainCode_mk (head : Head) (values statements : List (Nat × Block)) (next : Option Block) :
    (mk head values statements next).chainCode table = (do
      let own ← head.link ((mk head values statements next).code table)
      let rest ← nextChain table next
      pure (own ++ rest)) := chain_eq table head values statements next

/-- **A chain put below another is generated after it.** The two runs are the same action, so they agree in every state,
and where one fails the other fails alike. -/
theorem chainCode_chain (block tail : Block) :
    (block.chain tail).chainCode table = (do
      let first ← block.chainCode table
      let rest ← tail.chainCode table
      pure (first ++ rest)) := by
  -- the chain is walked down to the block that has none below it
  induction block with
  | mk head values statements next _ _ ih =>
    have hcode : ∀ below, (mk head values statements below).code table = (mk head values statements next).code table :=
      fun _ => rfl
    have hnext : ∀ below, nextChain table (some below) = below.chainCode table := fun _ => rfl
    cases next with
    | none =>
      rw [chain, chainCode_mk, hcode, hnext, chainCode_mk]
      simp only [nextChain, bind_assoc, pure_bind, String.append_empty]
    | some below =>
      rw [chain, chainCode_mk, hcode, hnext, ih below rfl, chainCode_mk, hnext]
      simp only [bind_assoc, pure_bind, String.append_assoc]

/-- stacks behind others are generated after them -/
theorem chainsCode_append (blocks others : List Block) :
    chainsCode table (blocks ++ others) = (do
      let first ← chainsCode table blocks
      let rest ← chainsCode table others
      pure (first ++ rest)) := by
  induction blocks with
  | nil => simp only [List.nil_append, chainsCode, pure_bind, String.empty_append, bind_pure]
  | cons block blocks ih =>
    simp only [List.cons_append, chainsCode, ih, bind_assoc, pure_bind, String.append_assoc]

/-- a stack on top of others goes on with the next of them -/
theorem chainsCode_chain (block tail : Block) (others : List Block) :
    chainsCode table (block.chain tail :: others) = chainsCode table (block :: tail :: others) := by
  simp only [chainsCode, chainCode_chain, bind_assoc, pure_bind, String.append_assoc]

theorem chainsCode_foldl (first : Block) (others : List Block) :
    chainsCode table [others.foldl chain first] = chainsCode table (first :: others) := by
  induction others generalizing first with
  | nil => rfl
  | cons block others ih => rw [List.foldl_cons, ih, chainsCode_chain]

theorem chainsCode_foldr (blocks : List Block) (last : Block) :
    chainsCode table [blocks.foldr chain last] = chainsCode table (blocks ++ [last]) := by
  induction blocks with
  | nil => rfl
  | cons block blocks ih =>
    rw [List.foldr_cons, chainsCode_chain, chainsCode, ih, List.cons_append, chainsCode]

end Block

/-- what is generated in the same way is the same program, or fails with the same cause -/
theorem generate_congr {language : Language} {blocks others : List Block}
    (h : Block.chainsCode (.standard language) blocks = Block.chainsCode (.standard language) others) :
    generate language blocks = generate language others := by
  unfold generate
  rw [h]

/-- **Stacks and chains agree.** Anywhere in a workspace, a stack and the one behind it may be put below each other:
the program is the same, and so is the cause if there is none. So the stacks of a workspace that has any may all be
made one chain, from the top down or from the bottom up. -/
theorem stacks_and_chains_agree (language : Language) :
    (∀ (xs ys : List Block) (a b : Block),
      generate language (xs ++ [a, b] ++ ys) = generate language (xs ++ [a.chain b] ++ ys)) ∧
    (∀ (first : Block) (others : List Block),
      generate language (first :: others) = generate language [others.foldl Block.chain first]) ∧
    ∀ (blocks : List Block) (last : Block),
      generate language (blocks ++ [last]) = generate language [blocks.foldr Block.chain last] := by
  refine ⟨fun xs ys a b => generate_congr ?_, fun first others => generate_congr ?_,
    fun blocks last => generate_congr ?_⟩
  · rw [List.append_assoc, List.append_assoc, Block.chainsCode_append, Block.chainsCode_append _ xs]
    exact congrArg _ (funext fun first => congrArg (· >>= _) (Block.chainsCode_chain _ a b ys).symm)
  · exact (Block.chainsCode_foldl _ first others).symm
  · exact (Block.chainsCode_foldr _ blocks last).symm

end Blockwork
