import Bee.Ledger.Utxo

namespace Bee

open AssocMap

/-!
# bee-block — the supply accounting of foundry transitions

`FoundryOutput::transition` compares the balance of the foundry's token among
the inputs (`in`) and the outputs (`out`) of a transaction with the change of
the foundry's two supply counters, `minted` and `melted`.

* `FoundryOutput.transition_supply` — what an accepted transition guarantees:
  both counters grow; if `in < out`, `minted` grows by `out - in` and `melted`
  stays; if `in = out`, neither moves; if `out < in`, `melted` grows by at most
  `in - out`, and one of the two counters stays;
* `melt_transition_accepts_minting` — that last disjunction is all the melt/burn
  branch asks (`melted != melted' && minted != minted'`), so a transition that
  burns tokens while minting new ones, with `melted` unchanged, is accepted.
-/

section Transition

variable {current next : FoundryOutput} {ctx : ValidationContext} {cur nxt : SimpleTokenScheme}

/-- An accepted foundry transition, branch by branch of the comparison of `in` and `out`. -/
theorem FoundryOutput.transition_supply (hcur : current.tokenScheme = .simple cur)
    (hnxt : next.tokenScheme = .simple nxt) (h : current.transition next ctx = .ok ()) :
    cur.mintedTokens ≤ nxt.mintedTokens ∧ cur.meltedTokens ≤ nxt.meltedTokens ∧
    (balanceOf ctx.inputNativeTokens next.tokenId < balanceOf ctx.outputNativeTokens next.tokenId →
      nxt.mintedTokens - cur.mintedTokens =
        balanceOf ctx.outputNativeTokens next.tokenId - balanceOf ctx.inputNativeTokens next.tokenId ∧
      nxt.meltedTokens = cur.meltedTokens) ∧
    (balanceOf ctx.inputNativeTokens next.tokenId = balanceOf ctx.outputNativeTokens next.tokenId →
      nxt.mintedTokens = cur.mintedTokens ∧ nxt.meltedTokens = cur.meltedTokens) ∧
    (balanceOf ctx.outputNativeTokens next.tokenId < balanceOf ctx.inputNativeTokens next.tokenId →
      (nxt.meltedTokens = cur.meltedTokens ∨ nxt.mintedTokens = cur.mintedTokens) ∧
      nxt.meltedTokens - cur.meltedTokens ≤
        balanceOf ctx.inputNativeTokens next.tokenId - balanceOf ctx.outputNativeTokens next.tokenId) := by
  unfold FoundryOutput.transition at h
  rw [hcur, hnxt] at h
  dsimp only at h
  generalize balanceOf ctx.inputNativeTokens next.tokenId = input at h ⊢
  generalize balanceOf ctx.outputNativeTokens next.tokenId = output at h ⊢
  -- past the immutable fields, the supply cap and the monotonicity of the counters, the
  -- three branches of `input_tokens.cmp(&output_tokens)` that return `Ok`
  split_ifs at h with himm hmax hmono hlt hmint hmelt heq hchg hburn hdiff
  all_goals refine ⟨BitVec.not_lt.mp (not_or.mp hmono).1, BitVec.not_lt.mp (not_or.mp hmono).2, ?_⟩
  · exact ⟨fun _ => ⟨of_not_not hmint, (of_not_not hmelt).symm⟩,
      fun h' => absurd hlt (by rw [h']; exact BitVec.lt_irrefl _),
      fun h' => absurd hlt (BitVec.not_lt.mpr (BitVec.le_of_lt h'))⟩
  · have hchg' := not_or.mp hchg
    exact ⟨fun h' => absurd heq (BitVec.ne_of_lt h'),
      fun _ => ⟨(of_not_not hchg'.1).symm, (of_not_not hchg'.2).symm⟩,
      fun h' => absurd heq (BitVec.ne_of_lt h').symm⟩
  · refine ⟨fun h' => absurd h' hlt, fun h' => absurd h' heq, fun _ => ⟨?_, BitVec.not_lt.mp hdiff⟩⟩
    -- the guard only rejects both counters changing
    by_cases hmelt : cur.meltedTokens = nxt.meltedTokens
    · exact Or.inl hmelt.symm
    · exact Or.inr (of_not_not fun hmint => hburn ⟨hmelt, fun h' => hmint h'.symm⟩)

end Transition

/-- A context in which the inputs hold 100 tokens of the foundry `5…5`, serial 1, and the
outputs 50. -/
def meltContext : ValidationContext :=
  { ValidationContext.new .truncating (.replicate 32 7) Utxo.foundryDuplicate.essence []
      Utxo.foundryDuplicate.unlocks 0 with
    inputNativeTokens := collect [(FoundryId.build (.replicate 32 5) 1 0, BitVec.ofNat 256 100)]
    outputNativeTokens := collect [(FoundryId.build (.replicate 32 5) 1 0, BitVec.ofNat 256 50)] }

theorem melt_transition_accepts_minting :
    (Utxo.mintingFoundry 1 100).transition (Utxo.mintingFoundry 1 200) meltContext = .ok () ∧
      balanceOf meltContext.outputNativeTokens (Utxo.mintingFoundry 1 200).tokenId <
        balanceOf meltContext.inputNativeTokens (Utxo.mintingFoundry 1 200).tokenId ∧
      ∃ cur nxt : SimpleTokenScheme, (Utxo.mintingFoundry 1 100).tokenScheme = .simple cur ∧
        (Utxo.mintingFoundry 1 200).tokenScheme = .simple nxt ∧ cur.mintedTokens ≠ nxt.mintedTokens := by
  refine ⟨by decide +kernel, by decide +kernel, _, _, rfl, rfl, by decide⟩

end Bee
