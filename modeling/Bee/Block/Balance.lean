import Bee.Block.Semantic

namespace Bee

open AssocMap

/-!
# bee-block — the amounts of a valid transaction balance

`semantic_validation` returns `ConflictReason::None` only when the amounts of
the consumed outputs add up to the amounts of the created ones:

* `consumeInput_eq_ok`, `createOutput_eq_ok` — the two loop bodies add one
  amount each to the context's input and output amount, and keep the rest of
  what the check reads (the unlocks change only the unlocked addresses,
  `ValidationContext.Unlocking`);
* `consumeInput_stop`, `createOutput_stop`, `semanticValidationBody_stop` — no
  early return of the function carries `ConflictReason::None`, so the verdict
  `None` comes from the end of the function, after the check of the amounts;
* `semanticValidation_balanced` — with the context of `ValidationContext::new`,
  which starts both amounts at zero.
-/

variable (c : Crypto)

/-- An unlock changes only the unlocked addresses of the context. -/
def ValidationContext.Unlocking (ctx ctx' : ValidationContext) : Prop :=
  ∃ addresses, ctx' = { ctx with unlockedAddresses := addresses }

/-- The loops of `semantic_validation` change amounts, balances, unlocked addresses and
deposits; they keep the essence and the chains the context was built with. -/
structure ValidationContext.Frame (ctx ctx' : ValidationContext) : Prop where
  essence : ctx'.essence = ctx.essence
  inputChains : ctx'.inputChains = ctx.inputChains
  outputChains : ctx'.outputChains = ctx.outputChains

theorem ValidationContext.Frame.trans {ctx₁ ctx₂ ctx₃ : ValidationContext} (h₁ : ctx₁.Frame ctx₂)
    (h₂ : ctx₂.Frame ctx₃) : ctx₁.Frame ctx₃ :=
  ⟨h₂.essence.trans h₁.essence, h₂.inputChains.trans h₁.inputChains,
    h₂.outputChains.trans h₁.outputChains⟩

section Unlock

variable {inputs : List (OutputId × Output)} {unlock : Unlock} {ctx ctx' : ValidationContext}

theorem Address.unlock_eq_ok {address : Address} (h : address.unlock c unlock inputs ctx = .ok ctx') :
    ctx.Unlocking ctx' := by
  unfold Address.unlock at h
  split at h
  all_goals (repeat' split at h) <;> cases h <;> exact ⟨_, rfl⟩

theorem Address.unlock_ne_none {address : Address} : address.unlock c unlock inputs ctx ≠ .error .none := by
  unfold Address.unlock
  split
  all_goals (repeat' split) <;> simp

theorem AliasOutput.unlock_eq_ok {o : AliasOutput} {outputId : OutputId}
    (h : o.unlock c outputId unlock inputs ctx = .ok ctx') : ctx.Unlocking ctx' := by
  unfold AliasOutput.unlock at h
  dsimp only at h
  split at h
  · split at h
    · exact Address.unlock_eq_ok c h
    · cases hstate : o.stateControllerAddress.unlock c unlock inputs ctx with
      | error r => simp [hstate, bind, Except.bind] at h
      | ok ctx₁ =>
        simp only [hstate, bind, Except.bind, pure, Except.pure, Except.ok.injEq] at h
        obtain ⟨a, rfl⟩ := Address.unlock_eq_ok c hstate
        subst h
        exact ⟨_, rfl⟩
  · exact Address.unlock_eq_ok c h

theorem AliasOutput.unlock_ne_none {o : AliasOutput} {outputId : OutputId} :
    o.unlock c outputId unlock inputs ctx ≠ .error .none := by
  unfold AliasOutput.unlock
  dsimp only
  split
  · split
    · exact Address.unlock_ne_none c
    · cases hstate : o.stateControllerAddress.unlock c unlock inputs ctx with
      | error r =>
        have hr : r ≠ .none := fun hr => Address.unlock_ne_none c (hr ▸ hstate)
        simpa [bind, Except.bind] using hr
      | ok ctx₁ => simp [bind, Except.bind, pure, Except.pure]
  · exact Address.unlock_ne_none c

theorem NftOutput.unlock_eq_ok {o : NftOutput} {outputId : OutputId}
    (h : o.unlock c outputId unlock inputs ctx = .ok ctx') : ctx.Unlocking ctx' := by
  unfold NftOutput.unlock at h
  cases hlocked : (o.unlockConditions.lockedAddress o.address ctx.milestoneTimestamp).unlock c unlock inputs ctx with
  | error r => simp [hlocked, bind, Except.bind] at h
  | ok ctx₁ =>
    simp only [hlocked, bind, Except.bind, pure, Except.pure, Except.ok.injEq] at h
    obtain ⟨a, rfl⟩ := Address.unlock_eq_ok c hlocked
    subst h
    exact ⟨_, rfl⟩

theorem NftOutput.unlock_ne_none {o : NftOutput} {outputId : OutputId} :
    o.unlock c outputId unlock inputs ctx ≠ .error .none := by
  unfold NftOutput.unlock
  cases hlocked : (o.unlockConditions.lockedAddress o.address ctx.milestoneTimestamp).unlock c unlock inputs ctx with
  | error r =>
    have hr : r ≠ .none := fun hr => Address.unlock_ne_none c (hr ▸ hlocked)
    simpa [bind, Except.bind] using hr
  | ok ctx₁ => simp [bind, Except.bind, pure, Except.pure]

end Unlock

section Loops
variable {inputs : List (OutputId × Output)} {ctx ctx' : ValidationContext}

/-- The unlock of a consumed output reads its amount, never stops with
`ConflictReason::None`, and changes only the unlocked addresses. -/
theorem unlockInput_eq_ok {outputId : OutputId} {unlock : Unlock} {consumed : Output}
    {result : Except ConflictReason ValidationContext} {amount : UInt64} {nts : NativeTokens}
    {ucs : UnlockConditions}
    (h : (unlockInput c inputs ctx outputId unlock consumed).run = .ok (.ok (result, amount, nts, ucs))) :
    amount = consumed.amount ∧ result ≠ .error .none ∧ ∀ ctx', result = .ok ctx' → ctx.Unlocking ctx' := by
  cases consumed with
  | treasury o => simp [unlockInput] at h
  | basic o =>
    simp only [unlockInput, Flow.run_pure, Except.ok.injEq, Prod.mk.injEq] at h
    obtain ⟨rfl, rfl, -, -⟩ := h
    exact ⟨rfl, Address.unlock_ne_none c, fun _ h => Address.unlock_eq_ok c h⟩
  | «alias» o =>
    simp only [unlockInput, Flow.run_pure, Except.ok.injEq, Prod.mk.injEq] at h
    obtain ⟨rfl, rfl, -, -⟩ := h
    exact ⟨rfl, AliasOutput.unlock_ne_none c, fun _ h => AliasOutput.unlock_eq_ok c h⟩
  | foundry o =>
    simp only [unlockInput, Flow.run_pure, Except.ok.injEq, Prod.mk.injEq] at h
    obtain ⟨rfl, rfl, -, -⟩ := h
    exact ⟨rfl, Address.unlock_ne_none c, fun _ h => Address.unlock_eq_ok c h⟩
  | nft o =>
    simp only [unlockInput, Flow.run_pure, Except.ok.injEq, Prod.mk.injEq] at h
    obtain ⟨rfl, rfl, -, -⟩ := h
    exact ⟨rfl, NftOutput.unlock_ne_none c, fun _ h => NftOutput.unlock_eq_ok c h⟩

theorem unlockInput_ne_stop {outputId : OutputId} {unlock : Unlock} {consumed : Output} {r : ConflictReason} :
    (unlockInput c inputs ctx outputId unlock consumed).run ≠ .ok (.error r) := by
  cases consumed <;> simp [unlockInput]

/-- Recording a storage deposit return changes only the returns. -/
theorem recordStorageDepositReturn_eq_ok {ucs : UnlockConditions}
    (h : (recordStorageDepositReturn ctx ucs).run = .ok (.ok ctx')) :
    ∃ m, ctx' = { ctx with storageDepositReturns := m } := by
  unfold recordStorageDepositReturn at h
  split at h
  · simp only [Flow.run_bind_eq_ok_ok, okOr_eq_ok, Flow.run_pure, Except.ok.injEq] at h
    obtain ⟨m, -, rfl⟩ := h
    exact ⟨m, rfl⟩
  · simp only [Flow.run_pure, Except.ok.injEq] at h
    exact ⟨ctx.storageDepositReturns, h.symm⟩

theorem recordStorageDepositReturn_ne_stop {ucs : UnlockConditions} {r : ConflictReason} :
    (recordStorageDepositReturn ctx ucs).run ≠ .ok (.error r) := by
  unfold recordStorageDepositReturn
  split
  · rw [ne_eq, Flow.run_bind_eq_ok_error, not_or]
    exact ⟨okOr_ne_stop, fun ⟨_, _, h⟩ => by simp at h⟩
  · simp

theorem addNativeTokens_ne_stop {m : AssocMap.Map TokenId U256} {tokens : NativeTokens} {e : Error} {r : ConflictReason} :
    (addNativeTokens m tokens e).run ≠ .ok (.error r) := by
  intro h
  obtain ⟨_, -, _, hstep⟩ := Flow.run_foldlM_eq_ok_error h
  exact okOr_ne_stop hstep

/-- The loop body over the inputs adds the consumed output's amount to the
input amount, and changes neither the output amount nor the essence. -/
theorem consumeInput_eq_ok {outputId : OutputId} {consumed : Output} {unlock : Unlock}
    (h : (consumeInput c inputs ctx ((outputId, consumed), unlock)).run = .ok (.ok ctx')) :
    ctx'.inputAmount.toNat = ctx.inputAmount.toNat + consumed.amount.toNat ∧
      ctx'.outputAmount = ctx.outputAmount ∧ ctx.Frame ctx' := by
  simp only [consumeInput, Flow.run_bind_eq_ok_ok] at h
  obtain ⟨⟨result, amount, nts, ucs⟩, hunlock, ctx₁, hctx₁, h⟩ := h
  -- a timelocked output stops the loop
  split at h
  · rw [Flow.run_bind_eq_ok_ok] at h
    obtain ⟨_, hconflict, -⟩ := h
    rw [run_conflict] at hconflict
    cases hconflict
  simp only [Flow.run_bind_eq_ok_ok, okOr_eq_ok, Flow.run_pure, Except.ok.injEq] at h
  obtain ⟨ctx₂, hrecord, inputAmount, hadd, -, -, rfl⟩ := h
  obtain ⟨rfl, -, hunlocked⟩ := unlockInput_eq_ok c hunlock
  obtain ⟨a, rfl⟩ := hunlocked ctx₁ (ofUnlock_eq_ok.mp hctx₁)
  obtain ⟨m, rfl⟩ := recordStorageDepositReturn_eq_ok hrecord
  exact ⟨(UInt64.checkedAdd_eq_some_iff.mp hadd).2, rfl, ⟨rfl, rfl, rfl⟩⟩

/-- The loop body over the inputs stops only with a conflict of the unlock or
an unexpired timelock, never with `ConflictReason::None`. -/
theorem consumeInput_stop {outputId : OutputId} {consumed : Output} {unlock : Unlock} {r : ConflictReason}
    (h : (consumeInput c inputs ctx ((outputId, consumed), unlock)).run = .ok (.error r)) :
    r ≠ .none := by
  simp only [consumeInput, Flow.run_bind_eq_ok_error] at h
  rcases h with h | ⟨⟨result, amount, nts, ucs⟩, hunlock, h⟩
  · exact absurd h (unlockInput_ne_stop c)
  rcases h with h | ⟨ctx₁, -, h⟩
  · rintro rfl
    exact (unlockInput_eq_ok c hunlock).2.1 (ofUnlock_eq_stop.mp h)
  split at h
  · -- the timelock: its conflict, or nothing after it runs
    rw [Flow.run_bind_eq_ok_error, run_conflict] at h
    rcases h with h | ⟨_, h, -⟩
    · cases h
      simp
    · cases h
  · simp only [Flow.run_bind_eq_ok_error] at h
    rcases h with h | ⟨_, -, h | ⟨_, -, h | ⟨_, -, h⟩⟩⟩
    · exact absurd h recordStorageDepositReturn_ne_stop
    · exact absurd h okOr_ne_stop
    · exact absurd h addNativeTokens_ne_stop
    · simp at h

/-- Recording a simple deposit changes only the simple deposits. -/
theorem recordSimpleDeposit_eq_ok {o : BasicOutput} (h : (recordSimpleDeposit ctx o).run = .ok (.ok ctx')) :
    ∃ m, ctx' = { ctx with simpleDeposits := m } := by
  unfold recordSimpleDeposit at h
  split at h
  · simp only [Flow.run_bind_eq_ok_ok, okOr_eq_ok, Flow.run_pure, Except.ok.injEq] at h
    obtain ⟨m, -, rfl⟩ := h
    exact ⟨m, rfl⟩
  · simp only [Flow.run_pure, Except.ok.injEq] at h
    exact ⟨ctx.simpleDeposits, h.symm⟩

theorem recordSimpleDeposit_ne_stop {o : BasicOutput} {r : ConflictReason} :
    (recordSimpleDeposit ctx o).run ≠ .ok (.error r) := by
  unfold recordSimpleDeposit
  split
  · rw [ne_eq, Flow.run_bind_eq_ok_error, not_or]
    exact ⟨okOr_ne_stop, fun ⟨_, _, h⟩ => by simp at h⟩
  · simp

/-- A created output of a kind the loop supports: its amount is read, and the
context's amounts and essence are kept. -/
theorem createdParts_eq_ok {o : Output} {amount : UInt64} {nts : NativeTokens} {features : Features}
    (h : (createdParts ctx o).run = .ok (.ok (ctx', amount, nts, features))) :
    amount = o.amount ∧ ctx'.inputAmount = ctx.inputAmount ∧ ctx'.outputAmount = ctx.outputAmount ∧
      ctx.Frame ctx' := by
  cases o with
  | treasury o => simp [createdParts] at h
  | basic o =>
    simp only [createdParts, Flow.run_bind_eq_ok_ok, Flow.run_pure, Except.ok.injEq, Prod.mk.injEq] at h
    obtain ⟨ctx₁, hrecord, rfl, rfl, -, -⟩ := h
    obtain ⟨m, rfl⟩ := recordSimpleDeposit_eq_ok hrecord
    exact ⟨rfl, rfl, rfl, ⟨rfl, rfl, rfl⟩⟩
  | «alias» o =>
    simp only [createdParts, Flow.run_pure, Except.ok.injEq, Prod.mk.injEq] at h
    obtain ⟨rfl, rfl, -, -⟩ := h
    exact ⟨rfl, rfl, rfl, ⟨rfl, rfl, rfl⟩⟩
  | foundry o =>
    simp only [createdParts, Flow.run_pure, Except.ok.injEq, Prod.mk.injEq] at h
    obtain ⟨rfl, rfl, -, -⟩ := h
    exact ⟨rfl, rfl, rfl, ⟨rfl, rfl, rfl⟩⟩
  | nft o =>
    simp only [createdParts, Flow.run_pure, Except.ok.injEq, Prod.mk.injEq] at h
    obtain ⟨rfl, rfl, -, -⟩ := h
    exact ⟨rfl, rfl, rfl, ⟨rfl, rfl, rfl⟩⟩

theorem createdParts_ne_stop {o : Output} {r : ConflictReason} :
    (createdParts ctx o).run ≠ .ok (.error r) := by
  cases o with
  | basic o =>
    rw [createdParts, ne_eq, Flow.run_bind_eq_ok_error, not_or]
    exact ⟨recordSimpleDeposit_ne_stop, fun ⟨_, _, h⟩ => by simp at h⟩
  | _ => simp [createdParts]

theorem verifySender_stop {features : Features} {r : ConflictReason}
    (h : (verifySender ctx features).run = .ok (.error r)) : r = .unverifiedSender := by
  unfold verifySender at h
  split at h
  · split at h
    · simpa using h.symm
    · simp at h
  · simp at h

/-- The loop body over the created outputs adds the output's amount to the
output amount, and changes neither the input amount nor the essence and the chains. -/
theorem createOutput_eq_ok {o : Output} (h : (createOutput ctx o).run = .ok (.ok ctx')) :
    ctx'.outputAmount.toNat = ctx.outputAmount.toNat + o.amount.toNat ∧
      ctx'.inputAmount = ctx.inputAmount ∧ ctx.Frame ctx' := by
  simp only [createOutput, Flow.run_bind_eq_ok_ok, okOr_eq_ok, Flow.run_pure, Except.ok.injEq] at h
  obtain ⟨⟨ctx₁, amount, nts, features⟩, hparts, -, -, outputAmount, hadd, -, -, rfl⟩ := h
  obtain ⟨rfl, hinput, houtput, hframe⟩ := createdParts_eq_ok hparts
  refine ⟨?_, hinput, hframe.essence, hframe.inputChains, hframe.outputChains⟩
  rw [← houtput]
  exact (UInt64.checkedAdd_eq_some_iff.mp hadd).2

/-- The loop body over the created outputs stops only for an unverified sender. -/
theorem createOutput_stop {o : Output} {r : ConflictReason}
    (h : (createOutput ctx o).run = .ok (.error r)) : r ≠ .none := by
  simp only [createOutput, Flow.run_bind_eq_ok_error] at h
  rcases h with h | ⟨⟨ctx₁, amount, nts, features⟩, -, h | ⟨_, -, h | ⟨_, -, h | ⟨_, -, h⟩⟩⟩⟩
  · exact absurd h createdParts_ne_stop
  · rw [verifySender_stop h]
    simp
  · exact absurd h okOr_ne_stop
  · exact absurd h addNativeTokens_ne_stop
  · simp at h

end Loops

section Body

variable {ctx : ValidationContext} {inputs : List (OutputId × Output)} {unlocks : Unlocks}

/-- No conflict after the loops means, among others, equal amounts. -/
theorem ValidationContext.inputAmount_eq_of_finalConflict (h : ctx.finalConflict = .none) :
    ctx.inputAmount = ctx.outputAmount := by
  unfold ValidationContext.finalConflict at h
  split at h
  · cases h
  · split at h
    · cases h
    · rename_i hne
      exact not_not.mp hne

/-- `semantic_validation` never returns early with `ConflictReason::None`. -/
theorem semanticValidationBody_stop {r : ConflictReason}
    (h : (semanticValidationBody c ctx inputs unlocks).run = .ok (.error r)) : r ≠ .none := by
  unfold semanticValidationBody at h
  split at h
  · -- the inputs commitment
    rw [Flow.run_bind_eq_ok_error, run_conflict] at h
    rcases h with h | ⟨_, h, -⟩
    · cases h
      simp
    · cases h
  simp only [Flow.run_bind_eq_ok_error] at h
  rcases h with h | ⟨ctx₁, -, h | ⟨ctx₂, -, h⟩⟩
  · obtain ⟨⟨⟨outputId, consumed⟩, unlock⟩, -, b, hstep⟩ := Flow.run_foldlM_eq_ok_error h
    exact consumeInput_stop c hstep
  · obtain ⟨o, -, b, hstep⟩ := Flow.run_foldlM_eq_ok_error h
    exact createOutput_stop hstep
  · simp at h

/-- A run of `semantic_validation` that gets past its loops: the loop over the
inputs, the loop over the created outputs, and the verdict of the final checks. -/
theorem semanticValidationBody_eq_ok_loops {v : ConflictReason}
    (h : (semanticValidationBody c ctx inputs unlocks).run = .ok (.ok v)) :
    ∃ ctx₁ ctx₂, ((inputs.zip unlocks.toList).foldlM (consumeInput c inputs) ctx).run = .ok (.ok ctx₁) ∧
      ctx.Frame ctx₁ ∧ (ctx₁.essence.outputs.foldlM createOutput ctx₁).run = .ok (.ok ctx₂) ∧
      ctx₁.Frame ctx₂ ∧ v = ctx₂.finalConflict := by
  unfold semanticValidationBody at h
  split at h
  · -- the inputs commitment
    rw [Flow.run_bind_eq_ok_ok] at h
    obtain ⟨_, hconflict, -⟩ := h
    rw [run_conflict] at hconflict
    cases hconflict
  simp only [Flow.run_bind_eq_ok_ok, Flow.run_pure, Except.ok.injEq] at h
  obtain ⟨ctx₁, hinputs, ctx₂, houtputs, rfl⟩ := h
  -- both loops keep the essence and the chains
  have hframe₁ := Flow.run_foldlM_invariant (fun b => ctx.Frame b)
    (fun b x b' _ hb hstep => by
      obtain ⟨⟨outputId, consumed⟩, unlock⟩ := x
      exact hb.trans (consumeInput_eq_ok c hstep).2.2) hinputs ⟨rfl, rfl, rfl⟩
  have hframe₂ := Flow.run_foldlM_invariant (fun b => ctx₁.Frame b)
    (fun b o b' _ hb hstep => hb.trans (createOutput_eq_ok hstep).2.2) houtputs ⟨rfl, rfl, rfl⟩
  exact ⟨ctx₁, ctx₂, hinputs, hframe₁, houtputs, hframe₂, rfl⟩

/-- A run of `semantic_validation` that gets past its loops balances the
amounts: what the context held, plus the amounts of the consumed outputs
paired with unlocks, equals what it held plus the amounts of the created outputs. -/
theorem semanticValidationBody_eq_ok {v : ConflictReason}
    (h : (semanticValidationBody c ctx inputs unlocks).run = .ok (.ok v)) :
    v = .none → ctx.inputAmount.toNat + ((inputs.zip unlocks.toList).map (·.1.2.amount.toNat)).sum =
      ctx.outputAmount.toNat + (ctx.essence.outputs.map (·.amount.toNat)).sum := by
  rintro rfl
  obtain ⟨ctx₁, ctx₂, hinputs, hframe₁, houtputs, -, hv⟩ := semanticValidationBody_eq_ok_loops c h
  -- the input loop adds up the input amounts and keeps the output amount
  have hin₁ := Flow.run_foldlM_sum (fun b => b.inputAmount.toNat) (fun x => x.1.2.amount.toNat)
    (fun b x b' hstep => by
      obtain ⟨⟨outputId, consumed⟩, unlock⟩ := x
      exact (consumeInput_eq_ok c hstep).1) hinputs
  have hkeep₁ := Flow.run_foldlM_invariant (fun b => b.outputAmount = ctx.outputAmount)
    (fun b x b' _ hb hstep => by
      obtain ⟨⟨outputId, consumed⟩, unlock⟩ := x
      exact (consumeInput_eq_ok c hstep).2.1.trans hb) hinputs rfl
  -- the output loop adds up the output amounts and keeps the input amount
  have hout₂ := Flow.run_foldlM_sum (fun b => b.outputAmount.toNat) (fun o => o.amount.toNat)
    (fun b o b' hstep => (createOutput_eq_ok hstep).1) houtputs
  have hkeep₂ := Flow.run_foldlM_invariant (fun b => b.inputAmount = ctx₁.inputAmount)
    (fun b o b' _ hb hstep => (createOutput_eq_ok hstep).2.1.trans hb) houtputs rfl
  have hbalanced := congrArg UInt64.toNat (ValidationContext.inputAmount_eq_of_finalConflict hv.symm)
  rw [hkeep₂, hin₁, hout₂, hkeep₁, hframe₁.essence] at hbalanced
  exact hbalanced

/-- A run of `semantic_validation` that gets past its loops creates no
treasury output: the output loop returns `UnsupportedOutputKind` on one. -/
theorem semanticValidationBody_outputs_supported {v : ConflictReason}
    (h : (semanticValidationBody c ctx inputs unlocks).run = .ok (.ok v)) :
    ∀ o ∈ ctx.essence.outputs, ∀ t, o ≠ .treasury t := by
  obtain ⟨ctx₁, ctx₂, -, hframe₁, houtputs, -, -⟩ := semanticValidationBody_eq_ok_loops c h
  rw [← hframe₁.essence]
  refine Flow.run_foldlM_forall _ (fun b o b' hstep => ?_) houtputs
  rintro t rfl
  -- the parts of a treasury output fail with `UnsupportedOutputKind`
  rw [createOutput, Flow.run_bind_eq_ok_ok] at hstep
  obtain ⟨_, hparts, -⟩ := hstep
  simp [createdParts] at hparts

/-- `semantic_validation` returns `ConflictReason::None` only from the end of
its body. -/
theorem semanticValidation_eq_none (h : semanticValidation c ctx inputs unlocks = .ok .none) :
    ctx.inputAmount.toNat + ((inputs.zip unlocks.toList).map (·.1.2.amount.toNat)).sum =
      ctx.outputAmount.toNat + (ctx.essence.outputs.map (·.amount.toNat)).sum := by
  unfold semanticValidation at h
  split at h
  · cases h
  · rename_i reason hstop
    cases h
    exact absurd rfl (semanticValidationBody_stop c hstop)
  · rename_i reason hok
    cases h
    exact semanticValidationBody_eq_ok c hok rfl

/-- `semantic_validation` returns `ConflictReason::None` only when the final checks pass on
a context with the essence and the chains it started with. -/
theorem semanticValidation_final (h : semanticValidation c ctx inputs unlocks = .ok .none) :
    ∃ ctx', ctx.Frame ctx' ∧ ctx'.finalConflict = .none := by
  unfold semanticValidation at h
  split at h
  · cases h
  · rename_i reason hstop
    cases h
    exact absurd rfl (semanticValidationBody_stop c hstop)
  · rename_i reason hok
    cases h
    obtain ⟨ctx₁, ctx₂, -, hframe₁, -, hframe₂, hv⟩ := semanticValidationBody_eq_ok_loops c hok
    exact ⟨ctx₂, hframe₁.trans hframe₂, hv.symm⟩

/-- A transaction that `semantic_validation` finds valid creates exactly the
amount it consumes (over the inputs that have an unlock). -/
theorem semanticValidation_balanced {transactionId : TransactionId} {essence : RegularTransactionEssence}
    {milestoneTimestamp : UInt32}
    (h : semanticValidation c (.new c transactionId essence inputs unlocks milestoneTimestamp) inputs unlocks =
      .ok .none) :
    ((inputs.zip unlocks.toList).map (·.1.2.amount.toNat)).sum = (essence.outputs.map (·.amount.toNat)).sum := by
  have := semanticValidation_eq_none c h
  simpa [ValidationContext.new] using this

/-- A transaction that `semantic_validation` finds valid creates no treasury output. -/
theorem semanticValidation_outputs_supported {ctx : ValidationContext}
    (h : semanticValidation c ctx inputs unlocks = .ok .none) : ∀ o ∈ ctx.essence.outputs, ∀ t, o ≠ .treasury t := by
  unfold semanticValidation at h
  split at h
  · cases h
  · rename_i reason hstop
    cases h
    exact absurd rfl (semanticValidationBody_stop c hstop)
  · rename_i reason hok
    exact semanticValidationBody_outputs_supported c hok

end Body

end Bee
