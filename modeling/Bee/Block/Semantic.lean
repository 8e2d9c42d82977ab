import Bee.Block.Crypto
import Bee.Lib.AssocMap
import Bee.Lib.Flow
import Mathlib

namespace Bee

open AssocMap

/-!
# bee-block — semantic validation

`semantic_validation` of a regular transaction against the outputs it
consumes, with `ValidationContext::new`, the unlock of each address and output
kind, and the state transitions of alias, foundry and NFT chains.

The function returns `Ok(conflict)` for a transaction that is invalid, and
`Err(error)` when an arithmetic check overflows or an output kind is not
supported.  The model runs it in `Validation`, an `ExceptT ConflictReason`
over `Except Error`: `conflict` is the early `return Ok(conflict)` and `fail`
the `?` on an `Error`.

The maps of the context are `AssocMap.Map`s built as the source builds its
hash maps; in particular `input_chains` and `output_chains` are `collect`ed,
so of two outputs with one chain id only the later one is kept.  Every loop of
the source over a hash map returns one conflict reason on its first failure,
so the model's `List.all` over the entries returns the same result in any
iteration order.

The development models a debug build, where a plain `u32` addition panics on
overflow (`UInt32.checkedAdd`, `none` the panic).  `semantic_validation` is
modelled with the source's result type alone, which has no panic, so the two
plain additions of `AliasOutput::transition`, `state_index + 1` and
`foundry_counter + created_foundries_count`, are read as the machine adds; on
every run the debug build completes neither sum overflows, and the two readings
agree.
-/

/-- `ConflictReason`. -/
inductive ConflictReason
  | none
  | inputUtxoAlreadySpent
  | inputUtxoAlreadySpentInThisMilestone
  | inputUtxoNotFound
  | createdConsumedAmountMismatch
  | invalidSignature
  | timelockNotExpired
  | invalidNativeTokens
  | storageDepositReturnUnfulfilled
  | invalidUnlock
  | inputsCommitmentsMismatch
  | unverifiedSender
  | invalidChainStateTransition
  | semanticValidationFailed
  deriving DecidableEq

/-- `StateTransitionError`. -/
inductive StateTransitionError
  | inconsistentCreatedFoundriesCount
  | inconsistentFoundrySerialNumber
  | inconsistentNativeTokensFoundryCreation
  | inconsistentNativeTokensFoundryDestruction
  | inconsistentNativeTokensMint
  | inconsistentNativeTokensTransition
  | inconsistentNativeTokensMeltBurn
  | issuerNotUnlocked
  | missingAliasForFoundry
  | mutatedFieldWithoutRights
  | mutatedImmutableField
  | nonMonotonicallyIncreasingNativeTokens
  | nonZeroCreatedId
  | unsortedCreatedFoundries
  | unsupportedStateIndexOperation (currentState nextState : UInt32)
  | unsupportedStateTransition
  deriving DecidableEq

/-- `ValidationContext`. -/
structure ValidationContext where
  essence : RegularTransactionEssence
  essenceHash : Bytes 32
  inputsCommitment : Bytes 32
  unlocks : Unlocks
  milestoneTimestamp : UInt32
  inputAmount : UInt64
  inputNativeTokens : Map TokenId U256
  inputChains : Map ChainId Output
  outputAmount : UInt64
  outputNativeTokens : Map TokenId U256
  outputChains : Map ChainId Output
  unlockedAddresses : Finset Address
  storageDepositReturns : Map Address UInt64
  simpleDeposits : Map Address UInt64

/-- `OutputId::new(transaction_id, index as u16).unwrap()` for the index of an
essence output: below 128, where the model's `% 128` is the identity. -/
def OutputId.ofIndex (transactionId : TransactionId) (index : Nat) : OutputId :=
  ⟨transactionId, (index % 128).toUInt16, by
    have : index % 128 < 128 := Nat.mod_lt _ (by decide)
    simp only [Nat.toUInt16_eq, UInt16.toNat_ofNat', OUTPUT_INDEX_MAX]
    omega⟩

variable (c : Crypto)

/-- The chains of a list of outputs, each under its id resolved from its output id. -/
def chainsOf (outputs : List (OutputId × Output)) : Map ChainId Output :=
  collect (outputs.filterMap fun p => p.2.chainId.map fun chainId => (chainId.orFromOutputId c p.1, p.2))

/-- The outputs of an essence with the output ids they get in the transaction. -/
def RegularTransactionEssence.outputsWithIds (e : RegularTransactionEssence)
    (transactionId : TransactionId) : List (OutputId × Output) :=
  e.outputs.zipIdx.map fun p => (OutputId.ofIndex transactionId p.2, p.1)

/-- `ValidationContext::new`. -/
def ValidationContext.new (transactionId : TransactionId) (essence : RegularTransactionEssence)
    (inputs : List (OutputId × Output)) (unlocks : Unlocks) (milestoneTimestamp : UInt32) :
    ValidationContext where
  essence := essence
  unlocks := unlocks
  essenceHash := essence.hash c
  inputsCommitment := InputsCommitment.new c (inputs.map Prod.snd)
  milestoneTimestamp := milestoneTimestamp
  inputAmount := 0
  inputNativeTokens := ∅
  inputChains := chainsOf c inputs
  outputAmount := 0
  outputNativeTokens := ∅
  outputChains := chainsOf c (essence.outputsWithIds transactionId)
  unlockedAddresses := ∅
  storageDepositReturns := ∅
  simpleDeposits := ∅

/-! ### Unlocks -/

/-- `Address::unlock`: a signature unlock is accepted once per address, a
reference unlock for an address already unlocked, and an alias or NFT unlock
when the output it points at is that chain and its address is unlocked. -/
def Address.unlock (address : Address) (unlock : Unlock) (inputs : List (OutputId × Output))
    (ctx : ValidationContext) : Except ConflictReason ValidationContext :=
  match address, unlock with
  | .ed25519 a, .signature (.ed25519 s) =>
    if address ∈ ctx.unlockedAddresses then .error .invalidUnlock
    else if !s.isValid c ctx.essenceHash.toList a then .error .invalidSignature
    else .ok { ctx with unlockedAddresses := insert address ctx.unlockedAddresses }
  -- The source leaves a `TODO`: the referenced signature is not compared with the address.
  | .ed25519 _, .reference _ _ =>
    if address ∉ ctx.unlockedAddresses then .error .invalidUnlock else .ok ctx
  | .alias aliasId, .alias index _ =>
    match inputs[index.toNat]? with
    | some (outputId, .alias o) =>
      if AliasId.orFromOutputId c o.aliasId outputId ≠ aliasId then .error .invalidUnlock
      else if address ∉ ctx.unlockedAddresses then .error .invalidUnlock
      else .ok ctx
    | _ => .error .invalidUnlock
  | .nft nftId, .nft index _ =>
    match inputs[index.toNat]? with
    | some (outputId, .nft o) =>
      if NftId.orFromOutputId c o.nftId outputId ≠ nftId then .error .invalidUnlock
      else if address ∉ ctx.unlockedAddresses then .error .invalidUnlock
      else .ok ctx
    | _ => .error .invalidUnlock
  | _, _ => .error .invalidUnlock

/-- `BasicOutput::unlock`: the locked address unlocks. -/
def BasicOutput.unlock (o : BasicOutput) (unlock : Unlock) (inputs : List (OutputId × Output))
    (ctx : ValidationContext) : Except ConflictReason ValidationContext :=
  (o.unlockConditions.lockedAddress o.address ctx.milestoneTimestamp).unlock c unlock inputs ctx

/-- `AliasOutput::unlock`: the state controller on a state transition, which
also unlocks the alias address; the governor otherwise. -/
def AliasOutput.unlock (o : AliasOutput) (outputId : OutputId) (unlock : Unlock)
    (inputs : List (OutputId × Output)) (ctx : ValidationContext) :
    Except ConflictReason ValidationContext :=
  let aliasId := AliasId.orFromOutputId c o.aliasId outputId
  match ctx.outputChains.lookup (.alias aliasId) with
  | some (.alias next) =>
    if o.stateIndex = next.stateIndex then o.governorAddress.unlock c unlock inputs ctx
    else do
      let ctx ← o.stateControllerAddress.unlock c unlock inputs ctx
      pure { ctx with unlockedAddresses := insert (.alias aliasId) ctx.unlockedAddresses }
  -- `None`; an alias chain id never maps to another output kind (`unreachable!`).
  | _ => o.governorAddress.unlock c unlock inputs ctx

/-- `FoundryOutput::unlock`: the controlling alias unlocks. -/
def FoundryOutput.unlock (o : FoundryOutput) (unlock : Unlock) (inputs : List (OutputId × Output))
    (ctx : ValidationContext) : Except ConflictReason ValidationContext :=
  (Address.alias o.aliasAddress).unlock c unlock inputs ctx

/-- `NftOutput::unlock`: the locked address unlocks, then the NFT address is unlocked. -/
def NftOutput.unlock (o : NftOutput) (outputId : OutputId) (unlock : Unlock)
    (inputs : List (OutputId × Output)) (ctx : ValidationContext) :
    Except ConflictReason ValidationContext := do
  let ctx ← (o.unlockConditions.lockedAddress o.address ctx.milestoneTimestamp).unlock c unlock inputs ctx
  pure { ctx with unlockedAddresses := insert (.nft (NftId.orFromOutputId c o.nftId outputId)) ctx.unlockedAddresses }

/-! ### State transitions -/

/-- `creation` of an alias or NFT: the id is still null, and an issuer must be
unlocked.  `AliasOutput::creation` and `NftOutput::creation` are this check. -/
def chainCreation (id : Bytes 32) (immutableFeatures : Features) (ctx : ValidationContext) :
    Except StateTransitionError Unit :=
  if !id.isNull then .error .nonZeroCreatedId
  else
    match immutableFeatures.issuer with
    | some issuer => if issuer ∉ ctx.unlockedAddresses then .error .issuerNotUnlocked else .ok ()
    | none => .ok ()

/-- `AliasOutput::creation`. -/
def AliasOutput.creation (next : AliasOutput) (ctx : ValidationContext) :
    Except StateTransitionError Unit :=
  chainCreation next.aliasId next.immutableFeatures ctx

/-- `NftOutput::creation`. -/
def NftOutput.creation (next : NftOutput) (ctx : ValidationContext) :
    Except StateTransitionError Unit :=
  chainCreation next.nftId next.immutableFeatures ctx

/-- The foundries an alias state transition creates: foundry outputs of the
essence controlled by the alias whose chain is not among the inputs. -/
def AliasOutput.createdFoundries (next : AliasOutput) (ctx : ValidationContext) : List FoundryOutput :=
  ctx.essence.outputs.filterMap fun
    | .foundry f =>
      if f.aliasAddress = next.aliasId ∧ (ctx.inputChains.lookup f.chainId).isNone then some f else none
    | _ => none

/-- The loop over the created foundries: the `k`-th must have serial number
`foundry_counter + k` (`u32` arithmetic, which a debug build checks: it agrees
with this wherever that build does not abort); the count of foundries seen. -/
def checkCreatedFoundries (foundryCounter : UInt32) : List FoundryOutput → UInt32 →
    Except StateTransitionError UInt32
  | [], count => .ok count
  | f :: rest, count =>
    if f.serialNumber ≠ foundryCounter + (count + 1) then .error .unsortedCreatedFoundries
    else checkCreatedFoundries foundryCounter rest (count + 1)

/-- `AliasOutput::transition`: a state transition (index up by one) keeps the
controllers and the metadata and creates foundries in serial order; a
governance transition (same index) keeps amount, tokens, state metadata and
foundry counter. -/
def AliasOutput.transition (current next : AliasOutput) (ctx : ValidationContext) :
    Except StateTransitionError Unit :=
  if current.immutableFeatures ≠ next.immutableFeatures then .error .mutatedImmutableField
  else if next.stateIndex = current.stateIndex + 1 then
    if current.stateControllerAddress ≠ next.stateControllerAddress ∨
        current.governorAddress ≠ next.governorAddress ∨
        current.features.metadata ≠ next.features.metadata then
      .error .mutatedFieldWithoutRights
    else do
      let count ← checkCreatedFoundries current.foundryCounter (next.createdFoundries ctx) 0
      if current.foundryCounter + count ≠ next.foundryCounter then
        .error .inconsistentCreatedFoundriesCount
      else .ok ()
  else if next.stateIndex = current.stateIndex then
    if current.amount ≠ next.amount ∨ current.nativeTokens ≠ next.nativeTokens ∨
        current.stateMetadata ≠ next.stateMetadata ∨ current.foundryCounter ≠ next.foundryCounter then
      .error .mutatedFieldWithoutRights
    else .ok ()
  else .error (.unsupportedStateIndexOperation current.stateIndex next.stateIndex)

/-- `AliasOutput::destruction`. -/
def AliasOutput.destruction (_current : AliasOutput) (_ctx : ValidationContext) :
    Except StateTransitionError Unit :=
  .ok ()

/-- The balance of a token in a map of balances, zero when absent. -/
def balanceOf (m : Map TokenId U256) (tokenId : TokenId) : U256 := (m.lookup tokenId).getD 0

/-- `FoundryOutput::creation`: the controlling alias is transitioned with the
serial number in its new counter range, and the created tokens are exactly the
minted ones, none consumed. -/
def FoundryOutput.creation (next : FoundryOutput) (ctx : ValidationContext) :
    Except StateTransitionError Unit :=
  let aliasChainId := ChainId.alias next.aliasAddress
  match ctx.inputChains.lookup aliasChainId, ctx.outputChains.lookup aliasChainId with
  | some (.alias inputAlias), some (.alias outputAlias) =>
    if inputAlias.foundryCounter ≥ next.serialNumber ∨ next.serialNumber > outputAlias.foundryCounter then
      .error .inconsistentFoundrySerialNumber
    else
      match next.tokenScheme with
      | .simple scheme =>
        if (ctx.inputNativeTokens.lookup next.tokenId).isSome then
          .error .inconsistentNativeTokensFoundryCreation
        else if balanceOf ctx.outputNativeTokens next.tokenId ≠ scheme.mintedTokens ∨
            scheme.meltedTokens ≠ 0 then
          .error .inconsistentNativeTokensFoundryCreation
        else .ok ()
  | _, _ => .error .missingAliasForFoundry

/-- `FoundryOutput::transition`: immutable fields kept, supply counters
non-decreasing, and the change of the token balance matched by minting
(`Less`), by nothing (`Equal`), or bounded below by melting (`Greater`). -/
def FoundryOutput.transition (current next : FoundryOutput) (ctx : ValidationContext) :
    Except StateTransitionError Unit :=
  if current.aliasAddress ≠ next.aliasAddress ∨ current.serialNumber ≠ next.serialNumber ∨
      current.immutableFeatures ≠ next.immutableFeatures then
    .error .mutatedImmutableField
  else
    let inputTokens := balanceOf ctx.inputNativeTokens next.tokenId
    let outputTokens := balanceOf ctx.outputNativeTokens next.tokenId
    match current.tokenScheme, next.tokenScheme with
    | .simple cur, .simple nxt =>
      if cur.maximumSupply ≠ nxt.maximumSupply then .error .mutatedImmutableField
      else if cur.mintedTokens > nxt.mintedTokens ∨ cur.meltedTokens > nxt.meltedTokens then
        .error .nonMonotonicallyIncreasingNativeTokens
      else if inputTokens < outputTokens then
        if nxt.mintedTokens - cur.mintedTokens ≠ outputTokens - inputTokens then
          .error .inconsistentNativeTokensMint
        else if cur.meltedTokens ≠ nxt.meltedTokens then .error .inconsistentNativeTokensMint
        else .ok ()
      else if inputTokens = outputTokens then
        if cur.mintedTokens ≠ nxt.mintedTokens ∨ cur.meltedTokens ≠ nxt.meltedTokens then
          .error .inconsistentNativeTokensTransition
        else .ok ()
      else
        if cur.meltedTokens ≠ nxt.meltedTokens ∧ cur.mintedTokens ≠ nxt.mintedTokens then
          .error .inconsistentNativeTokensMeltBurn
        else if nxt.meltedTokens - cur.meltedTokens > inputTokens - outputTokens then
          .error .inconsistentNativeTokensMeltBurn
        else .ok ()

/-- `FoundryOutput::destruction`: no token created, and every token still in
circulation consumed. -/
def FoundryOutput.destruction (current : FoundryOutput) (ctx : ValidationContext) :
    Except StateTransitionError Unit :=
  match current.tokenScheme with
  | .simple scheme =>
    if (ctx.outputNativeTokens.lookup current.tokenId).isSome then
      .error .inconsistentNativeTokensFoundryDestruction
    else if scheme.mintedTokens - scheme.meltedTokens ≠ balanceOf ctx.inputNativeTokens current.tokenId then
      .error .inconsistentNativeTokensFoundryDestruction
    else .ok ()

/-- `NftOutput::transition`: the immutable features are kept. -/
def NftOutput.transition (current next : NftOutput) (_ctx : ValidationContext) :
    Except StateTransitionError Unit :=
  if current.immutableFeatures ≠ next.immutableFeatures then .error .mutatedImmutableField else .ok ()

/-- `NftOutput::destruction`. -/
def NftOutput.destruction (_current : NftOutput) (_ctx : ValidationContext) :
    Except StateTransitionError Unit :=
  .ok ()

/-- `Output::verify_state_transition`. -/
def Output.verifyStateTransition (current next : Option Output) (ctx : ValidationContext) :
    Except StateTransitionError Unit :=
  match current, next with
  | none, some (.alias n) => n.creation ctx
  | none, some (.foundry n) => n.creation ctx
  | none, some (.nft n) => n.creation ctx
  | some (.alias c), some (.alias n) => c.transition n ctx
  | some (.foundry c), some (.foundry n) => c.transition n ctx
  | some (.nft c), some (.nft n) => c.transition n ctx
  | some (.alias c), none => c.destruction ctx
  | some (.foundry c), none => c.destruction ctx
  | some (.nft c), none => c.destruction ctx
  | _, _ => .error .unsupportedStateTransition

/-! ### Semantic validation -/

/-- A step of `semantic_validation`: an `Error`, an early conflict, or a value. -/
abbrev Validation := ExceptT ConflictReason (Except Error)

/-- `return Ok(conflict)`. -/
def conflict {α : Type} (reason : ConflictReason) : Validation α := throwThe ConflictReason reason

/-- `Err(error)?`. -/
def fail {α : Type} (error : Error) : Validation α := throwThe Error error

/-- `option.ok_or(error)?`. -/
def okOr {α : Type} (o : Option α) (error : Error) : Validation α :=
  match o with
  | some a => pure a
  | none => fail error

@[simp] theorem run_conflict {α : Type} (r : ConflictReason) : (conflict r : Validation α).run = .ok (.error r) :=
  rfl

@[simp] theorem run_fail {α : Type} (e : Error) : (fail e : Validation α).run = .error e := rfl

theorem okOr_eq_ok {α : Type} {o : Option α} {e : Error} {a : α} :
    (okOr o e).run = .ok (.ok a) ↔ o = some a := by
  cases o with
  | none => simp [okOr]
  | some v => simp only [okOr, Flow.run_pure, Except.ok.injEq, Option.some.injEq]

theorem okOr_ne_stop {α : Type} {o : Option α} {e : Error} {r : ConflictReason} :
    (okOr o e).run ≠ .ok (.error r) := by
  cases o with
  | none => simp [okOr]
  | some v => simp only [okOr, Flow.run_pure, ne_eq, Except.ok.injEq, reduceCtorEq, not_false_eq_true]

/-- The native tokens of an output added to a map of balances with
`checked_add`, failing with `error` on overflow. -/
def addNativeTokens (m : Map TokenId U256) (tokens : NativeTokens) (error : Error) :
    Validation (Map TokenId U256) :=
  tokens.toList.foldlM (fun m t => okOr (accumulate m t.tokenId 0 (·.checkedAdd t.amount)) error) m

/-- The unlock of a consumed output by its output kind, with what the rest of
the loop body reads of the output: its amount, native tokens and unlock
conditions. -/
def unlockInput (inputs : List (OutputId × Output)) (ctx : ValidationContext) (outputId : OutputId)
    (unlock : Unlock) :
    Output → Validation (Except ConflictReason ValidationContext × UInt64 × NativeTokens × UnlockConditions)
  | .basic o => pure (o.unlock c unlock inputs ctx, o.amount, o.nativeTokens, o.unlockConditions)
  | .alias o => pure (o.unlock c outputId unlock inputs ctx, o.amount, o.nativeTokens, o.unlockConditions)
  | .foundry o => pure (o.unlock c unlock inputs ctx, o.amount, o.nativeTokens, o.unlockConditions)
  | .nft o => pure (o.unlock c outputId unlock inputs ctx, o.amount, o.nativeTokens, o.unlockConditions)
  | o => fail (.unsupportedOutputKind o.kind)

/-- `if let Err(conflict) = unlock(..) { return Ok(conflict) }`. -/
def ofUnlock (result : Except ConflictReason ValidationContext) : Validation ValidationContext :=
  match result with
  | .error reason => conflict reason
  | .ok ctx => pure ctx

theorem ofUnlock_eq_ok {result : Except ConflictReason ValidationContext} {ctx : ValidationContext} :
    (ofUnlock result).run = .ok (.ok ctx) ↔ result = .ok ctx := by
  cases result <;> simp [ofUnlock]

theorem ofUnlock_eq_stop {result : Except ConflictReason ValidationContext} {r : ConflictReason} :
    (ofUnlock result).run = .ok (.error r) ↔ result = .error r := by
  cases result <;> simp [ofUnlock]

/-- The storage deposit return of an unexpired output, added to its return
address's total. -/
def recordStorageDepositReturn (ctx : ValidationContext) (unlockConditions : UnlockConditions) :
    Validation ValidationContext :=
  match !unlockConditions.isExpired ctx.milestoneTimestamp, unlockConditions.storageDepositReturn with
  | true, some (returnAddress, returnAmount) => do
    let m ← okOr (accumulate ctx.storageDepositReturns returnAddress 0 (·.checkedAdd returnAmount))
      .storageDepositReturnOverflow
    pure { ctx with storageDepositReturns := m }
  | _, _ => pure ctx

/-- The body of the loop over the inputs: unlock the consumed output, check its
timelock, record its storage deposit return, and add its amount and tokens. -/
def consumeInput (inputs : List (OutputId × Output)) (ctx : ValidationContext)
    (input : (OutputId × Output) × Unlock) : Validation ValidationContext := do
  let ((outputId, consumed), unlock) := input
  let (result, amount, nativeTokens, unlockConditions) ← unlockInput c inputs ctx outputId unlock consumed
  let ctx ← ofUnlock result
  if unlockConditions.isTimeLocked ctx.milestoneTimestamp then conflict .timelockNotExpired
  let ctx ← recordStorageDepositReturn ctx unlockConditions
  let inputAmount ← okOr (ctx.inputAmount.checkedAdd amount) .consumedAmountOverflow
  let inputNativeTokens ← addNativeTokens ctx.inputNativeTokens nativeTokens .consumedNativeTokensAmountOverflow
  pure { ctx with inputAmount, inputNativeTokens }

/-- A basic output that holds only an address condition, added to that
address's simple deposits. -/
def recordSimpleDeposit (ctx : ValidationContext) (o : BasicOutput) : Validation ValidationContext :=
  match o.simpleDepositAddress with
  | some address => do
    let m ← okOr (accumulate ctx.simpleDeposits address 0 (·.checkedAdd o.amount)) .createdAmountOverflow
    pure { ctx with simpleDeposits := m }
  | none => pure ctx

/-- A created output by its kind, with what the rest of the loop body reads of
it: its amount, native tokens and features. -/
def createdParts (ctx : ValidationContext) :
    Output → Validation (ValidationContext × UInt64 × NativeTokens × Features)
  | .basic o => do
    let ctx ← recordSimpleDeposit ctx o
    pure (ctx, o.amount, o.nativeTokens, o.features)
  | .alias o => pure (ctx, o.amount, o.nativeTokens, o.features)
  | .foundry o => pure (ctx, o.amount, o.nativeTokens, o.features)
  | .nft o => pure (ctx, o.amount, o.nativeTokens, o.features)
  | o => fail (.unsupportedOutputKind o.kind)

/-- A sender feature names an unlocked address. -/
def verifySender (ctx : ValidationContext) (features : Features) : Validation Unit :=
  match features.sender with
  | some sender => if sender ∉ ctx.unlockedAddresses then conflict .unverifiedSender else pure ()
  | none => pure ()

/-- The body of the loop over the created outputs: record a simple deposit,
check the sender, and add the amount and tokens. -/
def createOutput (ctx : ValidationContext) (created : Output) : Validation ValidationContext := do
  let (ctx, amount, nativeTokens, features) ← createdParts ctx created
  verifySender ctx features
  let outputAmount ← okOr (ctx.outputAmount.checkedAdd amount) .createdAmountOverflow
  let outputNativeTokens ← addNativeTokens ctx.outputNativeTokens nativeTokens .createdNativeTokensAmountOverflow
  pure { ctx with outputAmount, outputNativeTokens }

/-- Every storage deposit return is covered by the simple deposits to its address. -/
def ValidationContext.storageDepositsReturned (ctx : ValidationContext) : Bool :=
  ctx.storageDepositReturns.entries.all fun e =>
    match ctx.simpleDeposits.lookup e.1 with
    | some deposit => !(deposit < e.2)
    | none => false

/-- A token with more created than consumed has its foundry among the outputs. -/
def ValidationContext.nativeTokensBalanced (ctx : ValidationContext) : Bool :=
  ctx.outputNativeTokens.entries.all fun e =>
    !(decide (e.2 > balanceOf ctx.inputNativeTokens e.1) && (ctx.outputChains.lookup (.foundry e.1)).isNone)

/-- The distinct token ids of inputs and outputs (`native_token_ids`). -/
def ValidationContext.nativeTokenIds (ctx : ValidationContext) : Finset TokenId :=
  ctx.inputNativeTokens.keys.toFinset ∪ ctx.outputNativeTokens.keys.toFinset

/-- Every consumed chain transitions to its next state or is destroyed. -/
def ValidationContext.transitionsValid (ctx : ValidationContext) : Bool :=
  ctx.inputChains.entries.all fun e =>
    (Output.verifyStateTransition (some e.2) (ctx.outputChains.lookup e.1) ctx).isOk

/-- Every created chain not among the inputs is a valid creation. -/
def ValidationContext.creationsValid (ctx : ValidationContext) : Bool :=
  ctx.outputChains.entries.all fun e =>
    (ctx.inputChains.lookup e.1).isSome || (Output.verifyStateTransition none (some e.2) ctx).isOk

/-- The checks of `semantic_validation` after its two loops, each an early
`return Ok(conflict)`: the first that fails is the verdict. -/
def ValidationContext.finalConflict (ctx : ValidationContext) : ConflictReason :=
  if !ctx.storageDepositsReturned then .storageDepositReturnUnfulfilled
  else if ctx.inputAmount ≠ ctx.outputAmount then .createdConsumedAmountMismatch
  else if !ctx.nativeTokensBalanced then .invalidNativeTokens
  else if ctx.nativeTokenIds.card > NativeTokens.COUNT_MAX then .invalidNativeTokens
  else if !ctx.transitionsValid then .invalidChainStateTransition
  else if !ctx.creationsValid then .invalidChainStateTransition
  else .none

/-- The body of `semantic_validation`. -/
def semanticValidationBody (ctx : ValidationContext) (inputs : List (OutputId × Output))
    (unlocks : Unlocks) : Validation ConflictReason := do
  if ctx.essence.inputsCommitment ≠ ctx.inputsCommitment then conflict .inputsCommitmentsMismatch
  let ctx ← (inputs.zip unlocks.toList).foldlM (consumeInput c inputs) ctx
  let ctx ← ctx.essence.outputs.foldlM createOutput ctx
  pure ctx.finalConflict

/-- `semantic_validation`: `Ok(conflict)`, with `ConflictReason::None` for a
valid transaction, or `Err(error)`. -/
def semanticValidation (ctx : ValidationContext) (inputs : List (OutputId × Output))
    (unlocks : Unlocks) : Except Error ConflictReason :=
  match (semanticValidationBody c ctx inputs unlocks).run with
  | .error e => .error e
  | .ok (.error reason) => .ok reason
  | .ok (.ok reason) => .ok reason

/-- `semantic_validation` of a transaction payload against the outputs it
consumes, in the context `ValidationContext::new` builds from the payload's id,
as `apply_regular_essence` calls it. -/
def TransactionPayload.semanticValidation (t : TransactionPayload) (inputs : List (OutputId × Output))
    (milestoneTimestamp : UInt32) : Except Error ConflictReason :=
  Bee.semanticValidation c (.new c (t.id c) t.essence inputs t.unlocks milestoneTimestamp) inputs t.unlocks

/-! ### Unlock soundness

How far a successful `Address::unlock` is from the authorisation rule of
TIP-20: a reference unlock is accepted for any address that some earlier unlock
has unlocked, whatever signature it points at.

`signatureAuthorises` states the TIP-20 rule for an Ed25519 address: the
unlock at its position is a signature unlock, or a reference to an earlier
one, whose signature is valid for that very address.  The transaction
`foreignReference` shows that `semantic_validation` accepts an input whose
reference unlock points at the signature of another address.
-/

/-- TIP-20 for an Ed25519 address consumed at position `i`: `unlocks[i]` is a
signature unlock, or a reference to an earlier signature unlock, whose
signature is valid over `message` for the address. -/
def signatureAuthorises (message : List UInt8) (address : Ed25519Address) (unlocks : List Unlock)
    (i : Nat) : Bool :=
  match unlocks[i]? with
  | some (.signature (.ed25519 s)) => s.isValid c message address
  | some (.reference j _) =>
    decide (j.toNat < i) &&
      match unlocks[j.toNat]? with
      | some (.signature (.ed25519 s)) => s.isValid c message address
      | _ => false
  | _ => false

/-! ### A reference to the signature of another address -/

/-- The outputs `foreignReference` consumes, created by one earlier
transaction: the first and the third are locked to the key `1…1`, the second
to the key `2…2` (addresses under `Crypto.truncating`). -/
def foreignReferenceInputs : List (OutputId × Output) :=
  [(.ofIndex (.replicate 32 7) 0, .basic (.simple 1 (.ed25519 (.replicate 32 1)))),
   (.ofIndex (.replicate 32 7) 1, .basic (.simple 1 (.ed25519 (.replicate 32 2)))),
   (.ofIndex (.replicate 32 7) 2, .basic (.simple 1 (.ed25519 (.replicate 32 1))))]

/-- A transaction that spends the three outputs with a signature by each key
and, for the third input, a reference to the signature of the key `2…2`. -/
def foreignReference : TransactionPayload where
  essence :=
    { networkId := 0
      inputs := foreignReferenceInputs.map fun p => .utxo p.1
      inputsCommitment := InputsCommitment.new .truncating (foreignReferenceInputs.map Prod.snd)
      outputs := [.basic (.simple 3 (.ed25519 (.replicate 32 1)))]
      payload := none
      inputs_length := by decide
      outputs_length := by decide
      inputs_verified := by decide }
  unlocks :=
    ⟨[.signature (.ed25519 ⟨.replicate 32 1, .replicate 64 0⟩),
      .signature (.ed25519 ⟨.replicate 32 2, .replicate 64 0⟩),
      .reference 1 (by decide)], by decide, by decide⟩
  unlocks_length := rfl

theorem reference_unlock_accepts_foreign_signature :
    foreignReference.semanticValidation .truncating foreignReferenceInputs 0 = .ok .none ∧
      signatureAuthorises .truncating (foreignReference.essence.hash .truncating).toList
        (.replicate 32 1) foreignReference.unlocks.toList 2 = false := by
  decide +kernel

/-- One signature unlock by the key `1…1`, the unlock of the single-input
transactions of the ledger's runs. -/
def signatureUnlocks : Unlocks :=
  ⟨[.signature (.ed25519 ⟨.replicate 32 1, .replicate 64 0⟩)], by decide, by decide⟩

end Bee
