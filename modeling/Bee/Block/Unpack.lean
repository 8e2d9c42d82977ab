import Bee.Block.Crypto
import Bee.Lib.Codec

namespace Bee

open Codec

/-!
# bee-block — unpacking with verification

`Packable::unpack::<_, true>` of every type of `bee-block`, with the
protocol parameters as visitor: each field is read as `pack` writes it, each
bounded prefix is checked against its bounds before its elements are read, and
every `verify_with` check of the crate runs where the source runs it.  A
decoder returns `none` where the source returns an `UnpackError`; which error
it is, is not kept.

Two kinds of nested payload are narrowed to the one kind they can hold: the
optional payload of a transaction essence (tagged data) and the payload of a
receipt (a treasury transaction).  The source unpacks any payload there and
then rejects every other kind (`verify_payload`, `verify_transaction`), so the
other kinds are rejected either way, and the decoders stay non-recursive.

* `verifyOutputs` — the checks of `verify_outputs` on the outputs of an essence:
  the amount sum within the token supply, at most 64 native tokens in all, and
  each output's storage deposit (`Output.verifyStorageDeposit`);
* `ReceiptMilestoneOption.verifyFunds` — the funds of a receipt sorted by their
  packed bytes, with distinct tail transaction hashes and a sum within the supply;
* `Block.unpackStrict` — `Block::unpack_strict`: a block, its length at most
  `Block::LENGTH_MAX`, and no byte after it.
-/

variable (P : ProtocolParameters)

/-- `Block::LENGTH_MAX`. -/
def Block.LENGTH_MAX : Nat := 32768

/-- `OUTPUT_COUNT_MAX`, the bound of outputs and of receipt funds. -/
def OUTPUT_COUNT_MAX : Nat := 128

theorem Bytes.lt_trans {n : Nat} (a b c : Bytes n) (hab : a < b) (hbc : b < c) : a < c :=
  List.lt_trans (α := UInt8) hab hbc

theorem Bytes.ne_of_lt {n : Nat} {a b : Bytes n} (h : a < b) : a ≠ b := by
  rintro rfl
  exact List.lt_irrefl (α := UInt8) _ h

theorem UInt8.lt_trans' (a b c : UInt8) (hab : a < b) (hbc : b < c) : a < c :=
  UInt8.lt_trans hab hbc

/-! ### Identifiers, addresses, native tokens -/

/-- A byte array `[u8; n]`. -/
def Bytes.unpack (n : Nat) : Decoder (Bytes n) := fun s =>
  (Decoder.many Decoder.u8 n s).map fun p => (⟨p.1.1, p.1.2⟩, p.2)

/-- `U256::unpack`: 32 little-endian bytes. -/
def unpackU256 : Decoder U256 := fun s =>
  (Decoder.leNat 32 s).map fun p => (BitVec.ofNat 256 p.1, p.2)

/-- `Address::unpack`: the kind, then the 32 bytes of the key hash or chain id. -/
def Address.unpack : Decoder Address := fun s => do
  let (kind, s) ← Decoder.u8 s
  match kind with
  | 0 => let (a, s) ← Bytes.unpack 32 s; pure (.ed25519 a, s)
  | 8 => let (a, s) ← Bytes.unpack 32 s; pure (.alias a, s)
  | 16 => let (a, s) ← Bytes.unpack 32 s; pure (.nft a, s)
  | _ => none

/-- `OutputId::unpack`: the transaction id and an index in `0..=127`. -/
def OutputId.unpack : Decoder OutputId := fun s => do
  let (transactionId, s) ← Bytes.unpack 32 s
  let (index, s) ← Decoder.u16 s
  if h : index.toNat ≤ OUTPUT_INDEX_MAX then pure (⟨transactionId, index, h⟩, s) else none

/-- `NativeToken::unpack`: the token id and a non-zero amount. -/
def NativeToken.unpack : Decoder NativeToken := fun s => do
  let (tokenId, s) ← Bytes.unpack 38 s
  let (amount, s) ← unpackU256 s
  if h : amount ≠ 0 then pure (⟨tokenId, amount, h⟩, s) else none

/-- `NativeTokens::unpack`: at most 64 tokens, strictly sorted by token id. -/
def NativeTokens.unpack : Decoder NativeTokens := fun s => do
  let (⟨tokens, hcount⟩, s) ←
    Decoder.bounded 0 NativeTokens.COUNT_MAX (Decoder.leNat 1) NativeToken.unpack s
  if h : tokens.IsChain (fun a b => a.tokenId < b.tokenId) then
    pure (⟨tokens, hcount.2, pairwise_of_isChain (fun a b c => Bytes.lt_trans a.tokenId b.tokenId c.tokenId) h⟩, s)
  else none

/-! ### Unlock conditions and features -/

/-- `UnlockCondition::unpack`, with the checks of each condition: a storage
deposit return amount within `1..=token_supply`, non-zero timestamps, and an
alias address in the immutable alias address condition. -/
def UnlockCondition.unpack : Decoder UnlockCondition := fun s => do
  let (kind, s) ← Decoder.u8 s
  match kind with
  | 0 => let (a, s) ← Address.unpack s; pure (.address a, s)
  | 1 =>
    let (a, s) ← Address.unpack s
    let (amount, s) ← Decoder.u64 s
    if verifyOutputAmount amount P.tokenSupply then pure (.storageDepositReturn a amount, s) else none
  | 2 =>
    let (t, s) ← Decoder.u32 s
    if t = 0 then none else pure (.timelock t, s)
  | 3 =>
    let (a, s) ← Address.unpack s
    let (t, s) ← Decoder.u32 s
    if t = 0 then none else pure (.expiration a t, s)
  | 4 => let (a, s) ← Address.unpack s; pure (.stateControllerAddress a, s)
  | 5 => let (a, s) ← Address.unpack s; pure (.governorAddress a, s)
  | 6 =>
    let (a, s) ← Address.unpack s
    match a with
    | .alias id => pure (.immutableAliasAddress id, s)
    | _ => none
  | _ => none

/-- `UnlockConditions::unpack`: at most seven conditions, strictly sorted by kind. -/
def UnlockConditions.unpack : Decoder UnlockConditions := fun s => do
  let (⟨conditions, hcount⟩, s) ←
    Decoder.bounded 0 UnlockConditions.COUNT_MAX (Decoder.leNat 1) (UnlockCondition.unpack P) s
  if h : conditions.IsChain (fun a b => a.kind < b.kind) then
    pure (⟨conditions, hcount.2, pairwise_of_isChain (fun a b c => UInt8.lt_trans' a.kind b.kind c.kind) h⟩, s)
  else none

/-- `verify_allowed_unlock_conditions`: every condition of an allowed kind. -/
def UnlockConditions.allowed (u : UnlockConditions) (kinds : List UInt8) : Bool :=
  u.toList.all (·.kind ∈ kinds)

/-- `Feature::unpack`: metadata of `1..=8192` bytes (`u16` prefix), a tag of
`1..=64` bytes (`u8` prefix). -/
def Feature.unpack : Decoder Feature := fun s => do
  let (kind, s) ← Decoder.u8 s
  match kind with
  | 0 => let (a, s) ← Address.unpack s; pure (.sender a, s)
  | 1 => let (a, s) ← Address.unpack s; pure (.issuer a, s)
  | 2 =>
    let (⟨data, h⟩, s) ← Decoder.bounded 1 8192 (Decoder.leNat 2) Decoder.u8 s
    pure (.metadata data h, s)
  | 3 =>
    let (⟨t, h⟩, s) ← Decoder.bounded 1 64 (Decoder.leNat 1) Decoder.u8 s
    pure (.tag t h, s)
  | _ => none

/-- `Features::unpack`: at most four features, strictly sorted by kind. -/
def Features.unpack : Decoder Features := fun s => do
  let (⟨features, hcount⟩, s) ← Decoder.bounded 0 Features.COUNT_MAX (Decoder.leNat 1) Feature.unpack s
  if h : features.IsChain (fun a b => a.kind < b.kind) then
    pure (⟨features, hcount.2, pairwise_of_isChain (fun a b c => UInt8.lt_trans' a.kind b.kind c.kind) h⟩, s)
  else none

/-- `verify_allowed_features`. -/
def Features.allowed (f : Features) (kinds : List UInt8) : Bool :=
  f.toList.all (·.kind ∈ kinds)

/-! ### Outputs -/

/-- `TokenScheme::unpack`: the simple scheme, with `verify_supply`. -/
def TokenScheme.unpack : Decoder TokenScheme := fun s => do
  let (kind, s) ← Decoder.u8 s
  if kind ≠ 0 then none else
  let (minted, s) ← unpackU256 s
  let (melted, s) ← unpackU256 s
  let (maximum, s) ← unpackU256 s
  if h : maximum ≠ 0 ∧ melted ≤ minted ∧ minted - melted ≤ maximum then
    pure (.simple ⟨minted, melted, maximum, h⟩, s)
  else none

/-- `TreasuryOutput::unpack`: an amount within the token supply. -/
def TreasuryOutput.unpack : Decoder TreasuryOutput := fun s => do
  let (amount, s) ← Decoder.u64 s
  if amount ≤ P.tokenSupply then pure (⟨amount⟩, s) else none

/-- `BasicOutput::ALLOWED_UNLOCK_CONDITIONS`: address, storage deposit return, timelock, expiration. -/
def BasicOutput.ALLOWED_UNLOCK_CONDITIONS : List UInt8 := [0, 1, 2, 3]
/-- `BasicOutput::ALLOWED_FEATURES`: sender, metadata, tag. -/
def BasicOutput.ALLOWED_FEATURES : List UInt8 := [0, 2, 3]

/-- `BasicOutput::unpack`: an address condition is required. -/
def BasicOutput.unpack : Decoder BasicOutput := fun s => do
  let (amount, s) ← Decoder.u64 s
  if !verifyOutputAmount amount P.tokenSupply then none else
  let (nativeTokens, s) ← NativeTokens.unpack s
  let (unlockConditions, s) ← UnlockConditions.unpack P s
  if h : unlockConditions.address.isSome ∧
      unlockConditions.allowed BasicOutput.ALLOWED_UNLOCK_CONDITIONS then
    let (features, s) ← Features.unpack s
    if features.allowed BasicOutput.ALLOWED_FEATURES then
      pure (⟨amount, nativeTokens, unlockConditions, features, h.1⟩, s)
    else none
  else none

/-- `AliasOutput::STATE_METADATA_LENGTH_MAX`. -/
def AliasOutput.STATE_METADATA_LENGTH_MAX : Nat := 8192
/-- `AliasOutput::ALLOWED_UNLOCK_CONDITIONS`: state controller and governor addresses. -/
def AliasOutput.ALLOWED_UNLOCK_CONDITIONS : List UInt8 := [4, 5]
/-- `AliasOutput::ALLOWED_FEATURES`: sender, metadata. -/
def AliasOutput.ALLOWED_FEATURES : List UInt8 := [0, 2]
/-- `AliasOutput::ALLOWED_IMMUTABLE_FEATURES`: issuer, metadata. -/
def AliasOutput.ALLOWED_IMMUTABLE_FEATURES : List UInt8 := [1, 2]

/-- The `verify_unlock_conditions` of an alias output: a state controller and a
governor, neither the alias itself, and no other condition. -/
def AliasOutput.verifyUnlockConditions (u : UnlockConditions) (aliasId : AliasId) : Bool :=
  match u.stateControllerAddress, u.governorAddress with
  | some stateController, some governor =>
    stateController != .alias aliasId && governor != .alias aliasId &&
      u.allowed AliasOutput.ALLOWED_UNLOCK_CONDITIONS
  | _, _ => false

theorem AliasOutput.verifyUnlockConditions_isSome {u : UnlockConditions} {aliasId : AliasId}
    (h : AliasOutput.verifyUnlockConditions u aliasId = true) :
    u.stateControllerAddress.isSome ∧ u.governorAddress.isSome := by
  unfold AliasOutput.verifyUnlockConditions at h
  split at h
  · rename_i hs hg
    simp [hs, hg]
  · cases h

/-- `AliasOutput::unpack`: state metadata of at most 8192 bytes, a null alias
only at state index and foundry counter 0 (`verify_index_counter`). -/
def AliasOutput.unpack : Decoder AliasOutput := fun s => do
  let (amount, s) ← Decoder.u64 s
  if !verifyOutputAmount amount P.tokenSupply then none else
  let (nativeTokens, s) ← NativeTokens.unpack s
  let (aliasId, s) ← Bytes.unpack 32 s
  let (stateIndex, s) ← Decoder.u32 s
  let (⟨stateMetadata, _⟩, s) ←
    Decoder.bounded 0 AliasOutput.STATE_METADATA_LENGTH_MAX (Decoder.leNat 2) Decoder.u8 s
  let (foundryCounter, s) ← Decoder.u32 s
  if aliasId.isNull && (stateIndex != 0 || foundryCounter != 0) then none else
  let (unlockConditions, s) ← UnlockConditions.unpack P s
  if h : AliasOutput.verifyUnlockConditions unlockConditions aliasId then
    let (features, s) ← Features.unpack s
    if !features.allowed AliasOutput.ALLOWED_FEATURES then none else
    let (immutableFeatures, s) ← Features.unpack s
    if !immutableFeatures.allowed AliasOutput.ALLOWED_IMMUTABLE_FEATURES then none else
    pure (⟨amount, nativeTokens, aliasId, stateIndex, stateMetadata, foundryCounter, unlockConditions,
      features, immutableFeatures, (AliasOutput.verifyUnlockConditions_isSome h).1,
      (AliasOutput.verifyUnlockConditions_isSome h).2⟩, s)
  else none

/-- `FoundryOutput::ALLOWED_UNLOCK_CONDITIONS`: the immutable alias address. -/
def FoundryOutput.ALLOWED_UNLOCK_CONDITIONS : List UInt8 := [6]
/-- `FoundryOutput::ALLOWED_FEATURES`: metadata. -/
def FoundryOutput.ALLOWED_FEATURES : List UInt8 := [2]
/-- `FoundryOutput::ALLOWED_IMMUTABLE_FEATURES`: metadata. -/
def FoundryOutput.ALLOWED_IMMUTABLE_FEATURES : List UInt8 := [2]

/-- `FoundryOutput::unpack`: an immutable alias address condition is required. -/
def FoundryOutput.unpack : Decoder FoundryOutput := fun s => do
  let (amount, s) ← Decoder.u64 s
  if !verifyOutputAmount amount P.tokenSupply then none else
  let (nativeTokens, s) ← NativeTokens.unpack s
  let (serialNumber, s) ← Decoder.u32 s
  let (tokenScheme, s) ← TokenScheme.unpack s
  let (unlockConditions, s) ← UnlockConditions.unpack P s
  if h : unlockConditions.immutableAliasAddress.isSome ∧
      unlockConditions.allowed FoundryOutput.ALLOWED_UNLOCK_CONDITIONS then
    let (features, s) ← Features.unpack s
    if !features.allowed FoundryOutput.ALLOWED_FEATURES then none else
    let (immutableFeatures, s) ← Features.unpack s
    if !immutableFeatures.allowed FoundryOutput.ALLOWED_IMMUTABLE_FEATURES then none else
    pure (⟨amount, nativeTokens, serialNumber, tokenScheme, unlockConditions, features,
      immutableFeatures, h.1⟩, s)
  else none

/-- `NftOutput::ALLOWED_UNLOCK_CONDITIONS`: address, storage deposit return, timelock, expiration. -/
def NftOutput.ALLOWED_UNLOCK_CONDITIONS : List UInt8 := [0, 1, 2, 3]
/-- `NftOutput::ALLOWED_FEATURES`: sender, metadata, tag. -/
def NftOutput.ALLOWED_FEATURES : List UInt8 := [0, 2, 3]
/-- `NftOutput::ALLOWED_IMMUTABLE_FEATURES`: issuer, metadata. -/
def NftOutput.ALLOWED_IMMUTABLE_FEATURES : List UInt8 := [1, 2]

/-- The `verify_unlock_conditions` of an NFT output: an address that is not the
NFT itself, and only allowed conditions. -/
def NftOutput.verifyUnlockConditions (u : UnlockConditions) (nftId : NftId) : Bool :=
  match u.address with
  | some address => address != .nft nftId && u.allowed NftOutput.ALLOWED_UNLOCK_CONDITIONS
  | none => false

theorem NftOutput.verifyUnlockConditions_isSome {u : UnlockConditions} {nftId : NftId}
    (h : NftOutput.verifyUnlockConditions u nftId = true) : u.address.isSome := by
  unfold NftOutput.verifyUnlockConditions at h
  split at h
  · rename_i ha
    simp [ha]
  · cases h

/-- `NftOutput::unpack`. -/
def NftOutput.unpack : Decoder NftOutput := fun s => do
  let (amount, s) ← Decoder.u64 s
  if !verifyOutputAmount amount P.tokenSupply then none else
  let (nativeTokens, s) ← NativeTokens.unpack s
  let (nftId, s) ← Bytes.unpack 32 s
  let (unlockConditions, s) ← UnlockConditions.unpack P s
  if h : NftOutput.verifyUnlockConditions unlockConditions nftId then
    let (features, s) ← Features.unpack s
    if !features.allowed NftOutput.ALLOWED_FEATURES then none else
    let (immutableFeatures, s) ← Features.unpack s
    if !immutableFeatures.allowed NftOutput.ALLOWED_IMMUTABLE_FEATURES then none else
    pure (⟨amount, nativeTokens, nftId, unlockConditions, features, immutableFeatures,
      NftOutput.verifyUnlockConditions_isSome h⟩, s)
  else none

/-- `Output::unpack`: the kind, then the output of that kind. -/
def Output.unpack : Decoder Output := fun s => do
  let (kind, s) ← Decoder.u8 s
  match kind with
  | 2 => let (o, s) ← TreasuryOutput.unpack P s; pure (.treasury o, s)
  | 3 => let (o, s) ← BasicOutput.unpack P s; pure (.basic o, s)
  | 4 => let (o, s) ← AliasOutput.unpack P s; pure (.alias o, s)
  | 5 => let (o, s) ← FoundryOutput.unpack P s; pure (.foundry o, s)
  | 6 => let (o, s) ← NftOutput.unpack P s; pure (.nft o, s)
  | _ => none

/-- `Output::unlock_conditions`. -/
def Output.unlockConditions : Output → Option UnlockConditions
  | .treasury _ => none
  | .basic o => some o.unlockConditions
  | .alias o => some o.unlockConditions
  | .foundry o => some o.unlockConditions
  | .nft o => some o.unlockConditions

/-- `minimum_storage_deposit`: the rent of a basic output holding only an
address condition (the source unwraps the builder that computes it). -/
def minimumStorageDeposit (address : Address) (r : RentStructure) : UInt64 :=
  (Output.basic (.simple 1 address)).rentCost r

/-- `Output::verify_storage_deposit`: the amount covers the rent, and a
storage deposit return is at most the amount and at least the minimum deposit
of its return address. -/
def Output.verifyStorageDeposit (o : Output) (r : RentStructure) : Bool :=
  if o.amount < o.rentCost r then false
  else
    match o.unlockConditions.bind UnlockConditions.storageDepositReturn with
    | some (returnAddress, returnAmount) =>
      returnAmount ≤ o.amount && minimumStorageDeposit returnAddress r ≤ returnAmount
    | none => true

/-- The loop of `verify_outputs`, with the amount sum and the native token
count so far. -/
def verifyOutputsFrom : List Output → UInt64 → UInt8 → Bool
  | [], _, _ => true
  | o :: rest, amountSum, nativeTokensCount =>
    -- a treasury output has no native tokens: `InvalidOutputKind`
    match o.nativeTokens with
    | none => false
    | some nativeTokens =>
      match amountSum.checkedAdd o.amount with
      | none => false
      | some amountSum =>
        if amountSum > P.tokenSupply then false
        else
          match nativeTokensCount.checkedAdd nativeTokens.toList.length.toUInt8 with
          | none => false
          | some nativeTokensCount =>
            if nativeTokensCount.toNat > NativeTokens.COUNT_MAX then false
            else o.verifyStorageDeposit P.rentStructure && verifyOutputsFrom rest amountSum nativeTokensCount

/-- `verify_outputs::<true>`. -/
def verifyOutputs (outputs : List Output) : Bool := verifyOutputsFrom P outputs 0 0

/-! ### Inputs, unlocks, transactions -/

/-- `Input::unpack`: a UTXO input or a treasury input. -/
def Input.unpack : Decoder Input := fun s => do
  let (kind, s) ← Decoder.u8 s
  match kind with
  | 0 => let (id, s) ← OutputId.unpack s; pure (.utxo id, s)
  | 1 => let (id, s) ← Bytes.unpack 32 s; pure (.treasury id, s)
  | _ => none

/-- `Signature::unpack`: an Ed25519 public key and signature. -/
def Signature.unpack : Decoder Signature := fun s => do
  let (kind, s) ← Decoder.u8 s
  if kind ≠ 0 then none else
  let (publicKey, s) ← Bytes.unpack 32 s
  let (signature, s) ← Bytes.unpack 64 s
  pure (.ed25519 ⟨publicKey, signature⟩, s)

/-- `Unlock::unpack`; the index of a reference, alias or NFT unlock is an
`UnlockIndex` in `0..=127`. -/
def Unlock.unpack : Decoder Unlock := fun s => do
  let (kind, s) ← Decoder.u8 s
  match kind with
  | 0 => let (sig, s) ← Signature.unpack s; pure (.signature sig, s)
  | 1 =>
    let (i, s) ← Decoder.u16 s
    if h : i.toNat ≤ INPUT_INDEX_MAX then pure (.reference i h, s) else none
  | 2 =>
    let (i, s) ← Decoder.u16 s
    if h : i.toNat ≤ INPUT_INDEX_MAX then pure (.alias i h, s) else none
  | 3 =>
    let (i, s) ← Decoder.u16 s
    if h : i.toNat ≤ INPUT_INDEX_MAX then pure (.nft i h, s) else none
  | _ => none

/-- `Unlocks::unpack`: `1..=128` unlocks that pass `verify_unlocks`. -/
def Unlocks.unpack : Decoder Unlocks := fun s => do
  let (⟨unlocks, hcount⟩, s) ← Decoder.bounded 1 INPUT_COUNT_MAX (Decoder.leNat 2) Unlock.unpack s
  match h : verifyUnlocks unlocks with
  | .ok () => pure (⟨unlocks, hcount, h⟩, s)
  | .error _ => none

/-- `TaggedDataPayload::unpack`: a tag of at most 64 bytes (`u8` prefix) and
data of at most `Block::LENGTH_MAX` bytes (`u32` prefix). -/
def TaggedDataPayload.unpack : Decoder TaggedDataPayload := fun s => do
  let (⟨tag, htag⟩, s) ← Decoder.bounded 0 64 (Decoder.leNat 1) Decoder.u8 s
  let (⟨data, hdata⟩, s) ← Decoder.bounded 0 Block.LENGTH_MAX (Decoder.leNat 4) Decoder.u8 s
  pure (⟨tag, data, htag.2, hdata.2⟩, s)

/-- `OptionalPayload::unpack` over a decoder of the payload: a `u32` length,
`0` for none, else a payload that takes exactly that many bytes
(`ensure_bytes` first). -/
def unpackOptional {α : Type} (d : Decoder α) : Decoder (Option α) := fun s => do
  let (len, s) ← Decoder.u32 s
  if len = 0 then pure (none, s)
  else if s.length < len.toNat then none
  else
    let (p, rest) ← d s
    if s.length - rest.length = len.toNat then pure (some p, rest) else none

/-- The payload of an essence: `verify_payload` admits tagged data only. -/
def unpackEssencePayload : Decoder TaggedDataPayload := fun s => do
  let (kind, s) ← Decoder.u32 s
  if kind = 5 then TaggedDataPayload.unpack s else none

variable (c : Crypto)

/-- `RegularTransactionEssence::unpack`: the network id of the parameters,
`1..=128` inputs that pass `verify_inputs`, the inputs commitment, `1..=128`
outputs that pass `verify_outputs`, and an optional tagged data payload. -/
def RegularTransactionEssence.unpack : Decoder RegularTransactionEssence := fun s => do
  let (networkId, s) ← Decoder.u64 s
  if networkId ≠ P.networkId c then none else
  let (⟨inputs, hinputs⟩, s) ← Decoder.bounded 1 INPUT_COUNT_MAX (Decoder.leNat 2) Input.unpack s
  match hverified : verifyInputs inputs [] with
  | .error _ => none
  | .ok () =>
    let (inputsCommitment, s) ← Bytes.unpack 32 s
    let (⟨outputs, houtputs⟩, s) ←
      Decoder.bounded 1 OUTPUT_COUNT_MAX (Decoder.leNat 2) (Output.unpack P) s
    if !verifyOutputs P outputs then none else
    let (payload, s) ← unpackOptional unpackEssencePayload s
    pure (⟨networkId, inputs, inputsCommitment, outputs, payload, hinputs, houtputs, hverified⟩, s)

/-- `TransactionPayload::unpack`: the essence kind `1`, the essence, the
unlocks, and as many unlocks as inputs (`verify_essence_unlocks`). -/
def TransactionPayload.unpack : Decoder TransactionPayload := fun s => do
  let (kind, s) ← Decoder.u8 s
  if kind ≠ 1 then none else
  let (essence, s) ← RegularTransactionEssence.unpack P c s
  let (unlocks, s) ← Unlocks.unpack s
  if h : essence.inputs.length = unlocks.toList.length then pure (⟨essence, unlocks, h⟩, s) else none

/-- `TreasuryTransactionPayload::unpack`: an `Input` and an `Output`, which
must be the treasury kinds. -/
def TreasuryTransactionPayload.unpack : Decoder TreasuryTransactionPayload := fun s => do
  let (input, s) ← Input.unpack s
  let (output, s) ← Output.unpack P s
  match input, output with
  | .treasury milestoneId, .treasury output => pure (⟨milestoneId, output⟩, s)
  | _, _ => none

/-! ### Milestones -/

/-- `MigratedFundsEntry::unpack`: a tail transaction hash (49 bytes holding 243
trits), an address, and an amount within `1_000_000..=token_supply`. -/
def MigratedFundsEntry.unpack : Decoder MigratedFundsEntry := fun s => do
  let (raw, s) ← Bytes.unpack 49 s
  let tailTransactionHash ← TailTransactionHash.new raw
  let (address, s) ← Address.unpack s
  let (amount, s) ← Decoder.u64 s
  if h : MigratedFundsEntry.AMOUNT_MIN ≤ amount.toNat ∧ amount ≤ P.tokenSupply then
    pure (⟨tailTransactionHash, address, amount, h.1⟩, s)
  else none

/-- The loop of `verify_funds`: no tail transaction hash twice, and the sum of
the amounts, with `checked_add`, within the token supply. -/
def verifyFundsFrom (tokenSupply : UInt64) :
    List MigratedFundsEntry → List (Bytes 49) → UInt64 → Bool
  | [], _, _ => true
  | f :: rest, seen, fundsSum =>
    if f.tailTransactionHash.toBytes ∈ seen then false
    else
      match fundsSum.checkedAdd f.amount with
      | none => false
      | some fundsSum =>
        if fundsSum > tokenSupply then false
        else verifyFundsFrom tokenSupply rest (f.tailTransactionHash.toBytes :: seen) fundsSum

/-- `verify_funds::<true>`: the funds strictly sorted by their packed bytes,
then the loop. -/
def ReceiptMilestoneOption.verifyFunds (funds : List MigratedFundsEntry) (tokenSupply : UInt64) :
    Bool :=
  decide ((funds.map MigratedFundsEntry.pack).IsChain (· < ·)) && verifyFundsFrom tokenSupply funds [] 0

/-- `ReceiptMilestoneOption::unpack`: `1..=128` funds that pass `verify_funds`,
then a payload that `verify_transaction` admits only as a treasury transaction. -/
def ReceiptMilestoneOption.unpack : Decoder ReceiptMilestoneOption := fun s => do
  let (migratedAt, s) ← Decoder.u32 s
  let (last, s) ← Decoder.bool s
  let (⟨funds, hfunds⟩, s) ←
    Decoder.bounded 1 OUTPUT_COUNT_MAX (Decoder.leNat 2) (MigratedFundsEntry.unpack P) s
  if !ReceiptMilestoneOption.verifyFunds funds P.tokenSupply then none else
  let (kind, s) ← Decoder.u32 s
  if kind ≠ 4 then none else
  let (transaction, s) ← TreasuryTransactionPayload.unpack P s
  pure (⟨migratedAt, last, funds, transaction, hfunds⟩, s)

/-- `ParametersMilestoneOption::unpack`: at most 8192 bytes of parameters. -/
def ParametersMilestoneOption.unpack : Decoder ParametersMilestoneOption := fun s => do
  let (targetMilestoneIndex, s) ← Decoder.u32 s
  let (protocolVersion, s) ← Decoder.u8 s
  let (⟨binaryParameters, h⟩, s) ← Decoder.bounded 0 8192 (Decoder.leNat 2) Decoder.u8 s
  pure (⟨targetMilestoneIndex, protocolVersion, binaryParameters, h.2⟩, s)

/-- `MilestoneOption::unpack`. -/
def MilestoneOption.unpack : Decoder MilestoneOption := fun s => do
  let (kind, s) ← Decoder.u8 s
  match kind with
  | 0 => let (r, s) ← ReceiptMilestoneOption.unpack P s; pure (.receipt r, s)
  | 1 => let (p, s) ← ParametersMilestoneOption.unpack s; pure (.parameters p, s)
  | _ => none

/-- `MilestoneOptions::unpack`: at most two options, strictly sorted by kind. -/
def MilestoneOptions.unpack : Decoder MilestoneOptions := fun s => do
  let (⟨options, hcount⟩, s) ← Decoder.bounded 0 2 (Decoder.leNat 1) (MilestoneOption.unpack P) s
  if h : options.IsChain (fun a b => a.kind < b.kind) then
    pure (⟨options, hcount.2, pairwise_of_isChain (fun a b c => UInt8.lt_trans' a.kind b.kind c.kind) h⟩, s)
  else none

/-- `Parents::unpack`: `1..=8` block ids, strictly sorted. -/
def Parents.unpack : Decoder Parents := fun s => do
  let (⟨parents, hcount⟩, s) ← Decoder.bounded 1 8 (Decoder.leNat 1) (Bytes.unpack 32) s
  if h : parents.IsChain (· < ·) then
    pure (⟨parents, hcount, pairwise_of_isChain Bytes.lt_trans h⟩, s)
  else none

/-- `MilestoneEssence::unpack`: the protocol version of the parameters, and
metadata of at most `u16::MAX` bytes. -/
def MilestoneEssence.unpack : Decoder MilestoneEssence := fun s => do
  let (index, s) ← Decoder.u32 s
  let (timestamp, s) ← Decoder.u32 s
  let (protocolVersion, s) ← Decoder.u8 s
  if protocolVersion ≠ P.protocolVersion then none else
  let (previousMilestoneId, s) ← Bytes.unpack 32 s
  let (parents, s) ← Parents.unpack s
  let (inclusionMerkleRoot, s) ← Bytes.unpack 32 s
  let (appliedMerkleRoot, s) ← Bytes.unpack 32 s
  let (⟨metadata, hmetadata⟩, s) ← Decoder.bounded 0 65535 (Decoder.leNat 2) Decoder.u8 s
  let (options, s) ← MilestoneOptions.unpack P s
  pure (⟨index, timestamp, protocolVersion, previousMilestoneId, parents, inclusionMerkleRoot,
    appliedMerkleRoot, metadata, options, Nat.lt_of_le_of_lt hmetadata.2 (by decide)⟩, s)

/-- The public key of a signature. -/
def Signature.publicKey : Signature → Bytes 32
  | .ed25519 s => s.publicKey

/-- `MilestonePayload::unpack`: `1..=255` signatures strictly sorted by public
key (`verify_signatures`). -/
def MilestonePayload.unpack : Decoder MilestonePayload := fun s => do
  let (essence, s) ← MilestoneEssence.unpack P s
  let (⟨signatures, hcount⟩, s) ← Decoder.bounded 1 255 (Decoder.leNat 1) Signature.unpack s
  if (signatures.map Signature.publicKey).IsChain (· < ·) then pure (⟨essence, signatures, hcount⟩, s)
  else none

/-! ### Blocks -/

/-- `Payload::unpack`: the `u32` kind, then the payload of that kind. -/
def Payload.unpack : Decoder Payload := fun s => do
  let (kind, s) ← Decoder.u32 s
  match kind with
  | 6 => let (t, s) ← TransactionPayload.unpack P c s; pure (.transaction t, s)
  | 7 => let (m, s) ← MilestonePayload.unpack P s; pure (.milestone m, s)
  | 4 => let (t, s) ← TreasuryTransactionPayload.unpack P s; pure (.treasuryTransaction t, s)
  | 5 => let (t, s) ← TaggedDataPayload.unpack s; pure (.taggedData t, s)
  | _ => none

/-- The `verify_payload` of a block: no treasury transaction. -/
def Block.verifyPayload : Option Payload → Bool
  | some (.treasuryTransaction _) => false
  | _ => true

/-- `Block::unpack`: the protocol version of the parameters, the parents, an
optional payload that `verify_payload` admits, the nonce, and at most
`Block::LENGTH_MAX` bytes read. -/
def Block.unpack : Decoder Block := fun s => do
  let (protocolVersion, rest) ← Decoder.u8 s
  if protocolVersion ≠ P.protocolVersion then none else
  let (parents, rest) ← Parents.unpack rest
  let (payload, rest) ← unpackOptional (Payload.unpack P c) rest
  if !Block.verifyPayload payload then none else
  let (nonce, rest) ← Decoder.u64 rest
  if s.length - rest.length > Block.LENGTH_MAX then none else
  pure (⟨protocolVersion, parents, payload, nonce⟩, rest)

/-- `Block::unpack_strict`: a block and no byte after it. -/
def Block.unpackStrict (s : List UInt8) : Option Block :=
  match Block.unpack P c s with
  | some (b, []) => some b
  | _ => none

/-! ### What unpacking guarantees -/

/-- `verify_signatures`: the public keys of an unpacked milestone are strictly
sorted. -/
theorem MilestonePayload.unpack_signatures {s r : List UInt8} {m : MilestonePayload}
    (h : MilestonePayload.unpack P s = some (m, r)) :
    (m.signatures.map Signature.publicKey).IsChain (· < ·) := by
  simp only [MilestonePayload.unpack, Option.bind_eq_bind, Option.bind_eq_some_iff] at h
  obtain ⟨⟨e, s₁⟩, -, ⟨⟨sigs, hsigs⟩, s₂⟩, -, h⟩ := h
  split at h
  · rename_i hchain
    simp only [Option.pure_def, Option.some.injEq, Prod.mk.injEq] at h
    obtain ⟨rfl, -⟩ := h
    simpa using hchain
  · cases h

/-- An unpacked milestone payload was unpacked by `MilestonePayload::unpack`. -/
theorem Payload.unpack_milestone {s r : List UInt8} {m : MilestonePayload}
    (h : Payload.unpack P c s = some (.milestone m, r)) :
    ∃ s', MilestonePayload.unpack P s' = some (m, r) := by
  simp only [Payload.unpack, Option.bind_eq_bind, Option.bind_eq_some_iff] at h
  obtain ⟨⟨kind, s₁⟩, -, h⟩ := h
  -- one case per payload kind; only kind 7 builds a milestone
  split at h
  · simp [Option.bind_eq_some_iff] at h
  · simp only [Option.bind_eq_some_iff, Option.pure_def, Option.some.injEq, Prod.mk.injEq,
      Payload.milestone.injEq] at h
    obtain ⟨⟨m', r'⟩, hm', rfl, rfl⟩ := h
    exact ⟨_, hm'⟩
  · simp [Option.bind_eq_some_iff] at h
  · simp [Option.bind_eq_some_iff] at h
  · cases h

theorem unpackOptional_eq_some_some {α : Type} {d : Decoder α} {s r : List UInt8} {x : α}
    (h : unpackOptional d s = some (some x, r)) : ∃ s', d s' = some (x, r) := by
  simp only [unpackOptional, Option.bind_eq_bind, Option.bind_eq_some_iff] at h
  obtain ⟨⟨len, s₁⟩, -, h⟩ := h
  split at h
  · simp at h
  split at h
  · cases h
  simp only [Option.bind_eq_some_iff] at h
  obtain ⟨⟨p, rest⟩, hp, h⟩ := h
  split at h
  · simp only [Option.pure_def, Option.some.injEq, Prod.mk.injEq] at h
    obtain ⟨⟨rfl⟩, rfl⟩ := h
    exact ⟨s₁, hp⟩
  · cases h

/-- The payload of an unpacked block was unpacked by `Payload::unpack`. -/
theorem Block.unpack_payload {s r : List UInt8} {b : Block} {p : Payload}
    (h : Block.unpack P c s = some (b, r)) (hp : b.payload = some p) :
    ∃ s' r', Payload.unpack P c s' = some (p, r') := by
  simp only [Block.unpack, Option.bind_eq_bind, Option.bind_eq_some_iff] at h
  obtain ⟨⟨version, s₁⟩, -, h⟩ := h
  split at h
  · cases h
  simp only [Option.bind_eq_some_iff] at h
  obtain ⟨⟨parents, s₂⟩, -, ⟨payload, s₃⟩, hpayload, h⟩ := h
  split at h
  · cases h
  simp only [Option.bind_eq_some_iff] at h
  obtain ⟨⟨nonce, s₄⟩, -, h⟩ := h
  split at h
  · cases h
  simp only [Option.pure_def, Option.some.injEq, Prod.mk.injEq] at h
  obtain ⟨rfl, -⟩ := h
  subst hp
  obtain ⟨s', hs'⟩ := unpackOptional_eq_some_some hpayload
  exact ⟨s', _, hs'⟩

theorem Block.unpackStrict_eq_some {s : List UInt8} {b : Block} (h : Block.unpackStrict P c s = some b) :
    Block.unpack P c s = some (b, []) := by
  unfold Block.unpackStrict at h
  split at h
  · rename_i b' hb
    cases h
    exact hb
  · cases h

/-- The signers of a milestone in a block that `unpack_strict` accepts have
strictly sorted, hence distinct, public keys. -/
theorem Block.unpackStrict_milestone_signers {s : List UInt8} {b : Block} {m : MilestonePayload}
    (h : Block.unpackStrict P c s = some b) (hm : b.payload = some (.milestone m)) :
    (m.signatures.map Signature.publicKey).Pairwise (· < ·) := by
  obtain ⟨s', r', hp⟩ := Block.unpack_payload P c (Block.unpackStrict_eq_some P c h) hm
  obtain ⟨s'', hs''⟩ := Payload.unpack_milestone P c hp
  exact pairwise_of_isChain Bytes.lt_trans (MilestonePayload.unpack_signatures P hs'')

/-! ### Packing what was unpacked

`Block::id` hashes `pack_to_vec` of the decoded block, not the bytes it was
decoded from, so a block id names the bytes a node received only when
unpacking followed by packing gives those bytes back.

It does not always.  `TailTransactionHash::new` reads 49 bytes as 243 T5B1
trits and keeps `to_buf()` of them: the last byte holds five trit positions of
which only three are read, and the buffer built from the trits writes zeros
into the other two.  A migrated funds entry whose last hash byte sets those two
positions is accepted, and packs to other bytes (`receiptBlockNoncanonical`).
-/

/-- A migrated funds entry of the minimum amount with the all-zero hash. -/
def receiptFund : MigratedFundsEntry where
  tailTransactionHash := ⟨.null 49⟩
  address := .ed25519 (.replicate 32 1)
  amount := 1000000
  amount_ge := by decide

/-- A receipt of that one entry, with its treasury transaction. -/
def receiptOption : ReceiptMilestoneOption where
  migratedAt := 1
  last := true
  funds := [receiptFund]
  transaction := ⟨.null 32, ⟨1000000⟩⟩
  funds_length := by decide

/-- A milestone carrying the receipt, with one signature. -/
def receiptMilestone : MilestonePayload where
  essence :=
    { index := 1, timestamp := 0, protocolVersion := PROTOCOL_VERSION
      previousMilestoneId := .null 32
      parents := ⟨[.null 32], by decide, by decide⟩
      inclusionMerkleRoot := .null 32, appliedMerkleRoot := .null 32
      metadata := []
      options := ⟨[.receipt receiptOption], by decide, by decide⟩
      metadata_le := by decide }
  signatures := [.ed25519 ⟨.replicate 32 2, .replicate 64 3⟩]
  signatures_length := by decide

/-- The block of the milestone. -/
def receiptBlock : Block where
  protocolVersion := PROTOCOL_VERSION
  parents := ⟨[.null 32], by decide, by decide⟩
  payload := some (.milestone receiptMilestone)
  nonce := 0

/-- The bytes of `receiptBlock` with byte 239, the last of the tail transaction
hash, set to 81: as `i8`, 81 + 121 = 202 has the base-3 digits 1,1,1,1,2, so
the three trits read are 0 and the fifth, unread, is 1. -/
def receiptBlockNoncanonical : List UInt8 := receiptBlock.pack.set 239 81

theorem unpack_strict_accepts_noncanonical_tail_hash (c : Crypto) :
    Block.unpackStrict .default c receiptBlockNoncanonical = some receiptBlock ∧
      receiptBlock.pack ≠ receiptBlockNoncanonical := by
  constructor
  · -- the crypto is read only by transaction payloads: evaluate with it free
    set_option maxRecDepth 100000 in rfl
  · decide +kernel

end Bee
