import Bee.Ledger.Storage
import Bee.Block.Semantic

namespace Bee

open AssocMap

/-!
# bee-ledger — white flag

The white-flag confirmation of a milestone: a depth-first walk of the past
cone of the milestone's parents that applies every block not referenced
before, parents first.  A block with a transaction payload is included when
its inputs are unspent — created earlier in the same milestone, or unspent in
storage — and `semantic_validation` finds no conflict; it is then recorded in
the metadata's created and consumed outputs.  Any other transaction is
excluded with its conflict, and leaves the metadata's outputs as they were.

* `fetchInput`, `fetchInputs` — the loop of `apply_regular_essence` that finds the consumed outputs;
* `applyRegularEssence`, `applyBlock` — one transaction, one block;
* `Traversal.step`, `traversePastCone` — the loop of `traverse_past_cone`, one
  iteration at a time, run for at most `fuel` iterations: on a tangle with a
  cycle the source loops forever;
* `merkleDigest` — `MerkleHasher::digest` of a list of block ids;
* `whiteFlag` — the walk, the two Merkle roots and the final checks.
-/

/-- The variants of `bee_ledger::Error` the modelled consensus returns. -/
inductive LedgerError
  | block (error : Error)
  | types (error : ReceiptError)
  | missingBlock (blockId : BlockId)
  | unsupportedInputKind (kind : UInt8)
  | unsupportedOutputKind (kind : UInt8)
  | milestoneBlockNotFound (blockId : BlockId)
  | noMilestonePayload
  | nonContiguousMilestones (index ledgerIndex : UInt32)
  | inclusionMerkleRootMismatch (index : UInt32) (computed provided : Bytes 32)
  | appliedMerkleRootMismatch (index : UInt32) (computed provided : Bytes 32)
  | invalidBlocksCount (referenced noTransaction conflicting included : Nat)
  | invalidLedgerUnspentState (supply : UInt64)
  | ledgerStateOverflow
  | decreasingReceiptMigratedAtIndex (migratedAt receiptMigratedAt : UInt32)
  | missingUnspentOutput (outputId : OutputId)
  | previousMilestoneNotFound
  deriving DecidableEq

/-- `WhiteFlagMetadata`. -/
structure WhiteFlagMetadata where
  milestoneIndex : UInt32
  milestoneTimestamp : UInt32
  previousMilestoneId : Option MilestoneId
  foundPreviousMilestone : Bool
  referencedBlocks : List BlockId
  excludedNoTransactionBlocks : List BlockId
  excludedConflictingBlocks : List (BlockId × ConflictReason)
  includedBlocks : List BlockId
  createdOutputs : Map OutputId CreatedOutput
  consumedOutputs : Map OutputId (CreatedOutput × ConsumedOutput)
  inclusionMerkleRoot : Bytes 32
  appliedMerkleRoot : Bytes 32

/-- `WhiteFlagMetadata::new`. -/
def WhiteFlagMetadata.new (milestoneIndex milestoneTimestamp : UInt32)
    (previousMilestoneId : Option MilestoneId) : WhiteFlagMetadata where
  milestoneIndex := milestoneIndex
  milestoneTimestamp := milestoneTimestamp
  previousMilestoneId := previousMilestoneId
  foundPreviousMilestone := false
  referencedBlocks := []
  excludedNoTransactionBlocks := []
  excludedConflictingBlocks := []
  includedBlocks := []
  createdOutputs := ∅
  consumedOutputs := ∅
  inclusionMerkleRoot := .null 32
  appliedMerkleRoot := .null 32

/-- A step of white flag: a `bee_ledger::Error`, an early conflict, or a value. -/
abbrev Confirmation := ExceptT ConflictReason (Except LedgerError)

/-- The body of the loop of `apply_regular_essence` for one input: a UTXO
input not consumed in this milestone, whose output was created in this
milestone or is unspent in storage. -/
def fetchInput (s : Storage) (m : WhiteFlagMetadata) : Input → Confirmation (OutputId × CreatedOutput)
  | .utxo outputId =>
    if (m.consumedOutputs.lookup outputId).isSome then
      throw .inputUtxoAlreadySpentInThisMilestone
    else
      match m.createdOutputs.lookup outputId with
      | some output => pure (outputId, output)
      | none =>
        match s.fetchOutput outputId with
        | some output =>
          if !s.isOutputUnspent outputId then throw .inputUtxoAlreadySpent else pure (outputId, output)
        | none => throw .inputUtxoNotFound
  | input => throwThe LedgerError (.unsupportedInputKind input.kind)

/-- The loop of `apply_regular_essence` over the inputs, which returns at the
first input that conflicts. -/
def fetchInputs (s : Storage) (m : WhiteFlagMetadata) (inputs : List Input) :
    Confirmation (List (OutputId × CreatedOutput)) :=
  inputs.mapM (fetchInput s m)

variable (c : Crypto)

/-- The metadata after including a transaction: its consumed outputs recorded
as consumed by it, its outputs recorded as created by the block. -/
def WhiteFlagMetadata.include (m : WhiteFlagMetadata) (blockId : BlockId)
    (transactionId : TransactionId) (consumed : List (OutputId × CreatedOutput))
    (essence : RegularTransactionEssence) : WhiteFlagMetadata :=
  { m with
    consumedOutputs := consumed.foldl (fun acc p =>
      acc.insert p.1 (p.2, ⟨transactionId, m.milestoneIndex, m.milestoneTimestamp⟩)) m.consumedOutputs
    createdOutputs := (essence.outputsWithIds transactionId).foldl (fun acc p =>
      acc.insert p.1 ⟨blockId, m.milestoneIndex, m.milestoneTimestamp, p.2⟩) m.createdOutputs }

/-- `apply_regular_essence`: the conflict, and the metadata, changed only when
there is none. -/
def applyRegularEssence (s : Storage) (blockId : BlockId) (transactionId : TransactionId)
    (essence : RegularTransactionEssence) (unlocks : Unlocks) (m : WhiteFlagMetadata) :
    Except LedgerError (ConflictReason × WhiteFlagMetadata) :=
  match (fetchInputs s m essence.inputs).run with
  | .error e => .error e
  | .ok (.error reason) => .ok (reason, m)
  | .ok (.ok consumed) =>
    let inputs := consumed.map fun p => (p.1, p.2.inner)
    match semanticValidation c (.new c transactionId essence inputs unlocks m.milestoneTimestamp)
        inputs unlocks with
    | .error e => .error (.block e)
    | .ok .none => .ok (.none, m.include blockId transactionId consumed essence)
    | .ok reason => .ok (reason, m)

/-- `apply_transaction`. -/
def applyTransaction (s : Storage) (blockId : BlockId) (t : TransactionPayload) (m : WhiteFlagMetadata) :
    Except LedgerError (ConflictReason × WhiteFlagMetadata) :=
  applyRegularEssence c s blockId (t.id c) t.essence t.unlocks m

/-- `apply_block`: the block is referenced, then included, excluded with its
conflict, or excluded as carrying no transaction. -/
def applyBlock (s : Storage) (blockId : BlockId) (block : Block) (m : WhiteFlagMetadata) :
    Except LedgerError WhiteFlagMetadata :=
  let m := { m with referencedBlocks := m.referencedBlocks ++ [blockId] }
  match block.payload with
  | some (.transaction t) => do
    let (reason, m) ← applyTransaction c s blockId t m
    if reason = .none then pure { m with includedBlocks := m.includedBlocks ++ [blockId] }
    else pure { m with excludedConflictingBlocks := m.excludedConflictingBlocks ++ [(blockId, reason)] }
  | some (.milestone milestone) =>
    let m := match m.previousMilestoneId with
      | some previous =>
        if previous = milestone.id c then { m with foundPreviousMilestone := true } else m
      | none => m
    pure { m with excludedNoTransactionBlocks := m.excludedNoTransactionBlocks ++ [blockId] }
  | _ => pure { m with excludedNoTransactionBlocks := m.excludedNoTransactionBlocks ++ [blockId] }

/-! ### The walk -/

/-- What white flag reads of the tangle: each known block with whether a
milestone referenced it already, and the solid entry points. -/
structure TangleView where
  blockAndMetadata : BlockId → Option (Block × Bool)
  isSolidEntryPoint : BlockId → Bool

/-- The state of the loop of `traverse_past_cone`: the stack of block ids (its
top is the last), the visited blocks and the metadata. -/
structure Traversal where
  blockIds : List BlockId
  visited : Finset BlockId
  metadata : WhiteFlagMetadata

/-- One iteration of the loop: `none` once the stack is empty.  A referenced
block or a solid entry point is popped as visited; a block with an unvisited
parent pushes it; a block whose parents are all visited is applied, once. -/
def Traversal.step (tangle : TangleView) (s : Storage) (t : Traversal) :
    Option (Except LedgerError Traversal) :=
  match t.blockIds.getLast? with
  | none => none
  | some blockId =>
    some <| match tangle.blockAndMetadata blockId with
    | some (block, referenced) =>
      if referenced then
        .ok { t with visited := insert blockId t.visited, blockIds := t.blockIds.dropLast }
      else
        match block.parents.toList.find? (· ∉ t.visited) with
        | some unvisited => .ok { t with blockIds := t.blockIds ++ [unvisited] }
        | none =>
          if blockId ∉ t.visited then do
            let m ← applyBlock c s blockId block t.metadata
            pure ⟨t.blockIds.dropLast, insert blockId t.visited, m⟩
          else .ok { t with blockIds := t.blockIds.dropLast }
    | none =>
      if !tangle.isSolidEntryPoint blockId then .error (.missingBlock blockId)
      else .ok { t with visited := insert blockId t.visited, blockIds := t.blockIds.dropLast }

/-- `traverse_past_cone`, for at most `fuel` iterations (`none` when they do not suffice). -/
def traversePastCone (tangle : TangleView) (s : Storage) : Nat → Traversal →
    Option (Except LedgerError WhiteFlagMetadata)
  | 0, _ => none
  | fuel + 1, t =>
    match t.step c tangle s with
    | none => some (.ok t.metadata)
    | some (.error e) => some (.error e)
    | some (.ok t') => traversePastCone tangle s fuel t'

/-! ### Merkle roots -/

/-- `largest_power_of_two(n)`: the largest power of two not above `n ≥ 1`. -/
def largestPowerOfTwo (n : Nat) : Nat := 2 ^ Nat.log2 n

/-- `MerkleHasher::digest_inner`: the empty hash, a leaf (prefix `0`), or a node
(prefix `1`) over the split at the largest power of two below the length.
`fuel` bounds the depth; the length of the list is enough. -/
def digestInner (digest : List UInt8 → Bytes 32) : Nat → List BlockId → Bytes 32
  | _, [] => digest []
  | _, [blockId] => digest (0 :: blockId.toList)
  | 0, _ => digest []
  | fuel + 1, blockIds =>
    let k := largestPowerOfTwo (blockIds.length - 1)
    digest (1 :: ((digestInner digest fuel (blockIds.take k)).toList ++
      (digestInner digest fuel (blockIds.drop k)).toList))

/-- `MerkleHasher::<Blake2b256>::digest`. -/
def merkleDigest (blockIds : List BlockId) : Bytes 32 :=
  digestInner c.blake2b256 blockIds.length blockIds

/-- `white_flag`: the walk from the parents (the first parent on top of the
stack), the Merkle roots of the referenced and the included blocks, and the
checks that the previous milestone was met and every referenced block counted. -/
def whiteFlag (tangle : TangleView) (s : Storage) (fuel : Nat) (blockIds : List BlockId)
    (m : WhiteFlagMetadata) : Option (Except LedgerError WhiteFlagMetadata) :=
  (traversePastCone c tangle s fuel ⟨blockIds.reverse, ∅, m⟩).map fun r => do
    let m ← r
    let m := { m with
      inclusionMerkleRoot := merkleDigest c m.referencedBlocks
      appliedMerkleRoot := merkleDigest c m.includedBlocks }
    if m.milestoneIndex ≠ 1 ∧ m.previousMilestoneId.isSome ∧ !m.foundPreviousMilestone then
      .error .previousMilestoneNotFound
    else if m.referencedBlocks.length ≠ m.excludedNoTransactionBlocks.length +
        m.excludedConflictingBlocks.length + m.includedBlocks.length then
      .error (.invalidBlocksCount m.referencedBlocks.length m.excludedNoTransactionBlocks.length
        m.excludedConflictingBlocks.length m.includedBlocks.length)
    else .ok m

end Bee
