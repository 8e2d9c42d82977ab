import Bee.Ledger.WhiteFlag
import Bee.Ledger.Utxo
import Bee.Lib.Flow
import Bee.Lib.SpendLog

namespace Bee

open AssocMap

/-!
# bee-ledger — no double spend in white flag

The transactions white flag includes form a valid spend log (`SpendLog.Valid`)
from the outputs unspent in storage: no output is consumed twice, within one
transaction or across two, and every consumed output was unspent in storage
or created by a transaction included before.  The metadata's consumed and
created outputs are exactly what the included transactions consume and
create, so a transaction excluded with a conflict changes neither.

The argument follows the code:

* `fetchInput_ok`, `fetchInputs_ok` — what the input loop checks of each input;
  `fetchInputs_stop` — it stops only with a conflict;
* `verifyInputs_utxo_nodup` — the syntactic check that makes the inputs of one
  transaction distinct, which the loop does not check itself;
* `applyRegularEssence_eq_ok`, `applyBlock_eq_ok`, `Traversal.step_eq_ok`,
  `whiteFlag_eq_ok` — what one transaction, one block, one iteration of the
  walk and the whole of white flag can do;
* `WhiteFlagMetadata.Consistent` — the invariant, kept by `applyBlock`
  (`Consistent.applyBlock`) and so by every run of the walk
  (`traversePastCone_invariant`).
-/

/-- An output unspent in storage: stored, and marked unspent. -/
def Storage.HoldsUnspent (s : Storage) (outputId : OutputId) : Prop :=
  (s.fetchOutput outputId).isSome ∧ s.isOutputUnspent outputId = true

instance (s : Storage) (outputId : OutputId) : Decidable (s.HoldsUnspent outputId) :=
  inferInstanceAs (Decidable (_ ∧ _))

/-- The ids of the outputs a transaction creates. -/
def TransactionPayload.createdIds (c : Crypto) (t : TransactionPayload) : List OutputId :=
  (t.essence.outputsWithIds (t.id c)).map Prod.fst

/-- The transaction the block of an id carries in the tangle. -/
def TangleView.transaction (tangle : TangleView) (blockId : BlockId) : Option TransactionPayload :=
  match tangle.blockAndMetadata blockId with
  | some (block, _) =>
    match block.payload with
    | some (.transaction t) => some t
    | _ => none
  | none => none

/-- The transactions of the included blocks, in the order of inclusion. -/
def WhiteFlagMetadata.includedTransactions (m : WhiteFlagMetadata) (tangle : TangleView) :
    List TransactionPayload :=
  m.includedBlocks.filterMap tangle.transaction

/-- The included transactions as a spend log: what each consumes and creates. -/
def WhiteFlagMetadata.spendLog (c : Crypto) (m : WhiteFlagMetadata) (tangle : TangleView) :
    List (List OutputId × List OutputId) :=
  (m.includedTransactions tangle).map fun t => (t.essence.consumedIds, t.createdIds c)

/-! ### The inputs of one transaction -/

section Inputs

variable {s : Storage} {m : WhiteFlagMetadata}

/-- An input the loop accepts is a UTXO input not consumed in this milestone,
whose output was created in this milestone or is stored and unspent. -/
theorem fetchInput_ok {input : Input} {p : OutputId × CreatedOutput}
    (h : (fetchInput s m input).run = .ok (.ok p)) :
    input = .utxo p.1 ∧ p.1 ∉ m.consumedOutputs ∧
      (m.createdOutputs.lookup p.1 = some p.2 ∨
        (s.fetchOutput p.1 = some p.2 ∧ s.isOutputUnspent p.1 = true)) := by
  cases input with
  | treasury _ => simp [fetchInput] at h
  | utxo id =>
    simp only [fetchInput] at h
    split at h
    · simp only [Flow.run_throw] at h; cases h
    · rename_i hfresh
      have hnot : id ∉ m.consumedOutputs := by simpa [AList.lookup_isSome] using hfresh
      -- created in this milestone, or else looked up in storage
      split at h
      · rename_i output hcreated
        simp only [Flow.run_pure, Except.ok.injEq] at h
        subst h
        exact ⟨rfl, hnot, .inl hcreated⟩
      · split at h
        · rename_i output hstored
          split at h
          · simp only [Flow.run_throw] at h; cases h
          · rename_i hunspent
            simp only [Flow.run_pure, Except.ok.injEq] at h
            subst h
            exact ⟨rfl, hnot, .inr ⟨hstored, by simpa using hunspent⟩⟩
        · simp only [Flow.run_throw] at h; cases h

/-- The loop body stops only with a conflict, never with `ConflictReason::None`. -/
theorem fetchInput_stop {input : Input} {r : ConflictReason}
    (h : (fetchInput s m input).run = .ok (.error r)) : r ≠ .none := by
  cases input with
  | treasury _ => simp [fetchInput] at h
  | utxo id =>
    simp only [fetchInput] at h
    split at h
    · simp only [Flow.run_throw, Except.ok.injEq, Except.error.injEq] at h; simp [← h]
    · split at h
      · simp only [Flow.run_pure] at h; cases h
      · split at h
        · split at h
          · simp only [Flow.run_throw, Except.ok.injEq, Except.error.injEq] at h; simp [← h]
          · simp only [Flow.run_pure] at h; cases h
        · simp only [Flow.run_throw, Except.ok.injEq, Except.error.injEq] at h; simp [← h]

/-- The loop reads only the consumed and created outputs of the metadata. -/
theorem fetchInputs_congr {m₁ m₂ : WhiteFlagMetadata} (hc : m₁.consumedOutputs = m₂.consumedOutputs)
    (hr : m₁.createdOutputs = m₂.createdOutputs) : fetchInputs s m₁ = fetchInputs s m₂ := by
  have hbody : fetchInput s m₁ = fetchInput s m₂ := by
    funext input
    cases input <;> simp [fetchInput, hc, hr]
  funext inputs
  simp only [fetchInputs, hbody]

/-- A loop that finds every input: the inputs are the UTXO inputs of the
consumed outputs it returns, each accepted by `fetchInput_ok`. -/
theorem fetchInputs_ok {inputs : List Input} {consumed : List (OutputId × CreatedOutput)}
    (h : (fetchInputs s m inputs).run = .ok (.ok consumed)) :
    inputs = consumed.map (fun p => .utxo p.1) ∧
      ∀ p ∈ consumed, p.1 ∉ m.consumedOutputs ∧
        (m.createdOutputs.lookup p.1 = some p.2 ∨
          (s.fetchOutput p.1 = some p.2 ∧ s.isOutputUnspent p.1 = true)) := by
  rw [fetchInputs, Flow.run_mapM_eq_ok_ok] at h
  induction h with
  | nil => simp
  | @cons input p inputs consumed hp _ ih =>
    obtain ⟨rfl, hnot, hfound⟩ := fetchInput_ok hp
    refine ⟨by rw [ih.1, List.map_cons], ?_⟩
    intro q hq
    rcases List.mem_cons.mp hq with rfl | hq
    · exact ⟨hnot, hfound⟩
    · exact ih.2 q hq

/-- The loop stops only with a conflict. -/
theorem fetchInputs_stop {inputs : List Input} {r : ConflictReason}
    (h : (fetchInputs s m inputs).run = .ok (.error r)) : r ≠ .none := by
  obtain ⟨input, -, hinput⟩ := Flow.run_mapM_eq_ok_error h
  exact fetchInput_stop hinput

/-- `verify_inputs` accepts UTXO inputs only when their output ids are distinct
and none was seen before. -/
theorem verifyInputs_utxo_nodup {ids seen : List OutputId}
    (h : verifyInputs (ids.map .utxo) seen = .ok ()) : ids.Nodup ∧ ∀ id ∈ ids, id ∉ seen := by
  induction ids generalizing seen with
  | nil => simp
  | cons id ids ih =>
    simp only [List.map_cons, verifyInputs] at h
    split at h
    · cases h
    · rename_i hid
      obtain ⟨hnodup, hfresh⟩ := ih h
      refine ⟨List.nodup_cons.mpr ⟨fun hmem => hfresh id hmem List.mem_cons_self, hnodup⟩, ?_⟩
      intro x hx
      rcases List.mem_cons.mp hx with rfl | hx
      · exact hid
      · exact fun hseen => hfresh x hx (List.mem_cons_of_mem _ hseen)

/-- The outputs a transaction consumes, when the loop finds them all: its
consumed ids, distinct, none consumed in this milestone, each created in this
milestone or unspent in storage. -/
theorem fetchInputs_essence_ok {e : RegularTransactionEssence} {consumed : List (OutputId × CreatedOutput)}
    (h : (fetchInputs s m e.inputs).run = .ok (.ok consumed)) :
    e.consumedIds = consumed.map Prod.fst ∧ e.consumedIds.Nodup ∧
      ∀ id ∈ e.consumedIds, id ∉ m.consumedOutputs ∧ (id ∈ m.createdOutputs ∨ s.HoldsUnspent id) := by
  obtain ⟨hinputs, hfound⟩ := fetchInputs_ok h
  have hids : e.consumedIds = consumed.map Prod.fst := by
    simp [RegularTransactionEssence.consumedIds, hinputs, List.filterMap_map]
  have hverified : verifyInputs ((consumed.map Prod.fst).map .utxo) [] = .ok () := by
    rw [List.map_map]
    exact hinputs ▸ e.inputs_verified
  refine ⟨hids, hids ▸ (verifyInputs_utxo_nodup hverified).1, ?_⟩
  intro id hid
  rw [hids, List.mem_map] at hid
  obtain ⟨p, hp, rfl⟩ := hid
  obtain ⟨hnot, hcreated | ⟨hstored, hunspent⟩⟩ := hfound p hp
  · exact ⟨hnot, .inl (AList.lookup_isSome.mp (by simp [hcreated]))⟩
  · exact ⟨hnot, .inr ⟨by simp [hstored], hunspent⟩⟩

end Inputs

/-! ### One transaction, one block -/

section Apply

variable (c : Crypto) {s : Storage}

@[simp] theorem WhiteFlagMetadata.include_includedBlocks (m : WhiteFlagMetadata) (blockId : BlockId)
    (transactionId : TransactionId) (consumed : List (OutputId × CreatedOutput))
    (essence : RegularTransactionEssence) :
    (m.include blockId transactionId consumed essence).includedBlocks = m.includedBlocks := rfl

@[simp] theorem WhiteFlagMetadata.include_excludedConflictingBlocks (m : WhiteFlagMetadata)
    (blockId : BlockId) (transactionId : TransactionId) (consumed : List (OutputId × CreatedOutput))
    (essence : RegularTransactionEssence) :
    (m.include blockId transactionId consumed essence).excludedConflictingBlocks =
      m.excludedConflictingBlocks := rfl

/-- Including a transaction records its consumed outputs as consumed. -/
theorem WhiteFlagMetadata.mem_include_consumedOutputs (m : WhiteFlagMetadata) (blockId : BlockId)
    (transactionId : TransactionId) (consumed : List (OutputId × CreatedOutput))
    (essence : RegularTransactionEssence) (id : OutputId) :
    id ∈ (m.include blockId transactionId consumed essence).consumedOutputs ↔
      id ∈ m.consumedOutputs ∨ id ∈ consumed.map Prod.fst :=
  mem_foldl_insert _ _ consumed m.consumedOutputs id

/-- Including a transaction records its outputs, under their ids, as created. -/
theorem WhiteFlagMetadata.mem_include_createdOutputs (m : WhiteFlagMetadata) (blockId : BlockId)
    (transactionId : TransactionId) (consumed : List (OutputId × CreatedOutput))
    (essence : RegularTransactionEssence) (id : OutputId) :
    id ∈ (m.include blockId transactionId consumed essence).createdOutputs ↔
      id ∈ m.createdOutputs ∨ id ∈ (essence.outputsWithIds transactionId).map Prod.fst :=
  mem_foldl_insert _ _ _ m.createdOutputs id

/-- `apply_regular_essence` either finds no conflict, having found every input,
and includes the transaction, or returns a conflict and leaves the metadata as
it was. -/
theorem applyRegularEssence_eq_ok {blockId : BlockId} {transactionId : TransactionId}
    {essence : RegularTransactionEssence} {unlocks : Unlocks} {m m' : WhiteFlagMetadata}
    {reason : ConflictReason}
    (h : applyRegularEssence c s blockId transactionId essence unlocks m = .ok (reason, m')) :
    (reason = .none ∧ ∃ consumed, (fetchInputs s m essence.inputs).run = .ok (.ok consumed) ∧
      semanticValidation c (.new c transactionId essence (consumed.map fun p => (p.1, p.2.inner)) unlocks
        m.milestoneTimestamp) (consumed.map fun p => (p.1, p.2.inner)) unlocks = .ok .none ∧
      m' = m.include blockId transactionId consumed essence) ∨
    (reason ≠ .none ∧ m' = m) := by
  unfold applyRegularEssence at h
  split at h
  · cases h
  · rename_i r hstop
    simp only [Except.ok.injEq, Prod.mk.injEq] at h
    obtain ⟨rfl, rfl⟩ := h
    exact .inr ⟨fetchInputs_stop hstop, rfl⟩
  · rename_i consumed hfetch
    -- the verdict of `semantic_validation`
    dsimp only at h
    split at h
    · cases h
    · rename_i hvalid
      simp only [Except.ok.injEq, Prod.mk.injEq] at h
      obtain ⟨rfl, rfl⟩ := h
      exact .inl ⟨rfl, consumed, hfetch, hvalid, rfl⟩
    · rename_i r hne _
      simp only [Except.ok.injEq, Prod.mk.injEq] at h
      obtain ⟨rfl, rfl⟩ := h
      exact .inr ⟨fun hr => hne (hr ▸ rfl), rfl⟩

/-- `apply_block` either includes a transaction whose inputs the loop found,
recording what it consumes and creates, or leaves the included blocks and the
consumed and created outputs as they were. -/
theorem applyBlock_eq_ok {blockId : BlockId} {block : Block} {m m' : WhiteFlagMetadata}
    (h : applyBlock c s blockId block m = .ok m') :
    (∃ t consumed, block.payload = some (.transaction t) ∧
      (fetchInputs s m t.essence.inputs).run = .ok (.ok consumed) ∧
      semanticValidation c (.new c (t.id c) t.essence (consumed.map fun p => (p.1, p.2.inner)) t.unlocks
        m.milestoneTimestamp) (consumed.map fun p => (p.1, p.2.inner)) t.unlocks = .ok .none ∧
      m'.includedBlocks = m.includedBlocks ++ [blockId] ∧
      m'.excludedConflictingBlocks = m.excludedConflictingBlocks ∧
      m'.consumedOutputs = (m.include blockId (t.id c) consumed t.essence).consumedOutputs ∧
      m'.createdOutputs = (m.include blockId (t.id c) consumed t.essence).createdOutputs) ∨
    (m'.includedBlocks = m.includedBlocks ∧ m'.consumedOutputs = m.consumedOutputs ∧
      m'.createdOutputs = m.createdOutputs) := by
  unfold applyBlock at h
  split at h
  · rename_i t hpayload
    -- the transaction's verdict decides between inclusion and exclusion
    cases happly : applyTransaction c s blockId t { m with referencedBlocks := m.referencedBlocks ++ [blockId] } with
    | error e => simp [happly, bind, Except.bind] at h
    | ok result =>
      obtain ⟨reason, m₁⟩ := result
      simp only [happly, bind, Except.bind] at h
      rcases applyRegularEssence_eq_ok c happly with ⟨rfl, consumed, hfetch, hvalid, rfl⟩ | ⟨hne, rfl⟩
      · simp only [if_pos, pure, Except.pure, Except.ok.injEq] at h
        subst h
        rw [fetchInputs_congr rfl rfl] at hfetch
        exact .inl ⟨t, consumed, hpayload, hfetch, hvalid, rfl, rfl, rfl, rfl⟩
      · simp only [hne, if_false, pure, Except.pure, Except.ok.injEq] at h
        subst h
        exact .inr ⟨rfl, rfl, rfl⟩
  · -- a milestone: only whether the previous milestone was found, and the excluded blocks
    simp only [pure, Except.pure, Except.ok.injEq] at h
    subst h
    refine .inr ⟨?_, ?_, ?_⟩ <;> split <;> (try split) <;> rfl
  · simp only [pure, Except.pure, Except.ok.injEq] at h
    subst h
    exact .inr ⟨rfl, rfl, rfl⟩

/-- A block excluded with a conflict leaves the consumed and created outputs
as they were. -/
theorem applyBlock_excluded {blockId : BlockId} {block : Block} {m m' : WhiteFlagMetadata}
    {reason : ConflictReason} (h : applyBlock c s blockId block m = .ok m')
    (hexcluded : m'.excludedConflictingBlocks = m.excludedConflictingBlocks ++ [(blockId, reason)]) :
    m'.consumedOutputs = m.consumedOutputs ∧ m'.createdOutputs = m.createdOutputs := by
  rcases applyBlock_eq_ok c h with ⟨-, -, -, -, -, -, hsame, -, -⟩ | ⟨-, hconsumed, hcreated⟩
  · -- an included block is not excluded as well
    have := congrArg List.length (hsame.symm.trans hexcluded)
    simp at this
  · exact ⟨hconsumed, hcreated⟩

end Apply

/-! ### The walk -/

section Walk

variable (c : Crypto) (tangle : TangleView) (s : Storage)

/-- An iteration of the walk leaves the metadata as it was, or applies to it a
block of the tangle that no milestone referenced yet. -/
theorem Traversal.step_eq_ok {t t' : Traversal} (h : t.step c tangle s = some (.ok t')) :
    t'.metadata = t.metadata ∨
      ∃ blockId block, tangle.blockAndMetadata blockId = some (block, false) ∧
        applyBlock c s blockId block t.metadata = .ok t'.metadata := by
  unfold Traversal.step at h
  split at h
  · cases h
  · rename_i blockId _
    simp only [Option.some.injEq] at h
    split at h
    · rename_i block referenced hblock
      -- a referenced block, a block with an unvisited parent, an applied block, a visited one
      split at h
      · cases h; exact .inl rfl
      · rename_i hfresh
        split at h
        · cases h; exact .inl rfl
        · split at h
          · cases happly : applyBlock c s blockId block t.metadata with
            | error e => simp [happly, bind, Except.bind] at h
            | ok m =>
              simp only [happly, bind, Except.bind, pure, Except.pure, Except.ok.injEq] at h
              subst h
              have hreferenced : referenced = false := by simpa using hfresh
              exact .inr ⟨blockId, block, hreferenced ▸ hblock, happly⟩
          · cases h; exact .inl rfl
    · split at h
      · cases h
      · cases h; exact .inl rfl

/-- What every iteration of the walk keeps of the metadata holds of the
metadata the walk ends with. -/
theorem traversePastCone_invariant (P : WhiteFlagMetadata → Prop)
    (hstep : ∀ t t' : Traversal, P t.metadata → t.step c tangle s = some (.ok t') → P t'.metadata)
    {fuel : Nat} {t : Traversal} {m : WhiteFlagMetadata}
    (h : traversePastCone c tangle s fuel t = some (.ok m)) (ht : P t.metadata) : P m := by
  induction fuel generalizing t with
  | zero => cases h
  | succ fuel ih =>
    unfold traversePastCone at h
    split at h
    · cases h; exact ht
    · cases h
    · rename_i t' hnext
      exact ih h (hstep t t' ht hnext)

/-- White flag ends with the metadata of a complete walk from the parents,
with its two Merkle roots, when the previous milestone was met (or is not
needed) and every referenced block was counted once. -/
theorem whiteFlag_eq_ok {fuel : Nat} {blockIds : List BlockId} {m m' : WhiteFlagMetadata}
    (h : whiteFlag c tangle s fuel blockIds m = some (.ok m')) :
    ∃ mt, traversePastCone c tangle s fuel ⟨blockIds.reverse, ∅, m⟩ = some (.ok mt) ∧
      m' = { mt with
        inclusionMerkleRoot := merkleDigest c mt.referencedBlocks
        appliedMerkleRoot := merkleDigest c mt.includedBlocks } ∧
      (mt.milestoneIndex = 1 ∨ mt.previousMilestoneId = none ∨ mt.foundPreviousMilestone = true) ∧
      mt.referencedBlocks.length = mt.excludedNoTransactionBlocks.length +
        mt.excludedConflictingBlocks.length + mt.includedBlocks.length := by
  unfold whiteFlag at h
  cases htraverse : traversePastCone c tangle s fuel ⟨blockIds.reverse, ∅, m⟩ with
  | none => simp [htraverse] at h
  | some r =>
    cases r with
    | error e => simp [htraverse, bind, Except.bind] at h
    | ok mt =>
      simp only [htraverse, Option.map_some, Option.some.injEq, bind, Except.bind] at h
      refine ⟨mt, rfl, ?_⟩
      split at h
      · cases h
      · rename_i hprevious
        split at h
        · cases h
        · rename_i hcount
          cases h
          refine ⟨rfl, ?_, by simpa using hcount⟩
          -- the guard, read back as a disjunction
          by_cases hindex : mt.milestoneIndex = 1
          · exact .inl hindex
          · cases hprev : mt.previousMilestoneId with
            | none => exact .inr (.inl rfl)
            | some _ => exact .inr (.inr (by simpa [hindex, hprev] using hprevious))

end Walk

/-! ### The invariant -/

section Invariant

variable {c : Crypto} {tangle : TangleView} {s : Storage}

/-- The invariant of white flag: the included transactions form a valid spend
log from the outputs unspent in storage, and the metadata records exactly the
outputs they consume and create. -/
structure WhiteFlagMetadata.Consistent (c : Crypto) (tangle : TangleView) (s : Storage)
    (m : WhiteFlagMetadata) : Prop where
  valid : SpendLog.Valid s.HoldsUnspent (m.spendLog c tangle)
  consumed : ∀ id, id ∈ m.consumedOutputs ↔ id ∈ SpendLog.spent (m.spendLog c tangle)
  created : ∀ id, id ∈ m.createdOutputs ↔ id ∈ SpendLog.created (m.spendLog c tangle)

theorem WhiteFlagMetadata.consistent_new (index timestamp : UInt32) (previous : Option MilestoneId) :
    (WhiteFlagMetadata.new index timestamp previous).Consistent c tangle s := by
  have hlog : (WhiteFlagMetadata.new index timestamp previous).spendLog c tangle = [] := rfl
  refine ⟨hlog ▸ .nil, fun id => ?_, fun id => ?_⟩ <;> rw [hlog] <;>
    simp [WhiteFlagMetadata.new, AList.notMem_empty]

/-- Applying a block of the tangle keeps the invariant: an included
transaction extends the log with what it consumes and creates, which the
input loop and `verify_inputs` make admissible; any other block leaves the log
and the outputs as they were. -/
theorem WhiteFlagMetadata.Consistent.applyBlock {m m' : WhiteFlagMetadata} {blockId : BlockId}
    {block : Block} {referenced : Bool} (hc : m.Consistent c tangle s)
    (hblock : tangle.blockAndMetadata blockId = some (block, referenced))
    (h : Bee.applyBlock c s blockId block m = .ok m') : m'.Consistent c tangle s := by
  rcases applyBlock_eq_ok c h with
    ⟨t, consumed, hpayload, hfetch, -, hincluded, -, hconsumed, hcreated⟩ | ⟨hincluded, hconsumed, hcreated⟩
  · have htransaction : tangle.transaction blockId = some t := by
      simp [TangleView.transaction, hblock, hpayload]
    have hlog : m'.spendLog c tangle =
        m.spendLog c tangle ++ [(t.essence.consumedIds, t.createdIds c)] := by
      simp [WhiteFlagMetadata.spendLog, WhiteFlagMetadata.includedTransactions, hincluded,
        List.filterMap_append, htransaction]
    obtain ⟨hids, hnodup, hfound⟩ := fetchInputs_essence_ok hfetch
    refine ⟨?_, fun id => ?_, fun id => ?_⟩
    · rw [hlog]
      refine hc.valid.snoc ⟨hnodup, fun id hid => ?_⟩
      obtain ⟨hnot, hsource⟩ := hfound id hid
      exact ⟨fun hspent => hnot ((hc.consumed id).mpr hspent), hsource.imp_left (hc.created id).mp⟩
    · rw [hconsumed, WhiteFlagMetadata.mem_include_consumedOutputs, hlog,
        SpendLog.spent_append_singleton, List.mem_append, hc.consumed, hids]
    · rw [hcreated, WhiteFlagMetadata.mem_include_createdOutputs, hlog,
        SpendLog.created_append_singleton, List.mem_append, hc.created]
      rfl
  · have hlog : m'.spendLog c tangle = m.spendLog c tangle := by
      simp [WhiteFlagMetadata.spendLog, WhiteFlagMetadata.includedTransactions, hincluded]
    refine ⟨hlog ▸ hc.valid, fun id => ?_, fun id => ?_⟩
    · rw [hconsumed, hlog, hc.consumed]
    · rw [hcreated, hlog, hc.created]

/-- An iteration of the walk keeps the invariant. -/
theorem WhiteFlagMetadata.Consistent.step {t t' : Traversal} (hc : t.metadata.Consistent c tangle s)
    (h : t.step c tangle s = some (.ok t')) : t'.metadata.Consistent c tangle s := by
  rcases Traversal.step_eq_ok c tangle s h with hsame | ⟨blockId, block, hblock, happly⟩
  · exact hsame ▸ hc
  · exact hc.applyBlock hblock happly

/-- What the invariant says of the included transactions: no output consumed
twice, each consumed output unspent in storage or created by an earlier
included transaction, and the metadata's outputs exactly theirs. -/
theorem WhiteFlagMetadata.Consistent.no_double_spend {m : WhiteFlagMetadata} (hc : m.Consistent c tangle s) :
    let txs := m.includedTransactions tangle
    (txs.flatMap (·.essence.consumedIds)).Nodup ∧
      (∀ k (hk : k < txs.length), ∀ id ∈ txs[k].essence.consumedIds,
        s.HoldsUnspent id ∨ id ∈ (txs.take k).flatMap (·.createdIds c)) ∧
      (∀ id, id ∈ m.consumedOutputs ↔ id ∈ txs.flatMap (·.essence.consumedIds)) ∧
      (∀ id, id ∈ m.createdOutputs ↔ id ∈ txs.flatMap (·.createdIds c)) := by
  intro txs
  have hspent : SpendLog.spent (m.spendLog c tangle) = txs.flatMap (·.essence.consumedIds) := by
    simp [SpendLog.spent, WhiteFlagMetadata.spendLog, txs, List.flatMap_map]
  have hcreated : ∀ k, SpendLog.created ((m.spendLog c tangle).take k) =
      (txs.take k).flatMap (·.createdIds c) := by
    intro k
    simp [SpendLog.created, WhiteFlagMetadata.spendLog, txs, List.flatMap_map, ← List.map_take]
  have hcreatedAll : SpendLog.created (m.spendLog c tangle) = txs.flatMap (·.createdIds c) := by
    simp [SpendLog.created, WhiteFlagMetadata.spendLog, txs, List.flatMap_map]
  refine ⟨hspent ▸ hc.valid.spent_nodup, fun k hk id hid => ?_, fun id => ?_, fun id => ?_⟩
  · have hk' : k < (m.spendLog c tangle).length := by simpa [WhiteFlagMetadata.spendLog] using hk
    have hid' : id ∈ ((m.spendLog c tangle)[k]).1 := by simpa [WhiteFlagMetadata.spendLog] using hid
    rw [← hcreated k]
    exact hc.valid.available k hk' id hid'
  · rw [hc.consumed, hspent]
  · rw [hc.created, hcreatedAll]

end Invariant

theorem white_flag_no_double_spend (c : Crypto) {tangle : TangleView} {s : Storage} {fuel : Nat}
    {parents : List BlockId} {index timestamp : UInt32} {previous : Option MilestoneId}
    {m : WhiteFlagMetadata}
    (h : whiteFlag c tangle s fuel parents (.new index timestamp previous) = some (.ok m)) :
    let txs := m.includedTransactions tangle
    (txs.flatMap (·.essence.consumedIds)).Nodup ∧
      (∀ k (hk : k < txs.length), ∀ id ∈ txs[k].essence.consumedIds,
        s.HoldsUnspent id ∨ id ∈ (txs.take k).flatMap (·.createdIds c)) ∧
      (∀ id, id ∈ m.consumedOutputs ↔ id ∈ txs.flatMap (·.essence.consumedIds)) ∧
      (∀ id, id ∈ m.createdOutputs ↔ id ∈ txs.flatMap (·.createdIds c)) ∧
      ∀ blockId block (m₁ m₂ : WhiteFlagMetadata) reason, applyBlock c s blockId block m₁ = .ok m₂ →
        m₂.excludedConflictingBlocks = m₁.excludedConflictingBlocks ++ [(blockId, reason)] →
        m₂.consumedOutputs = m₁.consumedOutputs ∧ m₂.createdOutputs = m₁.createdOutputs := by
  obtain ⟨mt, htraverse, rfl, -, -⟩ := whiteFlag_eq_ok c tangle s h
  -- the walk keeps the invariant from the empty metadata on
  have hc : mt.Consistent c tangle s :=
    traversePastCone_invariant c tangle s (·.Consistent c tangle s) (fun _ _ ht hstep => ht.step hstep)
      htraverse (WhiteFlagMetadata.consistent_new index timestamp previous)
  obtain ⟨hnodup, havailable, hconsumed, hcreated⟩ := hc.no_double_spend
  exact ⟨hnodup, havailable, hconsumed, hcreated,
    fun _ _ _ _ _ happly hexcluded => applyBlock_excluded c happly hexcluded⟩

/-! ### A run that spends a stored output -/

/-- The basic output of amount 1 locked to the key `1…1`, created by the block `3…3`. -/
def storedBasic : CreatedOutput := ⟨.replicate 32 3, 0, 0, .basic (.simple 1 (.ed25519 (.replicate 32 1)))⟩

/-- A storage at ledger index 0 whose one unspent output is `(3…3, 0)`. -/
def spendStorage : Storage where
  outputIdToCreatedOutput := collect [(.ofIndex (.replicate 32 3) 0, storedBasic)]
  outputIdToConsumedOutput := ∅
  outputIdUnspent := collect [(.ofIndex (.replicate 32 3) 0, ())]
  ledgerIndex := some 0
  milestoneIndexToOutputDiff := ∅
  milestoneIndexToReceipt := ∅
  spentToTreasuryOutput := ∅

/-- A transaction that spends `(3…3, 0)` with a signature of the key `1…1`
and creates one output of the same amount. -/
def spendTransaction : TransactionPayload where
  essence :=
    { networkId := 0
      inputs := [.utxo (.ofIndex (.replicate 32 3) 0)]
      inputsCommitment := InputsCommitment.new .truncating [storedBasic.inner]
      outputs := [.basic (.simple 1 (.ed25519 (.replicate 32 2)))]
      payload := none
      inputs_length := by decide
      outputs_length := by decide
      inputs_verified := by decide }
  unlocks := signatureUnlocks
  unlocks_length := rfl

/-- The block of the transaction, with the one parent `0…0`. -/
def spendBlock : Block :=
  ⟨2, ⟨[.replicate 32 0], by decide, List.pairwise_singleton _ _⟩, some (.transaction spendTransaction), 0⟩

/-- A tangle of one unreferenced block `9…9` carrying the transaction, whose
parent `0…0` is a solid entry point. -/
def spendTangle : TangleView where
  blockAndMetadata blockId := if blockId = .replicate 32 9 then some (spendBlock, false) else none
  isSolidEntryPoint blockId := blockId = .replicate 32 0

theorem white_flag_spends_stored_output :
    ∃ m, whiteFlag .truncating spendTangle spendStorage 4 [.replicate 32 9] (.new 1 0 none) =
        some (.ok m) ∧ m.includedTransactions spendTangle = [spendTransaction] ∧
      ∀ id, id ∈ m.consumedOutputs ↔ id ∈ spendTransaction.essence.consumedIds := by
  -- the metadata has no decidable equality: evaluate a test of it instead
  have hrun : (whiteFlag .truncating spendTangle spendStorage 4 [.replicate 32 9] (.new 1 0 none)).map
      (fun r => r.toOption.map fun m => decide (m.includedTransactions spendTangle = [spendTransaction])) =
        some (some true) := by
    decide +kernel
  obtain ⟨m, hm, hincluded⟩ := Flow.eq_some_ok_of_test hrun
  replace hincluded := of_decide_eq_true hincluded
  obtain ⟨-, -, hconsumed, -⟩ := white_flag_no_double_spend .truncating hm
  refine ⟨m, hm, hincluded, fun id => ?_⟩
  rw [hconsumed, hincluded, List.flatMap_singleton]

end Bee
