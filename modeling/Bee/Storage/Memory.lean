import Bee.Ledger.Types
import Bee.Lib.AssocMap

namespace Bee

open AssocMap

/-!
# bee-storage-memory — tables and batches

The in-memory storage backend: a `Table` is a hash map, a `VecTable` a hash
map from keys to vectors that hold each value once, a `SingletonTable` an
optional value.  A batch collects, for each table, the operations
`batch_insert` and `batch_delete` push, and `batch_commit` applies each
table's operations in the order they were pushed.

Only the tables the ledger's milestone application touches are modelled:
created outputs, consumed outputs, unspent output ids, the ledger index, the
output diffs, the receipts and the treasury outputs.
-/

/-- `BatchOp`. -/
inductive BatchOp (K V : Type)
  | insert (key : K) (value : V)
  | delete (key : K)

section Tables

variable {K V : Type} [DecidableEq K] [DecidableEq V]

/-- `Table::batch_commit`: an insert replaces the value, a delete removes the key. -/
def Table.batchCommit (t : Map K V) (ops : List (BatchOp K V)) : Map K V :=
  ops.foldl (fun t op =>
    match op with
    | .insert k v => t.insert k v
    | .delete k => t.erase k) t

/-- `VecTable::fetch`: the vector of a key, empty when the key is absent. -/
def VecTable.fetch (t : Map K (List V)) (k : K) : List V := (t.lookup k).getD []

/-- A `VecTable` insert: the value is pushed unless the key's vector holds it. -/
def VecTable.insert (t : Map K (List V)) (k : K) (v : V) : Map K (List V) :=
  if v ∈ VecTable.fetch t k then t else t.insert k (VecTable.fetch t k ++ [v])

/-- A `VecTable` delete: the first occurrence of the value is removed; the key
stays, with the vector that remains. -/
def VecTable.delete (t : Map K (List V)) (k : K) (v : V) : Map K (List V) :=
  match t.lookup k with
  | some vs => t.insert k (vs.erase v)
  | none => t

/-- `VecTable::batch_commit`. -/
def VecTable.batchCommit (t : Map K (List V)) (ops : List (BatchOp (K × V) Unit)) : Map K (List V) :=
  ops.foldl (fun t op =>
    match op with
    | .insert (k, v) _ => VecTable.insert t k v
    | .delete (k, v) => VecTable.delete t k v) t

/-- `SingletonTable::batch_commit`. -/
def SingletonTable.batchCommit (t : Option V) (ops : List (BatchOp Unit V)) : Option V :=
  ops.foldl (fun _ op =>
    match op with
    | .insert _ v => some v
    | .delete _ => none) t

/-! ### What a `Table` holds after a batch -/

omit [DecidableEq V] in
theorem Table.batchCommit_append (t : Map K V) (ops₁ ops₂ : List (BatchOp K V)) :
    Table.batchCommit t (ops₁ ++ ops₂) = Table.batchCommit (Table.batchCommit t ops₁) ops₂ :=
  List.foldl_append

omit [DecidableEq V] in
/-- A batch of inserts is the inserts in turn. -/
theorem Table.batchCommit_map_insert {α : Type} (t : Map K V) (l : List α) (key : α → K) (val : α → V) :
    Table.batchCommit t (l.map fun a => .insert (key a) (val a)) = l.foldl (fun t a => t.insert (key a) (val a)) t := by
  simp [Table.batchCommit, List.foldl_map]

omit [DecidableEq V] in
/-- A batch of deletes is the erasures in turn. -/
theorem Table.batchCommit_map_delete {α : Type} (t : Map K V) (l : List α) (key : α → K) :
    Table.batchCommit t (l.map fun a => (.delete (key a) : BatchOp K V)) = l.foldl (fun t a => t.erase (key a)) t := by
  simp [Table.batchCommit, List.foldl_map]

/-! ### What a `VecTable` holds after an operation -/

theorem VecTable.fetch_insert_self (t : Map K (List V)) (k : K) (v : V) :
    VecTable.fetch (VecTable.insert t k v) k =
      if v ∈ VecTable.fetch t k then VecTable.fetch t k else VecTable.fetch t k ++ [v] := by
  unfold VecTable.insert
  split <;> simp [VecTable.fetch]

theorem VecTable.fetch_insert_of_ne (t : Map K (List V)) {k k' : K} (v : V) (h : k' ≠ k) :
    VecTable.fetch (VecTable.insert t k v) k' = VecTable.fetch t k' := by
  unfold VecTable.insert
  split <;> simp [VecTable.fetch, AList.lookup_insert_ne h]

/-- A `VecTable` insert adds the one edge `(k, v)`. -/
theorem VecTable.mem_fetch_insert (t : Map K (List V)) (k k' : K) (v v' : V) :
    v' ∈ VecTable.fetch (VecTable.insert t k v) k' ↔ v' ∈ VecTable.fetch t k' ∨ (k' = k ∧ v' = v) := by
  by_cases hk : k' = k
  · subst hk
    rw [VecTable.fetch_insert_self]
    split
    · rename_i hv
      constructor
      · exact Or.inl
      · rintro (h | ⟨-, rfl⟩)
        · exact h
        · exact hv
    · simp
  · simp [VecTable.fetch_insert_of_ne t v hk, hk]

omit [DecidableEq V] in
/-- A key whose vector holds a value is a key of the table. -/
theorem VecTable.mem_of_mem_fetch {t : Map K (List V)} {k : K} {v : V}
    (h : v ∈ VecTable.fetch t k) : k ∈ t := by
  unfold VecTable.fetch at h
  cases hk : t.lookup k with
  | none => simp [hk] at h
  | some vs => exact AssocMap.mem_of_lookup_eq_some hk

omit [DecidableEq V] in
/-- No vector is longer than all of them together. -/
theorem VecTable.length_fetch_le (t : Map K (List V)) (k : K) :
    (VecTable.fetch t k).length ≤ sumEntries (fun _ vs => vs.length) t := by
  unfold VecTable.fetch
  cases hk : t.lookup k with
  | none => simp
  | some vs => exact le_sumEntries_of_lookup (fun _ vs => vs.length) hk

end Tables

/-- The tables of the storage that the ledger's milestone application touches. -/
structure Storage where
  outputIdToCreatedOutput : Map OutputId CreatedOutput
  outputIdToConsumedOutput : Map OutputId ConsumedOutput
  outputIdUnspent : Map OutputId Unit
  ledgerIndex : Option UInt32
  milestoneIndexToOutputDiff : Map UInt32 OutputDiff
  milestoneIndexToReceipt : Map UInt32 (List Receipt)
  spentToTreasuryOutput : Map Bool (List LedgerTreasuryOutput)

/-- A batch: the operations pushed on each table, in order. -/
structure StorageBatch where
  outputIdToCreatedOutput : List (BatchOp OutputId CreatedOutput) := []
  outputIdToConsumedOutput : List (BatchOp OutputId ConsumedOutput) := []
  outputIdUnspent : List (BatchOp OutputId Unit) := []
  ledgerIndex : List (BatchOp Unit UInt32) := []
  milestoneIndexToOutputDiff : List (BatchOp UInt32 OutputDiff) := []
  milestoneIndexToReceipt : List (BatchOp (UInt32 × Receipt) Unit) := []
  spentToTreasuryOutput : List (BatchOp (Bool × LedgerTreasuryOutput) Unit) := []

/-- `Storage::batch_commit`: every table applies its own operations in order. -/
def Storage.batchCommit (s : Storage) (b : StorageBatch) : Storage where
  outputIdToCreatedOutput := Table.batchCommit s.outputIdToCreatedOutput b.outputIdToCreatedOutput
  outputIdToConsumedOutput := Table.batchCommit s.outputIdToConsumedOutput b.outputIdToConsumedOutput
  outputIdUnspent := Table.batchCommit s.outputIdUnspent b.outputIdUnspent
  ledgerIndex := SingletonTable.batchCommit s.ledgerIndex b.ledgerIndex
  milestoneIndexToOutputDiff := Table.batchCommit s.milestoneIndexToOutputDiff b.milestoneIndexToOutputDiff
  milestoneIndexToReceipt := VecTable.batchCommit s.milestoneIndexToReceipt b.milestoneIndexToReceipt
  spentToTreasuryOutput := VecTable.batchCommit s.spentToTreasuryOutput b.spentToTreasuryOutput

end Bee
