import Mathlib

/-!
# Spend logs

A spend log is a sequence of transactions over coins named by ids: each
transaction spends a list of ids and creates a list of ids.  A log is valid
from a set of initially available coins when each transaction spends
distinct coins, none spent before in the log, each either created earlier in
the log or initially available.  This is what "no double spend" means for a
ledger that applies transactions one after another: `Valid.spent_nodup` says
no coin is spent twice, `Valid.available` that every spent coin existed.

A valid log grows at its end (`Valid.snoc`), as a ledger applies transactions.
-/

namespace SpendLog

variable {α : Type}

/-- The ids a log spends, in order. -/
def spent (log : List (List α × List α)) : List α := log.flatMap Prod.fst

/-- The ids a log creates, in order. -/
def created (log : List (List α × List α)) : List α := log.flatMap Prod.snd

@[simp] theorem spent_nil : spent ([] : List (List α × List α)) = [] := rfl

@[simp] theorem created_nil : created ([] : List (List α × List α)) = [] := rfl

@[simp] theorem spent_append_singleton (log : List (List α × List α)) (tx : List α × List α) :
    spent (log ++ [tx]) = spent log ++ tx.1 := by
  simp [spent]

@[simp] theorem created_append_singleton (log : List (List α × List α)) (tx : List α × List α) :
    created (log ++ [tx]) = created log ++ tx.2 := by
  simp [created]

/-- A transaction spending `ins` may follow `log`: its inputs are distinct, not
spent by `log`, and created by `log` or initially available. -/
def Admits (avail : α → Prop) (log : List (List α × List α)) (ins : List α) : Prop :=
  ins.Nodup ∧ ∀ x ∈ ins, x ∉ spent log ∧ (x ∈ created log ∨ avail x)

/-- Every transaction of the log is admitted by the part of the log before it. -/
inductive Valid (avail : α → Prop) : List (List α × List α) → Prop
  | nil : Valid avail []
  | snoc {log : List (List α × List α)} {tx : List α × List α} :
      Valid avail log → Admits avail log tx.1 → Valid avail (log ++ [tx])

variable {avail : α → Prop}

/-- No id is spent twice by a valid log, within one transaction or across two. -/
theorem Valid.spent_nodup {log : List (List α × List α)} (h : Valid avail log) : (spent log).Nodup := by
  induction h with
  | nil => exact List.nodup_nil
  | snoc _ hadm ih =>
    rw [spent_append_singleton, List.nodup_append]
    exact ⟨ih, hadm.1, fun x hx y hy hxy => (hadm.2 y hy).1 (hxy ▸ hx)⟩

/-- Every id the `k`-th transaction of a valid log spends was available
initially or created by a transaction before it. -/
theorem Valid.available {log : List (List α × List α)} (h : Valid avail log) :
    ∀ k (hk : k < log.length), ∀ x ∈ log[k].1, avail x ∨ x ∈ created (log.take k) := by
  induction h with
  | nil => intro k hk; simp at hk
  | @snoc log tx _ hadm ih =>
    intro k hk x hx
    rw [List.length_append, List.length_singleton] at hk
    rcases Nat.lt_succ_iff_lt_or_eq.mp hk with hlt | rfl
    · -- an earlier transaction: the log before it is unchanged
      rw [List.getElem_append_left hlt] at hx
      rw [List.take_append_of_le_length (Nat.le_of_lt hlt)]
      exact ih k hlt x hx
    · -- the new transaction: admitted by the whole log before it
      simp only [List.getElem_append_right (Nat.le_refl _), Nat.sub_self,
        List.getElem_singleton] at hx
      rw [List.take_left' rfl]
      exact ((hadm.2 x hx).2).symm

end SpendLog
