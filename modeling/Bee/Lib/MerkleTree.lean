import Mathlib

/-!
# A Merkle tree hash split at powers of two

For a hash `H` of byte strings, the tree hash of a list of `n` leaves is `H()`
for no leaf, `H(0x00 ‖ d)` for one leaf `d`, and otherwise
`H(0x01 ‖ MTH(D[0:k]) ‖ MTH(D[k:n]))` where `k` is the largest power of two
smaller than `n`: the left subtree is always a complete binary tree, and the
two prefixes keep a leaf from being read as an inner node.

* `IsSplit n k` — `k` is the largest power of two below `n`; it is unique
  (`IsSplit.unique`), it is the `k` with `k < n ≤ 2k` (`isSplit_iff`), and it
  is `2 ^ log₂ (n - 1)` (`isSplit_two_pow_log2`);
* `MTH H leafBytes hashBytes ds h` — `h` is the Merkle Tree Hash of `ds`, the
  leaves and the hashes written as bytes by `leafBytes` and `hashBytes`; as a
  relation it reads the three cases off directly, and it is functional
  (`MTH.functional`), so that an implementation computes the MTH exactly when
  its result is related to the input.
-/

namespace MerkleTree

/-! ### The split point -/

/-- `k` is the largest power of two strictly below `n`. -/
def IsSplit (n k : Nat) : Prop :=
  (∃ m, k = 2 ^ m) ∧ k < n ∧ ∀ m, 2 ^ m < n → 2 ^ m ≤ k

theorem IsSplit.unique {n k k' : Nat} (h : IsSplit n k) (h' : IsSplit n k') : k = k' := by
  obtain ⟨⟨m, rfl⟩, hk, hmax⟩ := h
  obtain ⟨⟨m', rfl⟩, hk', hmax'⟩ := h'
  exact le_antisymm (hmax' m hk) (hmax m' hk')

/-- The split as a bound: a power of two with `k < n ≤ 2k`. -/
theorem isSplit_iff {n k : Nat} : IsSplit n k ↔ (∃ m, k = 2 ^ m) ∧ k < n ∧ n ≤ 2 * k := by
  constructor
  · rintro ⟨⟨m, rfl⟩, hk, hmax⟩
    refine ⟨⟨m, rfl⟩, hk, ?_⟩
    -- the next power of two is not below `n`, or it would be at most `2 ^ m`
    by_contra hlt
    have h := hmax (m + 1) (by rw [pow_succ]; omega)
    rw [pow_succ] at h
    have : 0 < 2 ^ m := Nat.two_pow_pos m
    omega
  · rintro ⟨⟨m, rfl⟩, hk, hn⟩
    refine ⟨⟨m, rfl⟩, hk, fun j hj => Nat.pow_le_pow_right (by norm_num) ?_⟩
    -- `2 ^ j < n ≤ 2 ^ (m + 1)` puts `j` at most `m`
    by_contra hjm
    have : 2 ^ (m + 1) ≤ 2 ^ j := Nat.pow_le_pow_right (by norm_num) (by omega)
    rw [pow_succ] at this
    omega

/-- The split of `n ≥ 2` is the largest power of two not above `n - 1`. -/
theorem isSplit_two_pow_log2 {n : Nat} (hn : 2 ≤ n) : IsSplit n (2 ^ Nat.log2 (n - 1)) := by
  have hle := Nat.log2_self_le (show n - 1 ≠ 0 by omega)
  have hlt := Nat.lt_log2_self (n := n - 1)
  rw [pow_succ] at hlt
  exact isSplit_iff.mpr ⟨⟨_, rfl⟩, by omega, by omega⟩

/-! ### The tree hash -/

section Hash

variable {α δ : Type} (H : List UInt8 → δ) (leafBytes : α → List UInt8) (hashBytes : δ → List UInt8)

/-- `MTH H leafBytes hashBytes ds h`: `h` is the Merkle Tree Hash of the leaves `ds`. -/
inductive MTH : List α → δ → Prop
  | empty : MTH [] (H [])
  | leaf (d : α) : MTH [d] (H (0 :: leafBytes d))
  | node {ds : List α} {k : Nat} {left right : δ} : 2 ≤ ds.length → IsSplit ds.length k →
      MTH (ds.take k) left → MTH (ds.drop k) right →
      MTH ds (H (1 :: (hashBytes left ++ hashBytes right)))

variable {H leafBytes hashBytes}

/-- A list has one Merkle Tree Hash. -/
theorem MTH.functional {ds : List α} {h h' : δ} (hmth : MTH H leafBytes hashBytes ds h)
    (hmth' : MTH H leafBytes hashBytes ds h') : h = h' := by
  induction hmth generalizing h' with
  | empty => cases hmth' with
    | empty => rfl
    | node hn => simp at hn
  | leaf d => cases hmth' with
    | leaf => rfl
    | node hn => simp at hn
  | node hn hk _ _ ihl ihr =>
    cases hmth' with
    | empty => simp at hn
    | leaf => simp at hn
    | node _ hk' hl' hr' =>
      -- both trees split at the one largest power of two below the length
      obtain rfl := hk.unique hk'
      rw [ihl hl', ihr hr']

end Hash

end MerkleTree
