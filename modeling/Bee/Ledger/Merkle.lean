import Bee.Ledger.WhiteFlag
import Bee.Lib.MerkleTree

namespace Bee

/-!
# bee-ledger — the Merkle hasher computes the tree hash of the block ids

`merkle_hasher.rs` hashes the referenced and the included blocks of a milestone
into the two Merkle roots that `white_flag` compares with the milestone's.

* `largestPowerOfTwoOfBits` — `largest_power_of_two` as the source computes
  it, `1 << (32 - n.leading_zeros() - 1)` on a `u32`: it is the model's
  `largestPowerOfTwo` on every non-zero word (`largestPowerOfTwoOfBits_eq`) and
  underflows at zero; `digestInner` only calls it on lengths minus one of lists
  of at least two ids, where it is the largest power of two below the length
  (`isSplit_largestPowerOfTwo`);
* `digestInner_mth` — by induction on the fuel, `digest_inner` of a list with
  enough fuel is its Merkle Tree Hash; the tree hash being unique,
  `merkleDigest` is exactly the MTH of its input.

`block_ids.len() as u32` is read as the length itself: a list of block ids
long enough for the cast to truncate does not fit in memory.
-/

/-- `largest_power_of_two(n)` as written in the source: `1 << (32 - n.leading_zeros() - 1)`,
`leading_zeros` being the `clz` of the word; `none` at zero, where `32 - 32 - 1`
underflows. -/
def largestPowerOfTwoOfBits (n : UInt32) : Option Nat :=
  let leadingZeros := n.toBitVec.clz.toNat
  if leadingZeros + 1 ≤ 32 then some (1 <<< (32 - leadingZeros - 1)) else none

/-- On a non-zero word the source's bit formula is the largest power of two not above it. -/
theorem largestPowerOfTwoOfBits_eq {n : UInt32} (hn : n ≠ 0) :
    largestPowerOfTwoOfBits n = some (largestPowerOfTwo n.toNat) := by
  have hx : n.toBitVec ≠ 0#32 := fun h => hn (UInt32.toBitVec_inj.mp h)
  have hlow := BitVec.two_pow_sub_clz_le_toNat_of_ne_zero (by norm_num) hx
  have hhigh := BitVec.toNat_lt_two_pow_sub_clz (x := n.toBitVec)
  rw [UInt32.toNat_toBitVec] at hlow hhigh
  have hpos : n.toNat ≠ 0 := fun h => hn (UInt32.toNat_inj.mp h)
  -- the highest set bit is one of the 32, at `31 - leading_zeros`
  have hclz : n.toBitVec.clz.toNat + 1 ≤ 32 := by
    by_contra h
    rw [show 32 - n.toBitVec.clz.toNat = 0 by omega, pow_zero] at hhigh
    omega
  have hlog : Nat.log2 n.toNat = 32 - n.toBitVec.clz.toNat - 1 := by
    refine (Nat.log2_eq_iff hpos).mpr ⟨?_, ?_⟩
    · rwa [show 32 - n.toBitVec.clz.toNat - 1 = 32 - 1 - n.toBitVec.clz.toNat by omega]
    · rwa [show 32 - n.toBitVec.clz.toNat - 1 + 1 = 32 - n.toBitVec.clz.toNat by omega]
  rw [largestPowerOfTwoOfBits, if_pos hclz, largestPowerOfTwo, hlog, Nat.one_shiftLeft]

/-- The split `digest_inner` takes for a list of at least two ids is the tree hash's. -/
theorem isSplit_largestPowerOfTwo {n : Nat} (hn : 2 ≤ n) :
    MerkleTree.IsSplit n (largestPowerOfTwo (n - 1)) :=
  MerkleTree.isSplit_two_pow_log2 hn

theorem largestPowerOfTwo_bounds {n : Nat} (hn : 2 ≤ n) :
    1 ≤ largestPowerOfTwo (n - 1) ∧ largestPowerOfTwo (n - 1) < n ∧
      n ≤ 2 * largestPowerOfTwo (n - 1) := by
  obtain ⟨-, hk, hn2⟩ := MerkleTree.isSplit_iff.mp (isSplit_largestPowerOfTwo hn)
  exact ⟨Nat.one_le_two_pow, hk, hn2⟩

/-- `digest_inner` with fuel for the list's depth is the list's Merkle Tree Hash: each
node splits into two shorter lists, so one unit of fuel a level suffices. -/
theorem digestInner_mth (digest : List UInt8 → Bytes 32) :
    ∀ (fuel : Nat) (blockIds : List BlockId), blockIds.length ≤ fuel + 1 →
      MerkleTree.MTH digest Bytes.toList Bytes.toList blockIds (digestInner digest fuel blockIds)
  | _, [], _ => by
    rw [digestInner]
    exact .empty
  | _, [blockId], _ => by
    rw [digestInner]
    exact .leaf blockId
  | 0, _ :: _ :: _, h => by simp at h
  | fuel + 1, a :: b :: rest, h => by
    have hn : 2 ≤ (a :: b :: rest).length := by simp
    obtain ⟨hpos, hk, -⟩ := largestPowerOfTwo_bounds hn
    simp only [digestInner]
    -- both halves are shorter than the list, so the remaining fuel covers them
    refine .node hn (isSplit_largestPowerOfTwo hn) (digestInner_mth digest fuel _ ?_)
      (digestInner_mth digest fuel _ ?_)
    · rw [List.length_take]
      omega
    · rw [List.length_drop]
      omega

/-- The Merkle root of `white_flag` is the tree hash of the block ids, leaves prefixed
with `LEAF_HASH_PREFIX` and inner nodes with `NODE_HASH_PREFIX`. -/
theorem merkleDigest_mth (c : Crypto) (blockIds : List BlockId) :
    MerkleTree.MTH c.blake2b256 Bytes.toList Bytes.toList blockIds (merkleDigest c blockIds) :=
  digestInner_mth c.blake2b256 blockIds.length blockIds (Nat.le_succ _)

theorem merkle_digest_refines_rfc6962 (c : Crypto) :
    (∀ (blockIds : List BlockId) (root : Bytes 32),
      MerkleTree.MTH c.blake2b256 Bytes.toList Bytes.toList blockIds root ↔
        root = merkleDigest c blockIds) ∧
    (∀ (fuel : Nat) (blockIds : List BlockId), blockIds.length ≤ fuel + 1 →
      digestInner c.blake2b256 fuel blockIds = merkleDigest c blockIds) ∧
    (∀ n : Nat, 2 ≤ n → 1 ≤ largestPowerOfTwo (n - 1) ∧ largestPowerOfTwo (n - 1) < n ∧
      n ≤ 2 * largestPowerOfTwo (n - 1)) ∧
    (∀ n : UInt32, n ≠ 0 → largestPowerOfTwoOfBits n = some (largestPowerOfTwo n.toNat)) := by
  refine ⟨fun blockIds root => ⟨fun h => h.functional (merkleDigest_mth c blockIds), ?_⟩,
    fun fuel blockIds h => (digestInner_mth c.blake2b256 fuel blockIds h).functional
      (merkleDigest_mth c blockIds),
    fun _ hn => largestPowerOfTwo_bounds hn, fun _ hn => largestPowerOfTwoOfBits_eq hn⟩
  rintro rfl
  exact merkleDigest_mth c blockIds

end Bee
