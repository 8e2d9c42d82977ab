import Mathlib

/-!
# Checked arithmetic on machine words

The `checked_add`/`checked_sub` family of fixed-width unsigned integers: the
exact result when it fits the word, `none` on overflow or underflow.  The
operations are stated for `UInt64` and for `BitVec w` (the model of the wide
`U256` words); their spec lemmas reduce every use to arithmetic on `toNat`,
where `omega` finishes.

A plain `u32` addition or subtraction of a debug build, which panics on
overflow, is `UInt32.checkedAdd` or `checkedSub`, with `none` the panic.
-/

namespace UInt8

/-- `u8::checked_add`. -/
def checkedAdd (a b : UInt8) : Option UInt8 :=
  if a.toNat + b.toNat < 2 ^ 8 then some (a + b) else none

end UInt8

namespace UInt32

/-- `u32::checked_add`, and `+` of a debug build, where `none` is the panic. -/
def checkedAdd (a b : UInt32) : Option UInt32 :=
  if a.toNat + b.toNat < 2 ^ 32 then some (a + b) else none

theorem checkedAdd_eq_some_iff {a b c : UInt32} :
    a.checkedAdd b = some c ↔ a.toNat + b.toNat < 2 ^ 32 ∧ c.toNat = a.toNat + b.toNat := by
  unfold checkedAdd
  split
  · rename_i h
    constructor
    · rintro ⟨⟩
      simp only [UInt32.toNat_add]
      exact ⟨h, Nat.mod_eq_of_lt h⟩
    · rintro ⟨-, hc⟩
      congr 1
      apply UInt32.toNat_inj.mp
      rw [hc, UInt32.toNat_add, Nat.mod_eq_of_lt h]
  · constructor
    · rintro ⟨⟩
    · rintro ⟨h', -⟩
      omega

theorem checkedAdd_eq_none_iff {a b : UInt32} : a.checkedAdd b = none ↔ 2 ^ 32 ≤ a.toNat + b.toNat := by
  unfold checkedAdd
  split <;> simp <;> omega

/-- `-` of `u32` in a debug build, where `none` is the panic on underflow. -/
def checkedSub (a b : UInt32) : Option UInt32 :=
  if b.toNat ≤ a.toNat then some (a - b) else none

theorem checkedSub_eq_some_iff {a b c : UInt32} :
    a.checkedSub b = some c ↔ b.toNat ≤ a.toNat ∧ c.toNat = a.toNat - b.toNat := by
  unfold checkedSub
  split
  · rename_i h
    have hle : b ≤ a := UInt32.le_iff_toNat_le.mpr h
    constructor
    · rintro ⟨⟩
      exact ⟨h, UInt32.toNat_sub_of_le a b hle⟩
    · rintro ⟨-, hc⟩
      congr 1
      apply UInt32.toNat_inj.mp
      rw [hc, UInt32.toNat_sub_of_le a b hle]
  · constructor
    · rintro ⟨⟩
    · rintro ⟨h', -⟩
      omega

theorem checkedSub_eq_none_iff {a b : UInt32} : a.checkedSub b = none ↔ a.toNat < b.toNat := by
  unfold checkedSub
  split <;> simp <;> omega

/-- `u32::saturating_sub`. -/
def saturatingSub (a b : UInt32) : UInt32 := if b ≤ a then a - b else 0

@[simp] theorem toNat_saturatingSub (a b : UInt32) : (a.saturatingSub b).toNat = a.toNat - b.toNat := by
  unfold saturatingSub
  split
  · rename_i h
    exact UInt32.toNat_sub_of_le _ _ h
  · rename_i h
    rw [UInt32.le_iff_toNat_le] at h
    simp only [UInt32.toNat_zero]
    omega

end UInt32

namespace UInt64

/-- `u64::checked_add`. -/
def checkedAdd (a b : UInt64) : Option UInt64 :=
  if a.toNat + b.toNat < 2 ^ 64 then some (a + b) else none

/-- `u64::checked_sub`. -/
def checkedSub (a b : UInt64) : Option UInt64 :=
  if b.toNat ≤ a.toNat then some (a - b) else none

theorem checkedAdd_eq_some_iff {a b c : UInt64} :
    a.checkedAdd b = some c ↔ a.toNat + b.toNat < 2 ^ 64 ∧ c.toNat = a.toNat + b.toNat := by
  unfold checkedAdd
  split
  · rename_i h
    constructor
    · rintro ⟨⟩
      simp only [UInt64.toNat_add]
      exact ⟨h, Nat.mod_eq_of_lt h⟩
    · rintro ⟨-, hc⟩
      congr 1
      apply UInt64.toNat_inj.mp
      rw [hc, UInt64.toNat_add, Nat.mod_eq_of_lt h]
  · constructor
    · rintro ⟨⟩
    · rintro ⟨h', -⟩
      omega

theorem checkedAdd_eq_none_iff {a b : UInt64} :
    a.checkedAdd b = none ↔ 2 ^ 64 ≤ a.toNat + b.toNat := by
  unfold checkedAdd
  split <;> simp_all

theorem checkedSub_eq_some_iff {a b c : UInt64} :
    a.checkedSub b = some c ↔ b.toNat ≤ a.toNat ∧ c.toNat = a.toNat - b.toNat := by
  unfold checkedSub
  split
  · rename_i h
    have hle : b ≤ a := UInt64.le_iff_toNat_le.mpr h
    constructor
    · rintro ⟨⟩
      exact ⟨h, UInt64.toNat_sub_of_le a b hle⟩
    · rintro ⟨-, hc⟩
      congr 1
      apply UInt64.toNat_inj.mp
      rw [hc, UInt64.toNat_sub_of_le a b hle]
  · constructor
    · rintro ⟨⟩
    · rintro ⟨h', -⟩
      omega

end UInt64

namespace BitVec

variable {w : Nat}

/-- `checked_add` on a `w`-bit unsigned word. -/
def checkedAdd (a b : BitVec w) : Option (BitVec w) :=
  if a.toNat + b.toNat < 2 ^ w then some (a + b) else none

theorem checkedAdd_eq_some_iff {a b c : BitVec w} :
    a.checkedAdd b = some c ↔ a.toNat + b.toNat < 2 ^ w ∧ c.toNat = a.toNat + b.toNat := by
  unfold checkedAdd
  split
  · rename_i h
    constructor
    · rintro ⟨⟩
      exact ⟨h, by rw [BitVec.toNat_add, Nat.mod_eq_of_lt h]⟩
    · rintro ⟨-, hc⟩
      congr 1
      apply BitVec.eq_of_toNat_eq
      rw [hc, BitVec.toNat_add, Nat.mod_eq_of_lt h]
  · constructor
    · rintro ⟨⟩
    · rintro ⟨h', -⟩
      omega

theorem checkedAdd_eq_none_iff {a b : BitVec w} :
    a.checkedAdd b = none ↔ 2 ^ w ≤ a.toNat + b.toNat := by
  unfold checkedAdd
  split <;> simp_all

end BitVec

/-! ### Little-endian bytes -/

namespace Word

/-- The `n` little-endian bytes of `v`, that is of its low `8 * n` bits. -/
def leBytes : Nat → Nat → List UInt8
  | 0, _ => []
  | n + 1, v => (v % 256).toUInt8 :: leBytes n (v / 256)

/-- The number whose little-endian bytes are `bs`. -/
def leNat : List UInt8 → Nat
  | [] => 0
  | b :: bs => b.toNat + 256 * leNat bs

@[simp] theorem length_leBytes (n v : Nat) : (leBytes n v).length = n := by
  induction n generalizing v with
  | zero => rfl
  | succ n ih => simp [leBytes, ih]

theorem two_pow_mul_succ (n : Nat) : 2 ^ (8 * (n + 1)) = 2 ^ (8 * n) * 256 := by
  rw [Nat.mul_succ, Nat.pow_add]

theorem leNat_leBytes (n v : Nat) (h : v < 2 ^ (8 * n)) : leNat (leBytes n v) = v := by
  induction n generalizing v with
  | zero => simp_all [leBytes, leNat]
  | succ n ih =>
    -- the head byte carries `v % 256`, the tail the quotient, which fits `n` bytes
    have hq : v / 256 < 2 ^ (8 * n) := by
      rw [Nat.div_lt_iff_lt_mul (by decide), ← two_pow_mul_succ]
      exact h
    have hb : ((v % 256).toUInt8).toNat = v % 256 := by
      rw [Nat.toUInt8, UInt8.toNat_ofNat']
      exact Nat.mod_mod_of_dvd _ (by decide)
    simp only [leBytes, leNat, hb, ih _ hq]
    omega

theorem leNat_lt (bs : List UInt8) : leNat bs < 2 ^ (8 * bs.length) := by
  induction bs with
  | nil => simp [leNat]
  | cons b bs ih =>
    have hb : b.toNat < 256 := b.toNat_lt
    rw [List.length_cons, two_pow_mul_succ, leNat]
    omega

theorem leBytes_leNat (bs : List UInt8) : leBytes bs.length (leNat bs) = bs := by
  induction bs with
  | nil => rfl
  | cons b bs ih =>
    have hb : b.toNat < 256 := b.toNat_lt
    have hmod : (b.toNat + 256 * leNat bs) % 256 = b.toNat := by omega
    have hdiv : (b.toNat + 256 * leNat bs) / 256 = leNat bs := by omega
    simp only [List.length_cons, leBytes, leNat, hmod, hdiv, ih]
    simp

end Word
