import Bee.Lib.Radix

namespace Bee.Ternary

/-!
# bee-ternary — trits, packed trit bytes and trytes

The digits of the ternary crate and the arithmetic every packed encoding shares.

* `Btrit`, `Utrit` — balanced (`-1, 0, 1`) and unbalanced (`0, 1, 2`) trits, with
  `shift` between them;
* `Packing` — the parameters of a `TnB1` encoding, which stores `n` balanced trits
  in one byte `b` as the base-3 digits of `b + BALANCE_DIFF`; `T2B1` … `T5B1` are
  its four instances, and `Packing.extract`, `Packing.insert`, `Packing.isValid`
  are the functions of that name in each `tNb1.rs`;
* `Tryte` — a value in `-13..=13`, the byte of three trits (`Tryte::as_trits`
  reads it as a `T3B1` slice).

Every byte a buffer stores is valid (`-BALANCE_DIFF ≤ b ≤ BALANCE_DIFF`), where
`b + BALANCE_DIFF` is a natural number below `3 ^ n`; there `extract` reads a
digit (`extract_eq_digit`) and `insert` replaces one (`insert_eq_setDigit`), and
the digit lemmas of `Radix` give `extract_insert_self` and
`extract_insert_of_ne`.  On such bytes the source's truncating `/` and `%` are
Lean's, and no intermediate value leaves `i8` (or `i16` for `T5B1`).
-/

/-! ### Trits -/

/-- `Btrit`. -/
inductive Btrit
  | negOne
  | zero
  | plusOne
  deriving DecidableEq, Repr

/-- `Utrit`. -/
inductive Utrit
  | zero
  | one
  | two
  deriving DecidableEq, Repr

namespace Btrit

/-- `i8::from(btrit)`. -/
def toInt : Btrit → Int
  | negOne => -1
  | zero => 0
  | plusOne => 1

/-- `Btrit::try_from(i8)`. -/
def tryFrom (x : Int) : Option Btrit :=
  if x = -1 then some negOne else if x = 0 then some zero else if x = 1 then some plusOne else none

/-- `ShiftTernary::shift`: `-1, 0, 1` to `0, 1, 2`. -/
def shift : Btrit → Utrit
  | negOne => .zero
  | zero => .one
  | plusOne => .two

theorem toInt_mem (t : Btrit) : t.toInt = -1 ∨ t.toInt = 0 ∨ t.toInt = 1 := by
  cases t <;> simp [toInt]

theorem tryFrom_toInt (t : Btrit) : tryFrom t.toInt = some t := by
  cases t <;> rfl

theorem toInt_injective : Function.Injective toInt := by
  intro a b h
  cases a <;> cases b <;> first | rfl | (simp [toInt] at h)

theorem exists_tryFrom_eq {x : Int} (h₁ : -1 ≤ x) (h₂ : x ≤ 1) :
    ∃ t, tryFrom x = some t ∧ t.toInt = x := by
  rcases (show x = -1 ∨ x = 0 ∨ x = 1 by omega) with rfl | rfl | rfl
  exacts [⟨negOne, rfl, rfl⟩, ⟨zero, rfl, rfl⟩, ⟨plusOne, rfl, rfl⟩]

/-- Balanced trits are the residues modulo three. -/
theorem residues_range_toInt : Radix.Residues 3 (Set.range toInt) := by
  rintro _ _ ⟨a, rfl⟩ ⟨b, rfl⟩ h
  unfold Int.ModEq at h
  rcases toInt_mem a with ha | ha | ha <;> rcases toInt_mem b with hb | hb | hb <;> omega

end Btrit

namespace Utrit

/-- `Utrit::into_u8`. -/
def toInt : Utrit → Int
  | zero => 0
  | one => 1
  | two => 2

/-- `Utrit::try_from(u8)`. -/
def tryFrom (x : Int) : Option Utrit :=
  if x = 0 then some zero else if x = 1 then some one else if x = 2 then some two else none

/-- `Utrit::from_u8` of a digit: the digits read by `extract` are below three, where it
does not panic. -/
def ofDigit : Nat → Utrit
  | 0 => zero
  | 1 => one
  | _ => two

/-- `ShiftTernary::shift`: `0, 1, 2` to `-1, 0, 1`. -/
def shift : Utrit → Btrit
  | zero => .negOne
  | one => .zero
  | two => .plusOne

theorem toInt_mem (t : Utrit) : t.toInt = 0 ∨ t.toInt = 1 ∨ t.toInt = 2 := by
  cases t <;> simp [toInt]

theorem tryFrom_toInt (t : Utrit) : tryFrom t.toInt = some t := by
  cases t <;> rfl

theorem toInt_injective : Function.Injective toInt := by
  intro a b h
  cases a <;> cases b <;> first | rfl | (simp [toInt] at h)

theorem exists_tryFrom_eq {x : Int} (h₁ : 0 ≤ x) (h₂ : x ≤ 2) :
    ∃ t, tryFrom x = some t ∧ t.toInt = x := by
  rcases (show x = 0 ∨ x = 1 ∨ x = 2 by omega) with rfl | rfl | rfl
  exacts [⟨zero, rfl, rfl⟩, ⟨one, rfl, rfl⟩, ⟨two, rfl, rfl⟩]

/-- Unbalanced trits are the residues modulo three. -/
theorem residues_range_toInt : Radix.Residues 3 (Set.range toInt) := by
  rintro _ _ ⟨a, rfl⟩ ⟨b, rfl⟩ h
  unfold Int.ModEq at h
  rcases toInt_mem a with ha | ha | ha <;> rcases toInt_mem b with hb | hb | hb <;> omega

@[simp] theorem shift_shift (t : Utrit) : t.shift.shift = t := by
  cases t <;> rfl

theorem ofDigit_toNat (t : Utrit) : ofDigit t.toInt.toNat = t := by
  cases t <;> rfl

end Utrit

@[simp] theorem Btrit.shift_shift (t : Btrit) : t.shift.shift = t := by
  cases t <;> rfl

/-! ### Packed encodings -/

/-- A `TnB1` encoding: `tritsPerByte` balanced trits in one byte, the byte being the
base-3 number of the shifted trits minus `balanceDiff`; a sub-slice keeps its trit
offset in the low `offsetBits` bits of its length (`make`, `len_offset`). -/
structure Packing where
  tritsPerByte : Nat
  balanceDiff : Int
  offsetBits : Nat
  balanceDiff_eq : 2 * balanceDiff + 1 = 3 ^ tritsPerByte
  tritsPerByte_pos : 0 < tritsPerByte
  tritsPerByte_le : tritsPerByte ≤ 2 ^ offsetBits

/-- `T2B1`: two trits a byte, `BALANCE_DIFF = 4`, the offset in two bits. -/
def T2B1 : Packing := ⟨2, 4, 2, by decide, by decide, by decide⟩

/-- `T3B1`: three trits a byte, `BALANCE_DIFF = 13`, the offset in two bits. -/
def T3B1 : Packing := ⟨3, 13, 2, by decide, by decide, by decide⟩

/-- `T4B1`: four trits a byte, `BALANCE_DIFF = 40`, the offset in two bits. -/
def T4B1 : Packing := ⟨4, 40, 2, by decide, by decide, by decide⟩

/-- `T5B1`: five trits a byte, `BALANCE_DIFF = 121`, the offset in three bits. -/
def T5B1 : Packing := ⟨5, 121, 3, by decide, by decide, by decide⟩

namespace Packing

variable (E : Packing)

/-- `extract(x, elem)`: the trit at position `elem` of a byte. -/
def extract (x : Int) (elem : Nat) : Btrit :=
  (Utrit.ofDigit ((x + E.balanceDiff) / 3 ^ elem % 3).toNat).shift

/-- `insert(x, elem, trit)`: the byte with the trit at position `elem` replaced. -/
def insert (x : Int) (elem : Nat) (trit : Btrit) : Int :=
  let ux := x + E.balanceDiff
  let ux := ux + (trit.shift.toInt - ux / 3 ^ elem % 3) * 3 ^ elem
  ux - E.balanceDiff

/-- `is_valid`: `-BALANCE_DIFF ≤ b ≤ BALANCE_DIFF`. -/
def isValid (b : Int) : Bool := decide (-E.balanceDiff ≤ b ∧ b ≤ E.balanceDiff)

variable {E}

/-- A valid byte is `u - BALANCE_DIFF` for a natural `u` below `3 ^ n`. -/
theorem isValid_iff {x : Int} :
    E.isValid x = true ↔ 0 ≤ x + E.balanceDiff ∧ x + E.balanceDiff < 3 ^ E.tritsPerByte := by
  have h := E.balanceDiff_eq
  rw [isValid, decide_eq_true_iff]
  omega

theorem isValid_zero : E.isValid 0 = true := by
  have h := E.balanceDiff_eq
  have : (1 : Int) ≤ 3 ^ E.tritsPerByte := one_le_pow₀ (by norm_num)
  rw [isValid, decide_eq_true_iff]
  omega

/-- The natural number below `3 ^ n` a valid byte stands for. -/
theorem exists_nat_of_isValid {x : Int} (hx : E.isValid x = true) :
    ∃ u : Nat, x + E.balanceDiff = u ∧ u < 3 ^ E.tritsPerByte := by
  have hu := isValid_iff.mp hx
  refine ⟨(x + E.balanceDiff).toNat, (Int.toNat_of_nonneg hu.1).symm, ?_⟩
  have : ((x + E.balanceDiff).toNat : Int) < ((3 ^ E.tritsPerByte : Nat) : Int) := by
    push_cast
    omega
  exact_mod_cast this

theorem extract_eq_digit {x : Int} (hx : E.isValid x = true) (e : Nat) :
    E.extract x e = (Utrit.ofDigit (Radix.digit 3 (x + E.balanceDiff).toNat e)).shift := by
  obtain ⟨u, hu, -⟩ := exists_nat_of_isValid hx
  rw [extract, Radix.digit, hu, Int.toNat_natCast,
    show (u : Int) / 3 ^ e % 3 = ((u / 3 ^ e % 3 : Nat) : Int) by norm_cast, Int.toNat_natCast]

theorem insert_eq_setDigit {x : Int} (hx : E.isValid x = true) (e : Nat) (t : Btrit) :
    E.insert x e t = (Radix.setDigit 3 (x + E.balanceDiff).toNat e t.shift.toInt.toNat : Int) -
      E.balanceDiff := by
  obtain ⟨u, hu, -⟩ := exists_nat_of_isValid hx
  obtain ⟨d, hd⟩ : ∃ d : Nat, t.shift.toInt = d := by
    rcases t.shift.toInt_mem with h | h | h
    exacts [⟨0, h⟩, ⟨1, h⟩, ⟨2, h⟩]
  have hle := Radix.digit_mul_pow_le 3 u e
  rw [insert, hu, hd, Int.toNat_natCast, Int.toNat_natCast, Radix.setDigit, Nat.cast_add, Nat.cast_sub hle,
    Radix.digit]
  push_cast
  ring

/-- `insert` keeps a byte valid. -/
theorem isValid_insert {x : Int} (hx : E.isValid x = true) {e : Nat} (he : e < E.tritsPerByte)
    (t : Btrit) : E.isValid (E.insert x e t) = true := by
  obtain ⟨u, hu, hlt⟩ := exists_nat_of_isValid hx
  have hd : t.shift.toInt.toNat < 3 := by rcases t.shift.toInt_mem with h | h | h <;> omega
  have hset := Radix.setDigit_lt (by norm_num) hlt he hd
  rw [isValid_iff, insert_eq_setDigit hx, sub_add_cancel, hu, Int.toNat_natCast]
  exact ⟨by positivity, by exact_mod_cast hset⟩

/-- The trit `insert` writes reads back. -/
theorem extract_insert_self {x : Int} (hx : E.isValid x = true) {e : Nat} (he : e < E.tritsPerByte)
    (t : Btrit) : E.extract (E.insert x e t) e = t := by
  have hd : t.shift.toInt.toNat < 3 := by rcases t.shift.toInt_mem with h | h | h <;> omega
  rw [extract_eq_digit (isValid_insert hx he t), insert_eq_setDigit hx, sub_add_cancel,
    Int.toNat_natCast, Radix.digit_setDigit_self (by norm_num) _ _ hd, Utrit.ofDigit_toNat,
    Btrit.shift_shift]

/-- `insert` at one position leaves the trits at the others. -/
theorem extract_insert_of_ne {x : Int} (hx : E.isValid x = true) {e e' : Nat}
    (he : e < E.tritsPerByte) (h : e ≠ e') (t : Btrit) :
    E.extract (E.insert x e t) e' = E.extract x e' := by
  have hd : t.shift.toInt.toNat < 3 := by rcases t.shift.toInt_mem with h | h | h <;> omega
  rw [extract_eq_digit (isValid_insert hx he t), insert_eq_setDigit hx, sub_add_cancel,
    Int.toNat_natCast, Radix.digit_setDigit_of_ne (by norm_num) _ hd h, extract_eq_digit hx]

end Packing

/-! ### Trytes -/

/-- `Tryte`: the `i8` value of three balanced trits, in `-13..=13`. -/
structure Tryte where
  val : Int
  min_le : -13 ≤ val
  le_max : val ≤ 13
  deriving DecidableEq

namespace Tryte

/-- `Tryte::try_from(i8)`. -/
def tryFrom (x : Int) : Option Tryte := if h : -13 ≤ x ∧ x ≤ 13 then some ⟨x, h.1, h.2⟩ else none

/-- `Tryte::from_trits`: `t0 + 3 t1 + 9 t2`, always a tryte, so its `unwrap` never panics. -/
def fromTrits (t0 t1 t2 : Btrit) : Tryte :=
  ⟨t0.toInt + t1.toInt * 3 + t2.toInt * 9,
    by rcases t0.toInt_mem with h0 | h0 | h0 <;> rcases t1.toInt_mem with h1 | h1 | h1 <;>
      rcases t2.toInt_mem with h2 | h2 | h2 <;> omega,
    by rcases t0.toInt_mem with h0 | h0 | h0 <;> rcases t1.toInt_mem with h1 | h1 | h1 <;>
      rcases t2.toInt_mem with h2 | h2 | h2 <;> omega⟩

/-- `Tryte::as_trits`: the tryte read as a `T3B1` slice of three trits. -/
def asTrits (t : Tryte) : List Btrit := (List.range 3).map (T3B1.extract t.val)

theorem ext' {a b : Tryte} (h : a.val = b.val) : a = b := by
  cases a
  cases b
  cases h
  rfl

theorem asTrits_fromTrits (t0 t1 t2 : Btrit) : (fromTrits t0 t1 t2).asTrits = [t0, t1, t2] := by
  cases t0 <;> cases t1 <;> cases t2 <;> decide

/-- Every tryte is `from_trits` of the trits `as_trits` reads. -/
theorem exists_asTrits (t : Tryte) : ∃ t0 t1 t2, t.asTrits = [t0, t1, t2] ∧ fromTrits t0 t1 t2 = t := by
  obtain ⟨v, hlo, hhi⟩ := t
  interval_cases v <;> exact ⟨_, _, _, rfl, ext' rfl⟩

theorem length_asTrits (t : Tryte) : t.asTrits.length = 3 := by
  simp [asTrits]

end Tryte

end Bee.Ternary
