import Mathlib

namespace Bee.Ternary

/-!
# bee-ternary — the T5B1 encoding

T5B1 packs five balanced trits into one `i8`: the byte `b` stands for the
digits of `b + 121` in base 3, each shifted down by one.  A trit buffer is a
byte list and a trit count; `push` starts a new byte (all other digits zero)
every fifth trit.  `fromRaw` is `Trits::<T5B1>::try_from_raw(raw, n).to_buf()`:
it checks every byte and re-collects the first `n` trits, so the digits of the
last byte beyond `n` do not survive.
-/

/-- `BALANCE_DIFF`: the offset between the balanced and unbalanced readings. -/
def BALANCE_DIFF : Int := 121

/-- `TRITS_PER_BYTE`. -/
def TRITS_PER_BYTE : Nat := 5

/-- A byte read `as i8`. -/
def toI8 (b : UInt8) : Int := if b.toNat < 128 then b.toNat else b.toNat - 256

/-- An `i8` written back as a byte. -/
def ofI8 (x : Int) : UInt8 := (x % 256).toNat.toUInt8

/-- `T5B1::is_valid`. -/
def isValid (b : UInt8) : Bool := decide (-BALANCE_DIFF ≤ toI8 b ∧ toI8 b ≤ BALANCE_DIFF)

/-- `extract(x, elem)`: the balanced trit at position `elem` of a byte. -/
def extract (x : Int) (elem : Nat) : Int := ((x + BALANCE_DIFF) / 3 ^ elem) % 3 - 1

/-- `insert(x, elem, trit)`: the byte with the trit at position `elem` replaced. -/
def insert (x : Int) (elem : Nat) (trit : Int) : Int :=
  let ux := x + BALANCE_DIFF
  ux + ((trit + 1) - (ux / 3 ^ elem) % 3) * 3 ^ elem - BALANCE_DIFF

/-- A `T5B1Buf`: the bytes (as `i8`) and the number of trits. -/
structure Buf where
  bytes : List Int
  len : Nat

/-- Write to the last byte of a buffer (`get_unchecked_mut(last_index)`). -/
def updateLast (f : Int → Int) : List Int → List Int
  | [] => []
  | [x] => [f x]
  | x :: xs => x :: updateLast f xs

/-- `T5B1Buf::push`: a new byte every fifth trit, else the next digit of the last one. -/
def Buf.push : Buf → Int → Buf
  | ⟨bytes, len⟩, trit =>
    if len % TRITS_PER_BYTE = 0 then
      ⟨bytes ++ [insert 0 0 trit], len + 1⟩
    else
      ⟨updateLast (fun b => insert b (len % TRITS_PER_BYTE) trit) bytes, len + 1⟩

/-- The trit at index `i` of a raw T5B1 slice (`get_unchecked` at offset zero). -/
def tritAt (raw : List UInt8) (i : Nat) : Int :=
  extract (toI8 (raw.getD (i / TRITS_PER_BYTE) 0)) (i % TRITS_PER_BYTE)

/-- `Trits::<T5B1>::try_from_raw(raw, n).to_buf()` as bytes: `none` when a byte is
not a valid T5B1 byte, else the buffer that collects the first `n` trits. -/
def fromRaw (raw : List UInt8) (n : Nat) : Option (List UInt8) :=
  if raw.all isValid then
    some ((((List.range n).map (tritAt raw)).foldl Buf.push ⟨[], 0⟩).bytes.map ofI8)
  else none

/-! ### Bytes as `i8` -/

theorem toI8_range (b : UInt8) : -128 ≤ toI8 b ∧ toI8 b ≤ 127 := by
  have hb := b.toNat_lt
  unfold toI8
  split <;> omega

theorem ofI8_toI8 (b : UInt8) : ofI8 (toI8 b) = b := by
  have hb := b.toNat_lt
  have h : (toI8 b % 256).toNat = b.toNat := by
    unfold toI8
    split <;> omega
  rw [ofI8, h]
  exact UInt8.ofNat_toNat

theorem toI8_ofI8 {x : Int} (h₁ : -128 ≤ x) (h₂ : x ≤ 127) : toI8 (ofI8 x) = x := by
  have hlt : (x % 256).toNat < 256 := by omega
  have h : (ofI8 x).toNat = (x % 256).toNat := UInt8.toNat_ofNat_of_lt' hlt
  unfold toI8
  rw [h]
  split <;> omega

/-! ### Buffer length -/

@[simp] theorem length_updateLast (f : Int → Int) (l : List Int) :
    (updateLast f l).length = l.length := by
  induction l with
  | nil => rfl
  | cons x xs ih =>
    cases xs with
    | nil => rfl
    | cons y ys => simp only [updateLast, List.length_cons, ih]

theorem push_of_mod_eq_zero {bytes : List Int} {len : Nat} (t : Int)
    (h : len % TRITS_PER_BYTE = 0) :
    Buf.push ⟨bytes, len⟩ t = ⟨bytes ++ [insert 0 0 t], len + 1⟩ := by
  simp [Buf.push, h]

theorem push_of_mod_ne_zero {bytes : List Int} {len : Nat} (t : Int)
    (h : len % TRITS_PER_BYTE ≠ 0) :
    Buf.push ⟨bytes, len⟩ t =
      ⟨updateLast (fun b => insert b (len % TRITS_PER_BYTE) t) bytes, len + 1⟩ := by
  simp [Buf.push, h]

/-- A buffer holds `⌈len / 5⌉` bytes, and every `push` keeps it so. -/
theorem push_length (buf : Buf) (t : Int)
    (h : buf.bytes.length = (buf.len + 4) / TRITS_PER_BYTE) :
    (buf.push t).bytes.length = ((buf.push t).len + 4) / TRITS_PER_BYTE := by
  obtain ⟨bytes, len⟩ := buf
  simp only [TRITS_PER_BYTE] at h
  by_cases hm : len % TRITS_PER_BYTE = 0
  · rw [push_of_mod_eq_zero t hm]
    simp only [TRITS_PER_BYTE, List.length_append, List.length_singleton] at hm ⊢
    omega
  · rw [push_of_mod_ne_zero t hm]
    simp only [TRITS_PER_BYTE, length_updateLast] at hm ⊢
    omega

theorem push_len (buf : Buf) (t : Int) : (buf.push t).len = buf.len + 1 := by
  obtain ⟨bytes, len⟩ := buf
  by_cases hm : len % TRITS_PER_BYTE = 0
  · rw [push_of_mod_eq_zero t hm]
  · rw [push_of_mod_ne_zero t hm]

theorem foldl_push_length (trits : List Int) (buf : Buf)
    (h : buf.bytes.length = (buf.len + 4) / TRITS_PER_BYTE) :
    (trits.foldl Buf.push buf).bytes.length = ((trits.foldl Buf.push buf).len + 4) / TRITS_PER_BYTE := by
  induction trits generalizing buf with
  | nil => exact h
  | cons t ts ih => exact ih _ (push_length buf t h)

theorem foldl_push_len (trits : List Int) (buf : Buf) :
    (trits.foldl Buf.push buf).len = buf.len + trits.length := by
  induction trits generalizing buf with
  | nil => rfl
  | cons t ts ih =>
    rw [List.foldl_cons, ih, push_len, List.length_cons]
    omega

/-- `fromRaw raw n` holds `⌈n / 5⌉` bytes. -/
theorem fromRaw_length {raw l : List UInt8} {n : Nat} (h : fromRaw raw n = some l) :
    l.length = (n + 4) / TRITS_PER_BYTE := by
  unfold fromRaw at h
  split at h
  · cases h
    rw [List.length_map, foldl_push_length _ _ rfl, foldl_push_len]
    simp
  · cases h

end Bee.Ternary
