import Bee.Ternary.Trit
import Bee.Ternary.T5B1
import Bee.Lib.Flow

namespace Bee.Ternary.B1T6

/-!
# bee-ternary — the B1T6 encoding

`b1t6` writes a byte as two trytes, six trits: the byte read as `i8` plus 364 is
`rem + 27 · quo`, and the trytes are `rem - 13` and `quo - 13`.  `decode` pairs
the trytes back up by zipping every other tryte of the slice with every other
tryte of the slice shifted by three trits, and reads each pair `(a, b)` as the
`i8` value `a + 27 b`.

* `encodeGroup`, `decodeGroup` — one byte; `decodeGroup_encodeGroup` and
  `encodeGroup_of_decodeGroup` are the round trips of one group;
* `trytesOf`, `stepBy2`, `pairUp` — `iter_trytes`, `step_by(2)`, and the pairs
  the zip of `decode` produces (`zip_stepBy2_tail`);
* `decode_encode` — a non-empty byte string reads back; `encode_of_decode` —
  whatever `decode` accepts is the encoding of what it returns;
* `decode_encode_nil` — `decode` of the empty slice panics at `src[3..]`.

Trit slices and buffers are their trit sequences here: every encoding reads back
the list of trits it was given (`Bee.Ternary.Buffer`).
-/

/-- `TRITS_PER_TRYTE`. -/
def TRITS_PER_TRYTE : Nat := 3

/-- `TRITS_PER_BYTE`: two trytes a byte. -/
def TRITS_PER_BYTE : Nat := 6

/-- `DecodeError`. -/
inductive DecodeError
  | invalidTrytes (a b : Tryte)
  deriving DecidableEq

/-! ### Trytes of a trit slice -/

/-- The trytes of a trit sequence, three trits each (`chunks(3)` read by `from_trits`). -/
def trytesOf : List Btrit → List Tryte
  | t0 :: t1 :: t2 :: rest => Tryte.fromTrits t0 t1 t2 :: trytesOf rest
  | _ => []

/-- `Trits::iter_trytes`, which asserts that the length is a multiple of three. -/
def iterTrytes (trits : List Btrit) : Option (List Tryte) :=
  if trits.length % 3 = 0 then some (trytesOf trits) else none

/-- `step_by(2)`: the elements at even positions. -/
def stepBy2 {α : Type} : List α → List α
  | a :: _ :: rest => a :: stepBy2 rest
  | l => l

/-- Consecutive pairs of a list. -/
def pairUp {α : Type} : List α → List (α × α)
  | a :: b :: rest => (a, b) :: pairUp rest
  | _ => []

/-! ### One byte -/

/-- `encode_group` with the `Tryte::try_from(..).unwrap()` of `encode`: both values
are trytes, which is why the `unwrap` never panics. -/
def encodeGroup (byte : UInt8) : Tryte × Tryte :=
  let v := toI8 byte + 27 / 2 * 27 + 27 / 2
  (⟨v % 27 + -13, by have := toI8_range byte; omega, by have := toI8_range byte; omega⟩,
    ⟨v / 27 + -13, by have := toI8_range byte; omega, by have := toI8_range byte; omega⟩)

/-- `decode_group`: `t1 + 27 t2` when it is an `i8`, as a byte. -/
def decodeGroup (t1 t2 : Tryte) : Option UInt8 :=
  let x := t1.val + t2.val * 27
  if -128 ≤ x ∧ x ≤ 127 then some (ofI8 x) else none

/-- `b1t6::encode`: the trits of the two trytes of each byte. -/
def encode (bytes : List UInt8) : List Btrit :=
  bytes.flatMap fun byte => (encodeGroup byte).1.asTrits ++ (encodeGroup byte).2.asTrits

/-- The closure of `decode`: `decode_group(a, b).ok_or(DecodeError::InvalidTrytes([a, b]))`. -/
def decodePair (p : Tryte × Tryte) : Except DecodeError UInt8 :=
  match decodeGroup p.1 p.2 with
  | some byte => .ok byte
  | none => .error (.invalidTrytes p.1 p.2)

/-- `b1t6::decode`: `none` where the source panics, on a length that is not a multiple
of six (the `assert!`) or below three (`src[TRITS_PER_TRYTE..]`). -/
def decode (src : List Btrit) : Option (Except DecodeError (List UInt8)) := do
  guard (src.length % TRITS_PER_BYTE = 0)
  guard (TRITS_PER_TRYTE ≤ src.length)
  let first ← iterTrytes src
  let second ← iterTrytes (src.drop TRITS_PER_TRYTE)
  pure (((stepBy2 first).zip (stepBy2 second)).mapM decodePair)

theorem decodeGroup_encodeGroup (byte : UInt8) :
    decodeGroup (encodeGroup byte).1 (encodeGroup byte).2 = some byte := by
  have h := toI8_range byte
  have hx : (encodeGroup byte).1.val + (encodeGroup byte).2.val * 27 = toI8 byte := by
    simp only [encodeGroup]
    omega
  rw [decodeGroup, hx, if_pos h, ofI8_toI8]

theorem encodeGroup_of_decodeGroup {a b : Tryte} {byte : UInt8} (h : decodeGroup a b = some byte) :
    encodeGroup byte = (a, b) := by
  have ha := a.min_le
  have ha' := a.le_max
  unfold decodeGroup at h
  dsimp only at h
  split at h
  · rename_i hx
    cases h
    have hi := toI8_ofI8 hx.1 hx.2
    ext1
    · apply Tryte.ext'
      simp only [encodeGroup, hi]
      omega
    · apply Tryte.ext'
      simp only [encodeGroup, hi]
      omega
  · cases h

/-! ### Trytes and pairs -/

theorem trytesOf_asTrits_append (t : Tryte) (rest : List Btrit) :
    trytesOf (t.asTrits ++ rest) = t :: trytesOf rest := by
  obtain ⟨t0, t1, t2, h, rfl⟩ := t.exists_asTrits
  rw [h]
  rfl

theorem flatMap_asTrits_trytesOf : ∀ {trits : List Btrit}, trits.length % 3 = 0 →
    (trytesOf trits).flatMap Tryte.asTrits = trits
  | t0 :: t1 :: t2 :: rest, h => by
    simp only [List.length_cons] at h
    rw [trytesOf, List.flatMap_cons, Tryte.asTrits_fromTrits, flatMap_asTrits_trytesOf (by omega)]
    rfl
  | [], _ => rfl
  | [_], h => by simp at h
  | [_, _], h => by simp at h

theorem stepBy2_cons_tail {α : Type} (b : α) (rest : List α) :
    stepBy2 (b :: rest) = b :: stepBy2 rest.tail := by
  cases rest with
  | nil => rfl
  | cons c rest => rfl

/-- Every other element zipped with every other element of the tail: the consecutive pairs. -/
theorem zip_stepBy2_tail {α : Type} : ∀ l : List α, (stepBy2 l).zip (stepBy2 l.tail) = pairUp l
  | a :: b :: rest => by
    rw [stepBy2, List.tail_cons, stepBy2_cons_tail, List.zip_cons_cons, zip_stepBy2_tail rest, pairUp]
  | [] => rfl
  | [_] => rfl

theorem flatMap_pairUp {α : Type} : ∀ {l : List α}, l.length % 2 = 0 →
    (pairUp l).flatMap (fun p => [p.1, p.2]) = l
  | a :: b :: rest, h => by
    simp only [List.length_cons] at h
    rw [pairUp, List.flatMap_cons, flatMap_pairUp (by omega)]
    rfl
  | [], _ => rfl
  | [_], h => by simp at h

theorem pairUp_flatMap {α β : Type} (f g : β → α) (l : List β) :
    pairUp (l.flatMap fun x => [f x, g x]) = l.map fun x => (f x, g x) := by
  induction l with
  | nil => rfl
  | cons x l ih =>
    rw [List.flatMap_cons, List.map_cons, ← ih]
    rfl

/-! ### Round trips -/

theorem trytesOf_encode (bytes : List UInt8) :
    trytesOf (encode bytes) = bytes.flatMap fun b => [(encodeGroup b).1, (encodeGroup b).2] := by
  induction bytes with
  | nil => rfl
  | cons b bs ih =>
    rw [encode, List.flatMap_cons, List.append_assoc, trytesOf_asTrits_append,
      trytesOf_asTrits_append, ← encode, ih]
    rfl

theorem length_encode (bytes : List UInt8) : (encode bytes).length = TRITS_PER_BYTE * bytes.length := by
  induction bytes with
  | nil => rfl
  | cons b bs ih =>
    rw [encode, List.flatMap_cons, List.length_append, ← encode, ih, List.length_append,
      Tryte.length_asTrits, Tryte.length_asTrits, List.length_cons, TRITS_PER_BYTE]
    ring

/-- Decoding reads each group of six trits back as its byte. -/
theorem mapM_decodePair_encodeGroup (bytes : List UInt8) :
    (bytes.map fun b => ((encodeGroup b).1, (encodeGroup b).2)).mapM decodePair = .ok bytes := by
  induction bytes with
  | nil => rfl
  | cons b bs ih =>
    rw [List.map_cons, List.mapM_cons, decodePair, decodeGroup_encodeGroup, ih]
    rfl

theorem trytesOf_drop_three (src : List Btrit) : trytesOf (src.drop 3) = (trytesOf src).tail := by
  match src with
  | _ :: _ :: _ :: _ => rfl
  | [] => rfl
  | [_] => rfl
  | [_, _] => rfl

theorem length_trytesOf : ∀ src : List Btrit, (trytesOf src).length = src.length / 3
  | t0 :: t1 :: t2 :: rest => by
    rw [trytesOf, List.length_cons, length_trytesOf rest, List.length_cons, List.length_cons,
      List.length_cons]
    omega
  | [] => rfl
  | [_] => by simp [trytesOf]
  | [_, _] => by simp [trytesOf]

/-- Past its two checks, `decode` reads the consecutive pairs of trytes. -/
theorem decode_eq {src : List Btrit} (h6 : src.length % TRITS_PER_BYTE = 0)
    (h3 : TRITS_PER_TRYTE ≤ src.length) :
    decode src = some ((pairUp (trytesOf src)).mapM decodePair) := by
  have hsrc : src.length % 3 = 0 := by rw [TRITS_PER_BYTE] at h6; omega
  have hdrop : (src.drop TRITS_PER_TRYTE).length % 3 = 0 := by
    rw [List.length_drop, TRITS_PER_TRYTE]
    rw [TRITS_PER_TRYTE] at h3
    omega
  simp only [decode, h6, h3, guard_true, iterTrytes, hsrc, hdrop, if_true]
  rw [TRITS_PER_TRYTE, trytesOf_drop_three, ← zip_stepBy2_tail]
  rfl

/-- A non-empty byte string reads back from its encoding. -/
theorem decode_encode {bytes : List UInt8} (h : bytes ≠ []) : decode (encode bytes) = some (.ok bytes) := by
  have hlen := length_encode bytes
  have hpos : 0 < bytes.length := List.length_pos_iff.mpr h
  rw [decode_eq (by rw [hlen, TRITS_PER_BYTE]; omega) (by rw [hlen, TRITS_PER_BYTE, TRITS_PER_TRYTE]; omega),
    trytesOf_encode, pairUp_flatMap, mapM_decodePair_encodeGroup]

/-- What `decode` accepts is the encoding of what it returns. -/
theorem encode_of_decode {src : List Btrit} {bytes : List UInt8} (h : decode src = some (.ok bytes)) :
    encode bytes = src := by
  -- `decode` returned, so both checks passed
  have h6 : src.length % TRITS_PER_BYTE = 0 := by
    by_contra hne
    simp [decode, hne] at h
  have h3 : TRITS_PER_TRYTE ≤ src.length := by
    by_contra hne
    simp [decode, h6, hne] at h
  rw [decode_eq h6 h3, Option.some.injEq, Flow.mapM_eq_ok] at h
  have hsrc : src.length % 3 = 0 := by rw [TRITS_PER_BYTE] at h6; omega
  have heven : (trytesOf src).length % 2 = 0 := by
    rw [length_trytesOf]
    rw [TRITS_PER_BYTE] at h6
    omega
  -- each byte re-encodes to the pair of trytes it was decoded from
  have hmap : bytes.map (fun b => (encodeGroup b).1.asTrits ++ (encodeGroup b).2.asTrits) =
      (pairUp (trytesOf src)).map fun p => p.1.asTrits ++ p.2.asTrits := by
    refine Flow.map_eq_map_of_forall₂ h fun p b hp => ?_
    rw [decodePair] at hp
    split at hp
    · rename_i byte hbyte
      cases hp
      rw [encodeGroup_of_decodeGroup hbyte]
    · cases hp
  rw [encode, List.flatMap_def, hmap, ← List.flatMap_def]
  calc (pairUp (trytesOf src)).flatMap (fun p => p.1.asTrits ++ p.2.asTrits)
      = ((pairUp (trytesOf src)).flatMap fun p => [p.1, p.2]).flatMap Tryte.asTrits := by
        rw [List.flatMap_assoc]
        simp
    _ = src := by rw [flatMap_pairUp heven, flatMap_asTrits_trytesOf hsrc]

/-- `decode` of the empty slice panics: `src[3..]` is out of range. -/
theorem decode_encode_nil : decode (encode []) = none := rfl

end Bee.Ternary.B1T6
