import Bee.Lib.Word
import Mathlib

/-!
# Little-endian byte codecs

Encoders and decoders for the binary formats of fixed-width little-endian
numbers and length-prefixed sequences.  An encoder is a function into byte
lists; a decoder reads a value off the front of a byte list and returns it with
the bytes that follow, or `none` when the bytes do not hold one.

* `Decoder.bytes`, `Decoder.leNat` — fixed-length fields;
* `Decoder.u8` … `Decoder.u64` and `Encoder.u8` … `Encoder.u64` — machine words;
* `Decoder.many` — `n` values in turn, the body of every prefixed sequence;
  `Decoder.bounded` — such a sequence behind a count prefix with bounds;
* `Decoder.bool` — a byte that must be `0` or `1`.

Each decoder has a round-trip lemma: decoding the encoding of a value, followed
by any bytes, returns the value and those bytes.
-/

namespace Codec

/-- A decoder: the value at the front of the bytes and the bytes after it. -/
abbrev Decoder (α : Type) := List UInt8 → Option (α × List UInt8)

namespace Encoder

/-- A byte. -/
def u8 (x : UInt8) : List UInt8 := [x]

/-- A little-endian `u16`. -/
def u16 (x : UInt16) : List UInt8 := Word.leBytes 2 x.toNat

/-- A little-endian `u32`. -/
def u32 (x : UInt32) : List UInt8 := Word.leBytes 4 x.toNat

/-- A little-endian `u64`. -/
def u64 (x : UInt64) : List UInt8 := Word.leBytes 8 x.toNat

/-- A `bool` as the byte `0` or `1`. -/
def bool (b : Bool) : List UInt8 := [if b then 1 else 0]

@[simp] theorem length_u16 (x : UInt16) : (u16 x).length = 2 := Word.length_leBytes _ _
@[simp] theorem length_u32 (x : UInt32) : (u32 x).length = 4 := Word.length_leBytes _ _
@[simp] theorem length_u64 (x : UInt64) : (u64 x).length = 8 := Word.length_leBytes _ _

end Encoder

namespace Decoder

variable {α : Type}

/-- `n` raw bytes. -/
def bytes (n : Nat) : Decoder (List UInt8) := fun s =>
  if n ≤ s.length then some (s.take n, s.drop n) else none

/-- An `n`-byte little-endian number. -/
def leNat (n : Nat) : Decoder Nat := fun s =>
  (bytes n s).map fun p => (Word.leNat p.1, p.2)

/-- A byte. -/
def u8 : Decoder UInt8
  | [] => none
  | b :: rest => some (b, rest)

/-- A little-endian `u16`. -/
def u16 : Decoder UInt16 := fun s => (leNat 2 s).map fun p => (p.1.toUInt16, p.2)

/-- A little-endian `u32`. -/
def u32 : Decoder UInt32 := fun s => (leNat 4 s).map fun p => (p.1.toUInt32, p.2)

/-- A little-endian `u64`. -/
def u64 : Decoder UInt64 := fun s => (leNat 8 s).map fun p => (p.1.toUInt64, p.2)

/-- A `bool`: only the bytes `0` and `1` are accepted. -/
def bool : Decoder Bool := fun s => do
  let (b, rest) ← u8 s
  if b = 0 then some (false, rest) else if b = 1 then some (true, rest) else none

/-- `n` values read in turn, returned with their number. -/
def many (d : Decoder α) : (n : Nat) → Decoder {l : List α // l.length = n}
  | 0, s => some (⟨[], rfl⟩, s)
  | n + 1, s => do
    let (x, s₁) ← d s
    let (⟨xs, h⟩, s₂) ← many d n s₁
    return (⟨x :: xs, by simp [h]⟩, s₂)

/-- A sequence behind a count prefix that must lie in `lo..=hi`, as a
`BoxedSlicePrefix` over a bounded integer reads it: the count, its bound, then
that many values. -/
def bounded (lo hi : Nat) (count : Decoder Nat) (d : Decoder α) :
    Decoder {l : List α // lo ≤ l.length ∧ l.length ≤ hi} := fun s => do
  let (n, s) ← count s
  if h : lo ≤ n ∧ n ≤ hi then
    let (⟨l, hl⟩, s) ← many d n s
    return (⟨l, hl ▸ h⟩, s)
  else none

/-! ### Round trips -/

theorem bytes_eq_some {n : Nat} {s b r : List UInt8} :
    bytes n s = some (b, r) ↔ n ≤ s.length ∧ b = s.take n ∧ r = s.drop n := by
  unfold bytes
  split_ifs with h <;> simp [h, eq_comm]

/-- Bytes read off a stream are read the same way off any extension of it. -/
theorem bytes_append_right {n : Nat} {s b r : List UInt8} (h : bytes n s = some (b, r))
    (t : List UInt8) : bytes n (s ++ t) = some (b, r ++ t) := by
  obtain ⟨hn, rfl, rfl⟩ := bytes_eq_some.mp h
  exact bytes_eq_some.mpr ⟨by simp; omega, (List.take_append_of_le_length hn).symm,
    (List.drop_append_of_le_length hn).symm⟩

theorem bytes_append (l rest : List UInt8) : bytes l.length (l ++ rest) = some (l, rest) := by
  simp [bytes]

theorem leNat_append (n v : Nat) (h : v < 2 ^ (8 * n)) (rest : List UInt8) :
    leNat n (Word.leBytes n v ++ rest) = some (v, rest) := by
  have hb := bytes_append (Word.leBytes n v) rest
  rw [Word.length_leBytes] at hb
  simp only [leNat, hb, Option.map_some, Word.leNat_leBytes n v h]

@[simp] theorem u8_cons (b : UInt8) (rest : List UInt8) : u8 (b :: rest) = some (b, rest) := rfl

theorem u8_append (x : UInt8) (rest : List UInt8) : u8 (Encoder.u8 x ++ rest) = some (x, rest) := rfl

theorem u16_append (x : UInt16) (rest : List UInt8) :
    u16 (Encoder.u16 x ++ rest) = some (x, rest) := by
  simp only [u16, Encoder.u16, leNat_append 2 x.toNat (by have := x.toNat_lt; omega),
    Option.map_some, UInt16.ofNat_toNat]

theorem u32_append (x : UInt32) (rest : List UInt8) :
    u32 (Encoder.u32 x ++ rest) = some (x, rest) := by
  simp only [u32, Encoder.u32, leNat_append 4 x.toNat (by have := x.toNat_lt; omega),
    Option.map_some, UInt32.ofNat_toNat]

/-- The first `n` bytes of a stream are the encoding of the number they read as. -/
theorem leBytes_take_append {n : Nat} {s : List UInt8} (h : n ≤ s.length) :
    Word.leBytes n (Word.leNat (s.take n)) ++ s.drop n = s := by
  have henc := Word.leBytes_leNat (s.take n)
  rw [List.length_take_of_le h] at henc
  rw [henc, List.take_append_drop]

/-- Every stream of at least four bytes starts with the encoding of a `u32`. -/
theorem exists_u32_append {s : List UInt8} (h : 4 ≤ s.length) :
    ∃ x rest, s = Encoder.u32 x ++ rest := by
  have hlt : Word.leNat (s.take 4) < 2 ^ (8 * 4) := by
    have := Word.leNat_lt (s.take 4)
    rwa [List.length_take_of_le h] at this
  have hx : (Word.leNat (s.take 4)).toUInt32.toNat = Word.leNat (s.take 4) := by
    rw [Nat.toUInt32, UInt32.toNat_ofNat']
    exact Nat.mod_eq_of_lt hlt
  exact ⟨(Word.leNat (s.take 4)).toUInt32, s.drop 4, by rw [Encoder.u32, hx, leBytes_take_append h]⟩

/-- Reading as many values as there are items, each encoded by `enc` and read
back by `d` as its image under `f`, gives the images back. -/
theorem many_map_append {β : Type} (d : Decoder α) (enc : β → List UInt8) (f : β → α)
    (hd : ∀ x rest, d (enc x ++ rest) = some (f x, rest)) (xs : List β) (rest : List UInt8) :
    many d xs.length ((xs.map enc).flatten ++ rest) = some (⟨xs.map f, List.length_map f⟩, rest) := by
  induction xs with
  | nil => rfl
  | cons x xs ih =>
    simp only [List.length_cons, List.map_cons, List.flatten_cons, List.append_assoc, many, hd,
      ih, Option.bind_eq_bind, Option.bind_some, Option.pure_def]

/-- `many_map_append` for items of which only those satisfying `good` are encoded so that
`d` reads them back. -/
theorem many_map_append_of {β : Type} (d : Decoder α) (enc : β → List UInt8) (f : β → α)
    (good : β → Prop) (hd : ∀ x, good x → ∀ rest, d (enc x ++ rest) = some (f x, rest))
    (xs : List β) (hxs : ∀ x ∈ xs, good x) (rest : List UInt8) :
    many d xs.length ((xs.map enc).flatten ++ rest) = some (⟨xs.map f, List.length_map f⟩, rest) := by
  induction xs with
  | nil => rfl
  | cons x xs ih =>
    have hx : d (enc x ++ ((xs.map enc).flatten ++ rest)) = some (f x, (xs.map enc).flatten ++ rest) :=
      hd x (hxs x List.mem_cons_self) _
    have hrest := ih fun y hy => hxs y (List.mem_cons_of_mem x hy)
    simp only [List.length_cons, List.map_cons, List.flatten_cons, List.append_assoc, many, hx,
      hrest, Option.bind_eq_bind, Option.bind_some, Option.pure_def]

/-- A run of `n + 1` values is a value, then a run of `n` values. -/
theorem many_succ_eq_some {d : Decoder α} {n : Nat} {s r : List UInt8}
    {l : {l : List α // l.length = n + 1}} (h : many d (n + 1) s = some (l, r)) :
    ∃ (x : α) (s₁ : List UInt8) (l' : {l : List α // l.length = n}),
      d s = some (x, s₁) ∧ many d n s₁ = some (l', r) ∧ l.1 = x :: l'.1 := by
  simp only [many, Option.bind_eq_bind, Option.bind_eq_some_iff, Option.pure_def,
    Option.some.injEq] at h
  obtain ⟨⟨x, s₁⟩, hd, ⟨l', s₂⟩, hm, he⟩ := h
  obtain ⟨rfl, rfl⟩ := Prod.mk.inj he
  exact ⟨x, s₁, l', hd, hm, rfl⟩

end Decoder

/-! ### Sorted sequences -/

/-- The check `is_unique_sorted` — each element below the next — gives the
order between any two elements, for a transitive order. -/
theorem pairwise_of_isChain {β : Type} {R : β → β → Prop} {l : List β}
    (htrans : ∀ a b c, R a b → R b c → R a c) (h : l.IsChain R) : l.Pairwise R :=
  haveI : Trans R R R := ⟨fun hab hbc => htrans _ _ _ hab hbc⟩
  List.isChain_iff_pairwise.mp h

end Codec
