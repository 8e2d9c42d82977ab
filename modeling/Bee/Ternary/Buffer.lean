import Bee.Ternary.T5B1
import Bee.Ternary.Trit
import Bee.Lib.Flow

namespace Bee.Ternary

/-!
# bee-ternary — trit buffers and their slices

A `TritBuf<T>` is a `RawEncodingBuf` of some encoding, and its slices are
`Trits<T>`, fat pointers into the buffer's memory.  `lib.rs` is written once
over the encoding (`RawEncoding`): `Trits::set`, `Trits::subslice_mut` and
`Trits::iter` check their index or range and call the encoding's unchecked
accessors.  `T2B1`, `T3B1`, `T4B1` and `T5B1` share their code up to the
constants of `Packing`: the buffer is a byte vector and a trit count, trit `j`
being digit `j % n` of byte `j / n`, and a slice keeps the offset of its first
trit within the byte it points at in the low `offsetBits` bits of its length
field (`Packing.make`, `Packing.lenOffset`).  `T1B1` stores one trit a byte.

* `RawEncoding.Lawful` — what an encoding has to satisfy for every run of
  `TritBuf` operations to be the run on a list of trits (`listRun`), panics and
  popped trits included (`Lawful.run_view`), and for `iter` to read the list
  back (`Lawful.run_iter`);
* `Packing.tritAt`, `Packing.view` — the trit sequence the bytes stand for; a
  slice reads and writes the segment of it from `base` (`Packing.getUnchecked_eq`,
  `Packing.setUnchecked_eq`), and a sub-slice the segment shifted by its start
  (`Packing.base_sliceUnchecked`), whether or not the start is byte-aligned;
* `Packing.Inv` — one byte for each started group of `n` trits, each valid;
  `push` and `pop` keep it and act on the trits as on a list (`Packing.push_view`,
  `Packing.pop_view`); `pop` leaves the popped digit in its byte, and the next
  `push` overwrites it;
* `Packing.lawful`, `t1b1_lawful` — the two families of the crate are lawful,
  `TnB1` for every `n ≥ 2`.  With one trit a byte the shared code would not be:
  its `pop` would never drop a byte, which is why `T1B1` has code of its own.
-/

/-- The operations a `TritBuf` goes through: `push`, `pop`, `set` on the whole buffer, and
`buf.subslice_mut(start..stop).set(index, trit)`. -/
inductive BufOp
  | push (trit : Btrit)
  | pop
  | set (index : Nat) (trit : Btrit)
  | setSub (start stop index : Nat) (trit : Btrit)

/-! ### The operations on a list of trits -/

/-- What an operation does to a list of trits: `pop` returns the last one, `set` changes one
position, and an index or range out of bounds panics (`none`). -/
def listApply (l : List Btrit) : BufOp → Option (Option Btrit × List Btrit)
  | .push trit => some (none, l ++ [trit])
  | .pop => some (l.getLast?, l.dropLast)
  | .set index trit => if index < l.length then some (none, l.set index trit) else none
  | .setSub start stop index trit =>
    if start ≤ stop ∧ stop ≤ l.length ∧ index < stop - start then some (none, l.set (start + index) trit)
    else none

/-- The operations in turn, with what each `pop` returned. -/
def listRun (l : List Btrit) : List BufOp → Option (List (Option Btrit) × List Btrit)
  | [] => some ([], l)
  | op :: ops => (listApply l op).bind fun r => (listRun r.2 ops).map fun r' => (r.1 :: r'.1, r'.2)

/-! ### Encodings -/

/-- The functions of `RawEncoding` and `RawEncodingBuf` a `TritBuf` uses: the buffer `Buf`
holds the memory its slices `Slice` point into; `none` is a panic or a read outside it. -/
structure RawEncoding (Buf Slice : Type) where
  len : Slice → Nat
  getUnchecked : Buf → Slice → Nat → Option Btrit
  setUnchecked : Buf → Slice → Nat → Btrit → Option Buf
  sliceUnchecked : Slice → Nat → Nat → Slice
  push : Buf → Btrit → Buf
  pop : Buf → Option (Option Btrit × Buf)
  asSlice : Buf → Slice

namespace RawEncoding

variable {Buf Slice : Type} (enc : RawEncoding Buf Slice)

/-- `Trits::set`: the assert on the index panics. -/
def set (buf : Buf) (s : Slice) (index : Nat) (trit : Btrit) : Option Buf :=
  if index < enc.len s then enc.setUnchecked buf s index trit else none

/-- `Trits::subslice_mut(start..stop)`: the assert on the range panics. -/
def subsliceMut (s : Slice) (start stop : Nat) : Option Slice :=
  if stop ≥ start ∧ stop ≤ enc.len s then some (enc.sliceUnchecked s start stop) else none

/-- `Trits::iter`, collected. -/
def iter (buf : Buf) (s : Slice) : Option (List Btrit) :=
  (List.range (enc.len s)).mapM (enc.getUnchecked buf s)

/-- One operation on a `TritBuf`, through its slice `as_slice_mut` for the two `set`s. -/
def apply (buf : Buf) : BufOp → Option (Option Btrit × Buf)
  | .push trit => some (none, enc.push buf trit)
  | .pop => enc.pop buf
  | .set index trit => (enc.set buf (enc.asSlice buf) index trit).map fun buf => (none, buf)
  | .setSub start stop index trit =>
    (enc.subsliceMut (enc.asSlice buf) start stop).bind fun s =>
      (enc.set buf s index trit).map fun buf => (none, buf)

/-- The operations in turn, with what each `pop` returned. -/
def run (buf : Buf) : List BufOp → Option (List (Option Btrit) × Buf)
  | [] => some ([], buf)
  | op :: ops => (enc.apply buf op).bind fun r => (run r.2 ops).map fun r' => (r.1 :: r'.1, r'.2)

/-! ### Lawful encodings refine lists -/

section Lawful

variable {Inv : Buf → Prop} {view : Buf → List Btrit} {base : Slice → Nat}

/-- An encoding whose buffers stand for lists of trits: `view` reads a buffer that keeps
`Inv`, and a slice stands for the segment of the buffer's trits from `base`, of the slice's
length.  `push` and `pop` act on the trits as on a list, and the unchecked accessors read and
write the trit they name. -/
structure Lawful (Inv : Buf → Prop) (view : Buf → List Btrit) (base : Slice → Nat) : Prop where
  push : ∀ buf trit, Inv buf → Inv (enc.push buf trit) ∧ view (enc.push buf trit) = view buf ++ [trit]
  pop : ∀ buf, Inv buf → ∃ buf', enc.pop buf = some ((view buf).getLast?, buf') ∧ Inv buf' ∧
    view buf' = (view buf).dropLast
  asSlice : ∀ buf, base (enc.asSlice buf) = 0 ∧ enc.len (enc.asSlice buf) = (view buf).length
  slice : ∀ s start stop, base (enc.sliceUnchecked s start stop) = base s + start ∧
    enc.len (enc.sliceUnchecked s start stop) = stop - start
  get : ∀ buf s index, Inv buf → base s + index < (view buf).length →
    enc.getUnchecked buf s index = some ((view buf).getD (base s + index) .zero)
  set : ∀ buf s index trit, Inv buf → base s + index < (view buf).length →
    ∃ buf', enc.setUnchecked buf s index trit = some buf' ∧ Inv buf' ∧
      view buf' = (view buf).set (base s + index) trit

variable {enc}

/-- `Trits::set` on a slice within the buffer writes the trit it names, or panics past the
slice's end. -/
theorem Lawful.set_eq (h : enc.Lawful Inv view base) {buf : Buf} (s : Slice) (index : Nat)
    (trit : Btrit) (hbuf : Inv buf) (hlen : base s + enc.len s ≤ (view buf).length) :
    (index < enc.len s ∧ ∃ buf', enc.set buf s index trit = some buf' ∧ Inv buf' ∧
      view buf' = (view buf).set (base s + index) trit) ∨
    (enc.len s ≤ index ∧ enc.set buf s index trit = none) := by
  by_cases hi : index < enc.len s
  · obtain ⟨buf', hset, hinv, hview⟩ := h.set buf s index trit hbuf (by omega)
    exact .inl ⟨hi, buf', by rw [RawEncoding.set, if_pos hi, hset], hinv, hview⟩
  · exact .inr ⟨by omega, by rw [RawEncoding.set, if_neg hi]⟩

/-- An operation that ends in a buffer keeping `Inv` and reading as the list's result does on
the trits what it does on the list. -/
theorem apply_view_of_eq_some {buf buf' : Buf} {op : BufOp} {o : Option Btrit}
    (happly : enc.apply buf op = some (o, buf')) (hinv : Inv buf')
    (hlist : listApply (view buf) op = some (o, view buf')) :
    (enc.apply buf op).map (fun r => (r.1, view r.2)) = listApply (view buf) op ∧
      ∀ r, enc.apply buf op = some r → Inv r.2 := by
  refine ⟨by rw [happly, Option.map_some, hlist], ?_⟩
  rintro r hr
  rw [happly, Option.some.injEq] at hr
  rw [← hr]
  exact hinv

/-- An operation that panics where the list panics does on the trits what it does on the list. -/
theorem apply_view_of_eq_none {buf : Buf} {op : BufOp} (happly : enc.apply buf op = none)
    (hlist : listApply (view buf) op = none) :
    (enc.apply buf op).map (fun r => (r.1, view r.2)) = listApply (view buf) op ∧
      ∀ r, enc.apply buf op = some r → Inv r.2 := by
  refine ⟨by rw [happly, Option.map_none, hlist], ?_⟩
  rintro r hr
  rw [happly] at hr
  cases hr

/-- One operation does to the buffer's trits what it does to a list, and keeps `Inv`. -/
theorem Lawful.apply_view (h : enc.Lawful Inv view base) {buf : Buf} (hbuf : Inv buf)
    (op : BufOp) : (enc.apply buf op).map (fun r => (r.1, view r.2)) = listApply (view buf) op ∧
      ∀ r, enc.apply buf op = some r → Inv r.2 := by
  obtain ⟨hbase, hlen⟩ := h.asSlice buf
  cases op with
  | push trit =>
    obtain ⟨hinv, hview⟩ := h.push buf trit hbuf
    exact apply_view_of_eq_some rfl hinv (by rw [hview, listApply])
  | pop =>
    obtain ⟨buf', hpop, hinv, hview⟩ := h.pop buf hbuf
    exact apply_view_of_eq_some (by rw [RawEncoding.apply, hpop]) hinv (by rw [hview, listApply])
  | set index trit =>
    -- the whole buffer as a slice: base `0`, and the buffer's length
    rcases h.set_eq (enc.asSlice buf) index trit hbuf (by omega) with
      ⟨hi, buf', hset, hinv, hview⟩ | ⟨hi, hset⟩
    · exact apply_view_of_eq_some (by rw [RawEncoding.apply, hset, Option.map_some]) hinv
        (by rw [hview, hbase, Nat.zero_add, listApply, if_pos (by omega)])
    · exact apply_view_of_eq_none (by rw [RawEncoding.apply, hset, Option.map_none])
        (by rw [listApply, if_neg (by omega)])
  | setSub start stop index trit =>
    by_cases hrange : stop ≥ start ∧ stop ≤ enc.len (enc.asSlice buf)
    · -- the sub-slice stands for the trits from `start`, whether or not it is byte-aligned
      obtain ⟨hbase', hlen'⟩ := h.slice (enc.asSlice buf) start stop
      have hsub : enc.subsliceMut (enc.asSlice buf) start stop =
          some (enc.sliceUnchecked (enc.asSlice buf) start stop) := by
        rw [RawEncoding.subsliceMut, if_pos hrange]
      rcases h.set_eq (enc.sliceUnchecked (enc.asSlice buf) start stop) index trit hbuf (by omega) with
        ⟨hi, buf', hset, hinv, hview⟩ | ⟨hi, hset⟩
      · exact apply_view_of_eq_some
          (by rw [RawEncoding.apply, hsub, Option.bind_some, hset, Option.map_some]) hinv
          (by rw [hview, hbase', hbase, Nat.zero_add, listApply, if_pos (by omega)])
      · exact apply_view_of_eq_none
          (by rw [RawEncoding.apply, hsub, Option.bind_some, hset, Option.map_none])
          (by rw [listApply, if_neg (by omega)])
    · have hsub : enc.subsliceMut (enc.asSlice buf) start stop = none := by
        rw [RawEncoding.subsliceMut, if_neg hrange]
      exact apply_view_of_eq_none (by rw [RawEncoding.apply, hsub, Option.bind_none])
        (by rw [listApply, if_neg (by omega)])

/-- Every run of operations from a buffer that keeps `Inv` is the run on its trits: the same
panics, the same popped trits, and a buffer that keeps `Inv` and reads the list. -/
theorem Lawful.run_view (h : enc.Lawful Inv view base) :
    ∀ (ops : List BufOp) {buf : Buf}, Inv buf →
      (enc.run buf ops).map (fun r => (r.1, view r.2)) = listRun (view buf) ops ∧
        ∀ r, enc.run buf ops = some r → Inv r.2
  | [], buf, hbuf => by
    refine ⟨rfl, ?_⟩
    rintro r ⟨⟩
    exact hbuf
  | op :: ops, buf, hbuf => by
    obtain ⟨hstep, hinv⟩ := h.apply_view hbuf op
    rw [RawEncoding.run, listRun]
    cases happly : enc.apply buf op with
    | none =>
      rw [happly, Option.map_none] at hstep
      refine ⟨by rw [Option.bind_none, Option.map_none, ← hstep, Option.bind_none], ?_⟩
      rintro r hr
      rw [Option.bind_none] at hr
      cases hr
    | some r₁ =>
      rw [happly, Option.map_some] at hstep
      obtain ⟨hrun, hinv'⟩ := Lawful.run_view h ops (hinv r₁ happly)
      refine ⟨?_, ?_⟩
      · rw [Option.bind_some, ← hstep, Option.bind_some, ← hrun, Option.map_map, Option.map_map]
        rfl
      · rintro r hr
        rw [Option.bind_some] at hr
        obtain ⟨r', hr', rfl⟩ := Option.map_eq_some_iff.mp hr
        exact hinv' r' hr'

/-- `iter` reads a buffer's trits back. -/
theorem Lawful.iter_asSlice (h : enc.Lawful Inv view base) {buf : Buf} (hbuf : Inv buf) :
    enc.iter buf (enc.asSlice buf) = some (view buf) := by
  obtain ⟨hbase, hlen⟩ := h.asSlice buf
  have hget : ∀ i ∈ List.range (enc.len (enc.asSlice buf)),
      enc.getUnchecked buf (enc.asSlice buf) i = some ((view buf).getD i .zero) := by
    intro i hi
    rw [List.mem_range] at hi
    have := h.get buf (enc.asSlice buf) i hbuf (by omega)
    rwa [hbase, Nat.zero_add] at this
  rw [RawEncoding.iter, Flow.mapM_eq_some_map hget, hlen]
  congr 1
  apply List.ext_getElem (by simp)
  intro i h₁ h₂
  simp [h₂]

/-- What `iter` reads after a run is what the run on a list leaves. -/
theorem Lawful.run_iter (h : enc.Lawful Inv view base) (ops : List BufOp) {buf : Buf}
    (hbuf : Inv buf) :
    (enc.run buf ops).map (fun r => (r.1, enc.iter r.2 (enc.asSlice r.2))) =
      (listRun (view buf) ops).map (fun r => (r.1, some r.2)) := by
  obtain ⟨hrun, hinv⟩ := h.run_view ops hbuf
  rw [← hrun]
  cases hr : enc.run buf ops with
  | none => rfl
  | some r => rw [Option.map_some, Option.map_some, Option.map_some, h.iter_asSlice (hinv r hr)]

end Lawful

/-- Running `ops` from `buf` does what it does on the list `l`: the same panics, the same
popped trits, and a buffer whose `iter` reads back the list the run on `l` leaves. -/
def RefinesList (buf : Buf) (l : List Btrit) (ops : List BufOp) : Prop :=
  (enc.run buf ops).map (fun r => (r.1, enc.iter r.2 (enc.asSlice r.2))) =
    (listRun l ops).map (fun r => (r.1, some r.2))

end RawEncoding

/-! ### `TnB1` -/

/-- A `TnB1Buf`: the bytes (`Vec<i8>`) and the number of trits. -/
structure PackedBuf where
  bytes : List Int
  len : Nat
  deriving DecidableEq

/-- `TnB1Buf::new`. -/
def PackedBuf.new : PackedBuf := ⟨[], 0⟩

/-- A `Trits<TnB1>` fat pointer: the byte it points at in the buffer's memory, and its length
field. -/
structure Fat where
  ptr : Nat
  len : Nat

namespace Packing

variable (E : Packing)

/-- `make(ptr, offset, len)`: the pointer moves to the byte of the offset, and the length
field holds the trit count above the offset within that byte. -/
def make (ptr offset len : Nat) : Fat :=
  ⟨ptr + offset / E.tritsPerByte, (len <<< E.offsetBits) ||| (offset % E.tritsPerByte)⟩

/-- `len_offset`: the trit count and the offset, read off the length field. -/
def lenOffset (s : Fat) : Nat × Nat :=
  (s.len >>> E.offsetBits, s.len &&& (2 ^ E.offsetBits - 1))

/-- `ptr(index)`: the byte that holds trit `index` of a slice. -/
def ptr (s : Fat) (index : Nat) : Nat :=
  s.ptr + ((E.lenOffset s).2 + index) / E.tritsPerByte

/-- `get_unchecked(index)`: its digit of that byte; `none` outside the buffer's memory. -/
def getUnchecked (buf : PackedBuf) (s : Fat) (index : Nat) : Option Btrit :=
  buf.bytes[E.ptr s index]?.map fun b => E.extract b (((E.lenOffset s).2 + index) % E.tritsPerByte)

/-- `set_unchecked(index, trit)`: the byte with that digit replaced. -/
def setUnchecked (buf : PackedBuf) (s : Fat) (index : Nat) (trit : Btrit) : Option PackedBuf :=
  buf.bytes[E.ptr s index]?.map fun b =>
    { buf with
      bytes := buf.bytes.set (E.ptr s index)
        (E.insert b (((E.lenOffset s).2 + index) % E.tritsPerByte) trit) }

/-- `slice_unchecked(start..stop)`: from the byte of trit `start`, at its digit. -/
def sliceUnchecked (s : Fat) (start stop : Nat) : Fat :=
  E.make (E.ptr s start) (((E.lenOffset s).2 + start) % E.tritsPerByte) (stop - start)

/-- `TnB1Buf::push`: a new byte every `n`th trit, else the next digit of the last byte. -/
def push (buf : PackedBuf) (trit : Btrit) : PackedBuf :=
  if buf.len % E.tritsPerByte = 0 then ⟨buf.bytes ++ [E.insert 0 0 trit], buf.len + 1⟩
  else ⟨updateLast (fun b => E.insert b (buf.len % E.tritsPerByte) trit) buf.bytes, buf.len + 1⟩

/-- `TnB1Buf::pop`: the byte is dropped when its first digit is popped, and otherwise keeps the
popped digit; `none` where `last_index` would underflow. -/
def pop (buf : PackedBuf) : Option (Option Btrit × PackedBuf) :=
  if buf.len = 0 then some (none, buf)
  else if buf.len % E.tritsPerByte = 1 then
    some (buf.bytes.getLast?.map (E.extract · 0), ⟨buf.bytes.dropLast, buf.len - 1⟩)
  else
    buf.bytes.getLast?.map fun b =>
      (some (E.extract b ((buf.len + E.tritsPerByte - 1) % E.tritsPerByte)), ⟨buf.bytes, buf.len - 1⟩)

/-- The `RawEncoding` of `TnB1`; `as_slice` makes a slice of the whole buffer. -/
def encoding : RawEncoding PackedBuf Fat where
  len s := (E.lenOffset s).1
  getUnchecked := E.getUnchecked
  setUnchecked := E.setUnchecked
  sliceUnchecked := E.sliceUnchecked
  push := E.push
  pop := E.pop
  asSlice buf := E.make 0 0 buf.len

/-! #### Slices -/

/-- The trit the bytes hold at `j`: digit `j % n` of byte `j / n`. -/
def tritAt (bytes : List Int) (j : Nat) : Btrit :=
  E.extract (bytes.getD (j / E.tritsPerByte) 0) (j % E.tritsPerByte)

/-- The index of a slice's first trit among the buffer's. -/
def base (s : Fat) : Nat := s.ptr * E.tritsPerByte + (E.lenOffset s).2

/-- The bytes with trit `j` replaced. -/
def setTrit (bytes : List Int) (j : Nat) (trit : Btrit) : List Int :=
  bytes.set (j / E.tritsPerByte) (E.insert (bytes.getD (j / E.tritsPerByte) 0) (j % E.tritsPerByte) trit)

/-- The trits of a buffer: the first `len` its bytes hold. -/
def view (buf : PackedBuf) : List Btrit := (List.range buf.len).map (E.tritAt buf.bytes)

/-- One byte for each started group of `n` trits, each valid. -/
structure Inv (buf : PackedBuf) : Prop where
  len_le : buf.len ≤ buf.bytes.length * E.tritsPerByte
  lt_len : buf.bytes.length * E.tritsPerByte < buf.len + E.tritsPerByte
  valid : ∀ b ∈ buf.bytes, E.isValid b = true

variable {E}

/-- The offset `make` stores is below `2 ^ offsetBits`, so `len_offset` reads both fields
back. -/
theorem lenOffset_make (ptr offset len : Nat) :
    E.lenOffset (E.make ptr offset len) = (len, offset % E.tritsPerByte) := by
  have hoff : offset % E.tritsPerByte < 2 ^ E.offsetBits :=
    lt_of_lt_of_le (Nat.mod_lt _ E.tritsPerByte_pos) E.tritsPerByte_le
  -- the two fields do not overlap: the length field is `len * 2 ^ offsetBits + offset`
  have hdiv : (len * 2 ^ E.offsetBits + offset % E.tritsPerByte) / 2 ^ E.offsetBits = len := by
    rw [Nat.add_comm, Nat.add_mul_div_right _ _ (by positivity), Nat.div_eq_of_lt hoff, Nat.zero_add]
  have hmod : (len * 2 ^ E.offsetBits + offset % E.tritsPerByte) % 2 ^ E.offsetBits =
      offset % E.tritsPerByte := by
    rw [Nat.add_comm, Nat.add_mul_mod_self_right, Nat.mod_eq_of_lt hoff]
  simp only [lenOffset, make]
  rw [← Nat.shiftLeft_add_eq_or_of_lt hoff, Nat.shiftRight_eq_div_pow, Nat.and_two_pow_sub_one_eq_mod,
    Nat.shiftLeft_eq, hdiv, hmod]

/-- The byte and digit of a slice's trit are those of its index among the buffer's. -/
theorem ptr_eq (s : Fat) (index : Nat) :
    E.ptr s index = (E.base s + index) / E.tritsPerByte ∧
      ((E.lenOffset s).2 + index) % E.tritsPerByte = (E.base s + index) % E.tritsPerByte := by
  have hsplit : E.base s + index = ((E.lenOffset s).2 + index) + E.tritsPerByte * s.ptr := by
    rw [base]
    ring
  rw [hsplit, Nat.add_mul_div_left _ _ E.tritsPerByte_pos, Nat.add_mul_mod_self_left, ptr]
  exact ⟨Nat.add_comm _ _, rfl⟩

theorem getUnchecked_eq {buf : PackedBuf} {s : Fat} {index : Nat}
    (h : (E.base s + index) / E.tritsPerByte < buf.bytes.length) :
    E.getUnchecked buf s index = some (E.tritAt buf.bytes (E.base s + index)) := by
  obtain ⟨hptr, hpos⟩ := ptr_eq (E := E) s index
  rw [getUnchecked, hptr, hpos, List.getElem?_eq_getElem h, Option.map_some, tritAt,
    List.getD_eq_getElem _ _ h]

theorem setUnchecked_eq {buf : PackedBuf} {s : Fat} {index : Nat} (trit : Btrit)
    (h : (E.base s + index) / E.tritsPerByte < buf.bytes.length) :
    E.setUnchecked buf s index trit = some ⟨E.setTrit buf.bytes (E.base s + index) trit, buf.len⟩ := by
  obtain ⟨hptr, hpos⟩ := ptr_eq (E := E) s index
  rw [setUnchecked, hptr, hpos, List.getElem?_eq_getElem h, Option.map_some, setTrit,
    List.getD_eq_getElem _ _ h]

/-- A sub-slice starts `start` trits further, whether or not `start` falls on a byte. -/
theorem base_sliceUnchecked (s : Fat) (start stop : Nat) :
    E.base (E.sliceUnchecked s start stop) = E.base s + start ∧
      (E.lenOffset (E.sliceUnchecked s start stop)).1 = stop - start := by
  have hn := E.tritsPerByte_pos
  obtain ⟨hptr, hpos⟩ := ptr_eq (E := E) s start
  rw [sliceUnchecked, base, lenOffset_make, make, Nat.mod_mod, Nat.div_eq_of_lt (Nat.mod_lt _ hn),
    Nat.add_zero, hptr, hpos]
  exact ⟨Nat.div_add_mod' _ _, rfl⟩

/-! #### The bytes as trits -/

section Bytes

variable {bytes : List Int} {j : Nat}

theorem tritAt_append (l : List Int) (hj : j / E.tritsPerByte < bytes.length) :
    E.tritAt (bytes ++ l) j = E.tritAt bytes j := by
  rw [tritAt, tritAt, List.getD_append _ _ _ _ hj]

/-- Writing trit `j` changes that trit only: another digit of its byte, or another byte, reads
as before. -/
theorem tritAt_setTrit (hvalid : ∀ b ∈ bytes, E.isValid b = true)
    (hj : j / E.tritsPerByte < bytes.length) (trit : Btrit) (j' : Nat) :
    E.tritAt (E.setTrit bytes j trit) j' = if j' = j then trit else E.tritAt bytes j' := by
  have hn := E.tritsPerByte_pos
  have hb : E.isValid (bytes.getD (j / E.tritsPerByte) 0) = true := by
    rw [List.getD_eq_getElem _ _ hj]
    exact hvalid _ (List.getElem_mem hj)
  by_cases hsame : j' / E.tritsPerByte = j / E.tritsPerByte
  · -- the byte written: the digit written, or another digit of it
    have hbyte : (E.setTrit bytes j trit).getD (j' / E.tritsPerByte) 0 =
        E.insert (bytes.getD (j / E.tritsPerByte) 0) (j % E.tritsPerByte) trit := by
      rw [setTrit, hsame, List.getD_eq_getElem?_getD, List.getElem?_set_self hj, Option.getD_some]
    rw [tritAt, hbyte]
    by_cases hj' : j' = j
    · rw [if_pos hj', hj']
      exact extract_insert_self hb (Nat.mod_lt _ hn) trit
    · have hmod : j % E.tritsPerByte ≠ j' % E.tritsPerByte := by
        intro h
        apply hj'
        rw [← Nat.div_add_mod j' E.tritsPerByte, ← Nat.div_add_mod j E.tritsPerByte, hsame, h]
      rw [if_neg hj', extract_insert_of_ne hb (Nat.mod_lt _ hn) hmod, tritAt, hsame]
  · have hj' : j' ≠ j := fun h => hsame (by rw [h])
    rw [if_neg hj', tritAt, tritAt, setTrit, List.getD_eq_getElem?_getD,
      List.getElem?_set_ne (Ne.symm hsame), ← List.getD_eq_getElem?_getD]

theorem isValid_setTrit (hvalid : ∀ b ∈ bytes, E.isValid b = true)
    (hj : j / E.tritsPerByte < bytes.length) (trit : Btrit) :
    ∀ b ∈ E.setTrit bytes j trit, E.isValid b = true := by
  intro b hb
  rcases List.mem_or_eq_of_mem_set hb with hb | rfl
  · exact hvalid b hb
  · have hbyte : E.isValid (bytes.getD (j / E.tritsPerByte) 0) = true := by
      rw [List.getD_eq_getElem _ _ hj]
      exact hvalid _ (List.getElem_mem hj)
    exact isValid_insert hbyte (Nat.mod_lt _ E.tritsPerByte_pos) trit

end Bytes

/-! #### Buffers -/

section Buffers

variable {buf : PackedBuf}

theorem Inv.div_lt (h : E.Inv buf) {j : Nat} (hj : j < buf.len) :
    j / E.tritsPerByte < buf.bytes.length :=
  (Nat.div_lt_iff_lt_mul E.tritsPerByte_pos).mpr (lt_of_lt_of_le hj h.len_le)

/-- The last trit is in the last byte. -/
theorem Inv.last (h : E.Inv buf) (hlen : 0 < buf.len) :
    0 < buf.bytes.length ∧ (buf.len - 1) / E.tritsPerByte = buf.bytes.length - 1 := by
  have hk : 0 < buf.bytes.length :=
    Nat.lt_of_le_of_lt (Nat.zero_le _) (h.div_lt (Nat.sub_lt hlen Nat.one_pos))
  have hlo : (buf.bytes.length - 1) * E.tritsPerByte ≤ buf.len - 1 := by
    rw [Nat.sub_one_mul]
    have := h.lt_len
    omega
  have hhi : buf.len - 1 < (buf.bytes.length - 1 + 1) * E.tritsPerByte := by
    rw [Nat.sub_add_cancel hk]
    have := h.len_le
    omega
  exact ⟨hk, Nat.div_eq_of_lt_le hlo hhi⟩

/-- The trits of a buffer with trit `j` written. -/
theorem view_setTrit (h : E.Inv buf) {j : Nat} (hj : j < buf.len) (trit : Btrit) :
    E.view ⟨E.setTrit buf.bytes j trit, buf.len⟩ = (E.view buf).set j trit := by
  apply List.ext_getElem (by simp [view])
  intro i h₁ h₂
  simp only [view, List.getElem_map, List.getElem_range, List.getElem_set]
  rw [tritAt_setTrit h.valid (h.div_lt hj)]
  by_cases hij : i = j
  · rw [if_pos hij, if_pos hij.symm]
  · rw [if_neg hij, if_neg (Ne.symm hij)]

theorem Inv.setTrit (h : E.Inv buf) {j : Nat} (hj : j < buf.len) (trit : Btrit) :
    E.Inv ⟨E.setTrit buf.bytes j trit, buf.len⟩ where
  len_le := by
    rw [Packing.setTrit, List.length_set]
    exact h.len_le
  lt_len := by
    rw [Packing.setTrit, List.length_set]
    exact h.lt_len
  valid := isValid_setTrit h.valid (h.div_lt hj) trit

end Buffers

/-! #### `push` and `pop` -/

section PushPop

variable {buf : PackedBuf}

/-- Two multiples of `n` less than `n` apart are equal. -/
private theorem mul_eq_of_mod_eq_zero {n k len : Nat} (hn : 0 < n) (hmod : len % n = 0)
    (h₁ : len ≤ k * n) (h₂ : k * n < len + n) : k * n = len := by
  obtain ⟨q, rfl⟩ : ∃ q, len = q * n :=
    ⟨len / n, (Nat.div_mul_cancel (Nat.dvd_of_mod_eq_zero hmod)).symm⟩
  have hle : q ≤ k := Nat.le_of_mul_le_mul_right h₁ hn
  have hlt : k < q + 1 := Nat.lt_of_mul_lt_mul_right (by rw [Nat.add_one_mul]; exact h₂)
  rw [show k = q by omega]

/-- Writing to the last byte is writing at its index. -/
theorem updateLast_eq_set (f : Int → Int) :
    ∀ l : List Int, updateLast f l = l.set (l.length - 1) (f (l.getD (l.length - 1) 0))
  | [] => rfl
  | [x] => rfl
  | x :: y :: l => by
    show x :: updateLast f (y :: l) = _
    rw [updateLast_eq_set f (y :: l),
      show (x :: y :: l).length - 1 = (y :: l).length - 1 + 1 by simp, List.set_cons_succ,
      List.getD_cons_succ]

/-- `push` writes the new trit at index `len`: in a zero byte it appends when `len` starts a
byte, else in the last byte. -/
theorem push_eq_setTrit (h : E.Inv buf) (trit : Btrit) :
    ∃ bytes₀ : List Int, (∀ j < buf.len, E.tritAt bytes₀ j = E.tritAt buf.bytes j) ∧
      E.Inv ⟨bytes₀, buf.len + 1⟩ ∧ E.push buf trit = ⟨E.setTrit bytes₀ buf.len trit, buf.len + 1⟩ := by
  have hn := E.tritsPerByte_pos
  have hle := h.len_le
  have hlt := h.lt_len
  by_cases hmod : buf.len % E.tritsPerByte = 0
  · -- a new byte: the bytes fill exactly `len` trits
    have hfull := mul_eq_of_mod_eq_zero hn hmod hle hlt
    have hdiv : buf.len / E.tritsPerByte = buf.bytes.length := by
      rw [← hfull, Nat.mul_div_cancel _ hn]
    refine ⟨buf.bytes ++ [0], fun j hj => tritAt_append _ (h.div_lt hj), ⟨?_, ?_, ?_⟩, ?_⟩
    · dsimp only
      rw [List.length_append, List.length_singleton, Nat.add_one_mul]
      omega
    · dsimp only
      rw [List.length_append, List.length_singleton, Nat.add_one_mul]
      omega
    · intro b hb
      rcases List.mem_append.mp hb with hb | hb
      · exact h.valid b hb
      · rw [List.mem_singleton.mp hb]
        exact isValid_zero
    · rw [push, if_pos hmod, setTrit, hdiv, hmod, List.getD_append_right _ _ _ _ (le_refl _),
        Nat.sub_self, List.set_append_right _ _ (le_refl _), Nat.sub_self]
      rfl
  · -- the last byte: `len` lies within it
    have hne : buf.len ≠ buf.bytes.length * E.tritsPerByte := by
      intro heq
      rw [heq, Nat.mul_mod_left] at hmod
      exact hmod rfl
    have hk : 0 < buf.bytes.length := by
      rcases Nat.eq_zero_or_pos buf.bytes.length with h0 | h0
      · -- no byte: no trit, and `0` starts a byte
        rw [h0, Nat.zero_mul, Nat.le_zero] at hle
        rw [hle, Nat.zero_mod] at hmod
        exact absurd rfl hmod
      · exact h0
    have hdiv : buf.len / E.tritsPerByte = buf.bytes.length - 1 := by
      apply Nat.div_eq_of_lt_le
      · rw [Nat.sub_one_mul]
        omega
      · rw [Nat.sub_add_cancel hk]
        omega
    refine ⟨buf.bytes, fun j _ => rfl, ⟨by dsimp only; omega, by dsimp only; omega, h.valid⟩, ?_⟩
    rw [push, if_neg hmod, updateLast_eq_set, setTrit, hdiv]

/-- `push` keeps the invariant and appends the trit. -/
theorem push_view (h : E.Inv buf) (trit : Btrit) :
    E.Inv (E.push buf trit) ∧ E.view (E.push buf trit) = E.view buf ++ [trit] := by
  obtain ⟨bytes₀, hsame, hinv₀, hpush⟩ := push_eq_setTrit h trit
  have hlen : buf.len < buf.len + 1 := Nat.lt_succ_self _
  refine ⟨hpush ▸ hinv₀.setTrit hlen trit, ?_⟩
  rw [hpush, view_setTrit hinv₀ hlen, view, view, List.range_succ, List.map_append, List.map_singleton]
  have hbefore : (List.range buf.len).map (E.tritAt bytes₀) = (List.range buf.len).map (E.tritAt buf.bytes) :=
    List.map_congr_left fun j hj => hsame j (List.mem_range.mp hj)
  rw [hbefore, List.set_append_right _ _ (by simp), List.length_map, List.length_range, Nat.sub_self]
  rfl

/-- `pop` keeps the invariant and takes the last trit off: the byte goes with its first digit,
and otherwise keeps the digit popped, which the next `push` overwrites. -/
theorem pop_view (hn : 2 ≤ E.tritsPerByte) (h : E.Inv buf) :
    ∃ buf', E.pop buf = some ((E.view buf).getLast?, buf') ∧ E.Inv buf' ∧
      E.view buf' = (E.view buf).dropLast := by
  by_cases hlen : buf.len = 0
  · refine ⟨buf, ?_, h, ?_⟩
    · rw [pop, if_pos hlen, view, hlen]
      rfl
    · rw [view, hlen]
      rfl
  have hpos : 0 < buf.len := Nat.pos_of_ne_zero hlen
  obtain ⟨hk, hlast⟩ := h.last hpos
  have hview : E.view buf = (List.range (buf.len - 1)).map (E.tritAt buf.bytes) ++
      [E.tritAt buf.bytes (buf.len - 1)] := by
    rw [view]
    nth_rewrite 1 [show buf.len = buf.len - 1 + 1 by omega]
    rw [List.range_succ, List.map_append, List.map_singleton]
  have hgetLast : buf.bytes.getLast? = some (buf.bytes.getD (buf.bytes.length - 1) 0) := by
    rw [List.getLast?_eq_getElem?, List.getD_eq_getElem?_getD, List.getElem?_eq_getElem (by omega),
      Option.getD_some]
  rw [hview, List.getLast?_concat, List.dropLast_concat]
  by_cases hmod : buf.len % E.tritsPerByte = 1
  · -- the last trit is the first digit of the last byte, which goes
    have hmod' : (buf.len - 1) % E.tritsPerByte = 0 :=
      Nat.sub_mod_eq_zero_of_mod_eq (by rw [hmod, Nat.mod_eq_of_lt (by omega)])
    have hfull : (buf.bytes.length - 1) * E.tritsPerByte = buf.len - 1 := by
      have := Nat.div_add_mod (buf.len - 1) E.tritsPerByte
      rw [hlast, hmod', Nat.add_zero, Nat.mul_comm] at this
      exact this
    have hne : buf.bytes ≠ [] := List.ne_nil_of_length_pos hk
    have hdrop : ∀ j < buf.len - 1, E.tritAt buf.bytes.dropLast j = E.tritAt buf.bytes j := by
      intro j hj
      have hj' : j / E.tritsPerByte < buf.bytes.dropLast.length := by
        rw [List.length_dropLast, Nat.div_lt_iff_lt_mul (by omega)]
        omega
      rw [← tritAt_append [buf.bytes.getLast hne] hj', List.dropLast_append_getLast hne]
    refine ⟨⟨buf.bytes.dropLast, buf.len - 1⟩, ?_, ⟨?_, ?_, ?_⟩, ?_⟩
    · rw [pop, if_neg hlen, if_pos hmod, hgetLast, Option.map_some, tritAt, hlast, hmod']
    · dsimp only
      rw [List.length_dropLast, hfull]
    · dsimp only
      rw [List.length_dropLast, hfull]
      omega
    · exact fun b hb => h.valid b (List.mem_of_mem_dropLast hb)
    · exact List.map_congr_left fun j hj => hdrop j (List.mem_range.mp hj)
  · -- the last byte stays, with the popped digit in it
    have hne : buf.bytes.length * E.tritsPerByte ≠ buf.len - 1 + E.tritsPerByte := by
      intro heq
      have h0 : (buf.len - 1) % E.tritsPerByte = 0 := by
        rw [← Nat.add_mod_right, ← heq, Nat.mul_mod_left]
      apply hmod
      rw [show buf.len = buf.len - 1 + 1 by omega, Nat.add_mod, h0, Nat.zero_add, Nat.mod_mod,
        Nat.mod_eq_of_lt (by omega)]
    have hlt := h.lt_len
    have hle := h.len_le
    refine ⟨⟨buf.bytes, buf.len - 1⟩, ?_, ⟨by dsimp only; omega, by dsimp only; omega, h.valid⟩, rfl⟩
    rw [pop, if_neg hlen, if_neg hmod, hgetLast, Option.map_some, tritAt, hlast,
      show buf.len + E.tritsPerByte - 1 = buf.len - 1 + E.tritsPerByte by omega, Nat.add_mod_right]

end PushPop

/-- A popped digit stays in its byte: three `+1`s fill the byte `13` of `T3B1`, and after a
`pop` it still holds the third. -/
example : T3B1.encoding.run PackedBuf.new [.push .plusOne, .push .plusOne, .push .plusOne, .pop] =
    some ([none, none, none, some .plusOne], ⟨[13], 2⟩) := by
  decide

/-- `TnB1` is lawful for `n ≥ 2`: its buffers stand for lists of trits. -/
theorem lawful (hn : 2 ≤ E.tritsPerByte) : E.encoding.Lawful E.Inv E.view E.base where
  push _ trit h := push_view h trit
  pop _ h := pop_view hn h
  asSlice buf := by
    refine ⟨?_, ?_⟩
    · show E.base (E.make 0 0 buf.len) = 0
      rw [base, lenOffset_make]
      simp [make]
    · show (E.lenOffset (E.make 0 0 buf.len)).1 = (E.view buf).length
      rw [lenOffset_make, view, List.length_map, List.length_range]
  slice s start stop := base_sliceUnchecked s start stop
  get buf s index h hj := by
    have hlen : E.base s + index < buf.len := by simpa [view] using hj
    show E.getUnchecked buf s index = _
    rw [getUnchecked_eq (h.div_lt hlen), List.getD_eq_getElem _ _ hj]
    simp only [view, List.getElem_map, List.getElem_range]
  set buf s index trit h hj := by
    have hlen : E.base s + index < buf.len := by simpa [view] using hj
    exact ⟨_, setUnchecked_eq trit (h.div_lt hlen), h.setTrit hlen trit, view_setTrit h hlen trit⟩

/-- What a run from an empty `TnB1Buf` does: what it does on the empty list of trits, with only
valid bytes stored. -/
def Refines (E : Packing) (ops : List BufOp) : Prop :=
  E.encoding.RefinesList PackedBuf.new [] ops ∧
    ∀ r, E.encoding.run PackedBuf.new ops = some r → ∀ b ∈ r.2.bytes, E.isValid b = true

theorem inv_new : E.Inv PackedBuf.new :=
  ⟨Nat.zero_le _, by simpa [PackedBuf.new] using E.tritsPerByte_pos, by simp [PackedBuf.new]⟩

theorem refines (hn : 2 ≤ E.tritsPerByte) (ops : List BufOp) : E.Refines ops := by
  have hrun := (lawful hn).run_iter ops inv_new
  obtain ⟨-, hinv⟩ := (lawful hn).run_view ops inv_new
  exact ⟨hrun, fun r hr => (hinv r hr).valid⟩

end Packing

/-! ### `T1B1` -/

/-- A `Trits<T1B1>` slice: the trit it points at and its length. -/
structure T1B1Slice where
  ptr : Nat
  len : Nat

/-- The `RawEncoding` of `T1B1<Btrit>`: `T1B1Buf` is a `Vec<Btrit>`, whose `push` and `pop`
are the vector's, and `make(ptr, offset, len)` points at trit `offset`; a write outside the
vector is `none`. -/
def t1b1 : RawEncoding (List Btrit) T1B1Slice where
  len s := s.len
  getUnchecked trits s index := trits[s.ptr + index]?
  setUnchecked trits s index trit :=
    if s.ptr + index < trits.length then some (trits.set (s.ptr + index) trit) else none
  sliceUnchecked s start stop := ⟨s.ptr + start, stop - start⟩
  push trits trit := trits ++ [trit]
  pop trits := some (trits.getLast?, trits.dropLast)
  asSlice trits := ⟨0, trits.length⟩

/-- `T1B1` is lawful: a buffer is its list of trits, and a slice starts at its pointer. -/
theorem t1b1_lawful : t1b1.Lawful (fun _ => True) id T1B1Slice.ptr where
  push _ _ _ := ⟨trivial, rfl⟩
  pop trits _ := ⟨trits.dropLast, rfl, trivial, rfl⟩
  asSlice _ := ⟨rfl, rfl⟩
  slice _ _ _ := ⟨rfl, rfl⟩
  get trits s index _ h := by
    have h' : s.ptr + index < trits.length := h
    show trits[s.ptr + index]? = some (trits.getD (s.ptr + index) .zero)
    rw [List.getElem?_eq_getElem h', List.getD_eq_getElem _ _ h']
  set _ _ _ _ _ h := ⟨_, if_pos h, trivial, rfl⟩

/-- Every sequence of `push`, `pop`, `set` and `set` through a sub-slice on an empty buffer of
`T2B1`, `T3B1`, `T4B1`, `T5B1` or `T1B1` does what it does on the empty list of trits, and the
`TnB1` buffers store only valid bytes. -/
theorem trit_buffers_refine_lists (ops : List BufOp) :
    T2B1.Refines ops ∧ T3B1.Refines ops ∧ T4B1.Refines ops ∧ T5B1.Refines ops ∧
      t1b1.RefinesList [] [] ops :=
  ⟨Packing.refines (by decide) ops, Packing.refines (by decide) ops, Packing.refines (by decide) ops,
    Packing.refines (by decide) ops, t1b1_lawful.run_iter ops trivial⟩

end Bee.Ternary
