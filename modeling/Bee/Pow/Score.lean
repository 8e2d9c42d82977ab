import Bee.Block.Crypto
import Bee.Ternary.B1T6
import Bee.Ternary.Slice

namespace Bee.Pow

open Bee.Ternary

/-!
# bee-pow — the Proof of Work hash

`score.rs`: a block's Proof of Work is the CurlP hash of a 243-trit input built
from its bytes, and its score grows with the trailing zero trits of that hash.

* `CurlP` — the ternary hash of `iota-crypto`, a parameter like `Crypto`;
* `countTrailingZeros` — `count_trailing_zeros`;
* `PoWScorer.powInput`, `PoWScorer.hash` — the input `PoWScorer::hash` fills
  (the B1T6 trits of the Blake2b-256 digest of all bytes but the last eight,
  the B1T6 trits of those eight, three `Zero`s) and its CurlP hash;
  `powInput_append_u64` — for a block's bytes followed by a nonce, the input is
  the digest's trits, the nonce's trits and the padding, of 192, 48 and 3 trits.

The scorer's state (the Blake2b hasher it resets, the buffer it clears, the
CurlP sponge) is rebuilt on every call, so `hash` is a function of the bytes.
-/

/-- `HASH_LENGTH`: the trits of a CurlP input block and of a hash. -/
def HASH_LENGTH : Nat := 243

/-- The ternary primitives of `iota-crypto`: `CurlP::digest` of a trit slice, and
`curl_p::BATCH_SIZE`, the number of inputs `CurlPBatchHasher` takes at once; the
batch hasher returns the CurlP digests of its inputs, in order. -/
structure CurlP where
  digest : List Btrit → List Btrit
  batchSize : Nat

/-- `count_trailing_zeros`. -/
def countTrailingZeros (powHash : List Btrit) : Nat :=
  (powHash.reverse.takeWhile (· == .zero)).length

/-- The `pow_input` that `PoWScorer::hash` builds; `none` below eight bytes, where
`bytes.len() - size_of::<u64>()` overflows. -/
def PoWScorer.powInput (c : Crypto) (bytes : List UInt8) : Option (List Btrit) :=
  if bytes.length < 8 then none
  else
    let length := bytes.length - 8
    let (head, tail) := bytes.splitAt length
    some (B1T6.encode (c.blake2b256 head).toList ++ B1T6.encode tail ++ [.zero, .zero, .zero])

/-- `PoWScorer::hash`. -/
def PoWScorer.hash (c : Crypto) (curl : CurlP) (bytes : List UInt8) : Option (List Btrit) :=
  (PoWScorer.powInput c bytes).map curl.digest

theorem length_encode_blake2b256 (c : Crypto) (bytes : List UInt8) :
    (B1T6.encode (c.blake2b256 bytes).toList).length = 192 := by
  rw [B1T6.length_encode, (c.blake2b256 bytes).length_eq, B1T6.TRITS_PER_BYTE]

theorem length_encode_u64 (nonce : UInt64) :
    (B1T6.encode (Codec.Encoder.u64 nonce)).length = 48 := by
  rw [B1T6.length_encode, Codec.Encoder.length_u64, B1T6.TRITS_PER_BYTE]

/-- The scorer's input for a block's bytes followed by a nonce: the digest of the
bytes and the nonce, each as B1T6 trits, and three `Zero`s. -/
theorem powInput_append_u64 (c : Crypto) (bytes : List UInt8) (nonce : UInt64) :
    PoWScorer.powInput c (bytes ++ Codec.Encoder.u64 nonce) =
      some (B1T6.encode (c.blake2b256 bytes).toList ++ B1T6.encode (Codec.Encoder.u64 nonce) ++
        zeros 3) := by
  have hlen : (bytes ++ Codec.Encoder.u64 nonce).length - 8 = bytes.length := by
    simp
  rw [PoWScorer.powInput, if_neg (by simp), hlen]
  dsimp only
  rw [List.splitAt_eq, List.take_left, List.drop_left]
  rfl

end Bee.Pow
