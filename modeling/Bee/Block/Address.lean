import Bee.Lib.Word

namespace Bee

/-!
# bee-block — byte arrays, identifiers and addresses

The fixed-length identifiers of `bee-block` (`[u8; N]` newtypes built by the
`impl_id!` macro), the `OutputId` of a UTXO, the three address kinds and the
Ed25519 signature.  An identifier is a `Bytes n`, a byte list that carries its
length; an `OutputId` carries the bound `0..=127` of its `OutputIndex`, so
that only identifiers `OutputId::new` accepts can be built.
-/

/-- A fixed-length byte array `[u8; n]`. -/
structure Bytes (n : Nat) where
  toList : List UInt8
  length_eq : toList.length = n
  deriving DecidableEq

namespace Bytes

variable {n : Nat}

/-- `null()`: the all-zero identifier. -/
def null (n : Nat) : Bytes n := ⟨List.replicate n 0, List.length_replicate⟩

/-- The array of `n` copies of one byte. -/
def replicate (n : Nat) (b : UInt8) : Bytes n := ⟨List.replicate n b, List.length_replicate⟩

/-- `is_null`: every byte is zero. -/
def isNull (b : Bytes n) : Bool := b.toList.all (· == 0)

/-- Identifiers compare lexicographically, as the derived `Ord` of `[u8; n]` does. -/
instance : LT (Bytes n) := ⟨fun a b => a.toList < b.toList⟩

instance decLt (a b : Bytes n) : Decidable (a < b) :=
  inferInstanceAs (Decidable (a.toList < b.toList))

@[simp] theorem isNull_null : (null n).isNull = true := by
  simp [null, isNull]

end Bytes

/-- `AliasId`, the identifier of an alias chain. -/
abbrev AliasId := Bytes 32
/-- `NftId`, the identifier of an NFT chain. -/
abbrev NftId := Bytes 32
/-- `FoundryId`: alias address (33 bytes), serial number (4) and token scheme kind (1). -/
abbrev FoundryId := Bytes 38
/-- `TokenId`, the foundry identifier a native token is minted by. -/
abbrev TokenId := Bytes 38
/-- `TransactionId`. -/
abbrev TransactionId := Bytes 32
/-- `BlockId`. -/
abbrev BlockId := Bytes 32
/-- `MilestoneId`. -/
abbrev MilestoneId := Bytes 32
/-- `Ed25519Address`, the Blake2b-256 hash of a public key. -/
abbrev Ed25519Address := Bytes 32
/-- `primitive_types::U256`. -/
abbrev U256 := BitVec 256

/-- `OutputIndex`: `BoundedU16<0, 127>`. -/
def OUTPUT_INDEX_MAX : Nat := 127

/-- `OutputId`: the transaction that created an output and the output's index. -/
structure OutputId where
  transactionId : TransactionId
  index : UInt16
  index_le : index.toNat ≤ OUTPUT_INDEX_MAX
  deriving DecidableEq

/-- `OutputId::new`, which rejects an index outside `OUTPUT_INDEX_RANGE`. -/
def OutputId.new (transactionId : TransactionId) (index : UInt16) : Option OutputId :=
  if h : index.toNat ≤ OUTPUT_INDEX_MAX then some ⟨transactionId, index, h⟩ else none

/-- `Address`: an Ed25519 public-key hash, or the address of an alias or NFT chain. -/
inductive Address
  | ed25519 (address : Ed25519Address)
  | alias (aliasId : AliasId)
  | nft (nftId : NftId)
  deriving DecidableEq

namespace Address

/-- `Address::kind`. -/
def kind : Address → UInt8
  | .ed25519 _ => 0
  | .alias _ => 8
  | .nft _ => 16

end Address

/-- `Ed25519Signature`: a public key and a signature over it. -/
structure Ed25519Signature where
  publicKey : Bytes 32
  signature : Bytes 64
  deriving DecidableEq

/-- `Signature`: only the Ed25519 kind exists. -/
inductive Signature
  | ed25519 (signature : Ed25519Signature)
  deriving DecidableEq

end Bee
