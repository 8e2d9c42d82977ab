import Bee.Block.Pack

namespace Bee

/-!
# bee-block — hashes, identifiers and signatures

Every identifier the program derives is a Blake2b-256 digest of packed bytes,
and every signature check is an Ed25519 verification.  Both primitives come
from `iota-crypto`, outside this repository; `Crypto` holds them as
parameters, and every definition below takes one.

* `OutputId.hash` — the digest of a packed output id, the id of an alias or
  NFT created by that output (`AliasId::from`, `NftId::from`);
* `ChainId.orFromOutputId` — a null chain id resolved from the output id;
* `RegularTransactionEssence.hash`, `InputsCommitment.new`, `TransactionPayload.id`,
  `MilestoneEssence.hash`, `Block.id`, `networkNameToId` — the digests of the
  packed values;
* `Ed25519Signature.isValid` — the public key hashes to the address and the
  signature verifies.
-/

/-- The cryptographic primitives: the Blake2b-256 digest of a byte string, and
Ed25519 verification of a signature by a public key over a message (`false`
also when the bytes are not a valid public key). -/
structure Crypto where
  blake2b256 : List UInt8 → Bytes 32
  ed25519Verify : Bytes 32 → Bytes 64 → List UInt8 → Bool

/-- A `Crypto` to run the model on: the digest is the first 32 bytes of the
message, zero-padded, and every signature verifies.  The Ed25519 address of a
public key is then the key itself. -/
def Crypto.truncating : Crypto where
  blake2b256 l := ⟨(l ++ List.replicate 32 0).take 32, by simp⟩
  ed25519Verify _ _ _ := true

variable (c : Crypto)

/-- `OutputId::hash`. -/
def OutputId.hash (id : OutputId) : Bytes 32 := c.blake2b256 id.pack

/-- `AliasId::or_from_output_id`: a null alias id is the hash of the output id. -/
def AliasId.orFromOutputId (aliasId : AliasId) (outputId : OutputId) : AliasId :=
  if aliasId.isNull then outputId.hash c else aliasId

/-- `NftId::or_from_output_id`. -/
def NftId.orFromOutputId (nftId : NftId) (outputId : OutputId) : NftId :=
  if nftId.isNull then outputId.hash c else nftId

/-- `ChainId::or_from_output_id`: a null alias or NFT id is derived from the
output id; a foundry id is never null in a valid output and is kept. -/
def ChainId.orFromOutputId (chainId : ChainId) (outputId : OutputId) : ChainId :=
  if !chainId.isNull then chainId
  else
    match chainId with
    | .alias _ => .alias (outputId.hash c)
    | .foundry _ => chainId
    | .nft _ => .nft (outputId.hash c)

/-- `TransactionEssence::hash`. -/
def RegularTransactionEssence.hash (e : RegularTransactionEssence) : Bytes 32 :=
  c.blake2b256 e.packEssence

/-- `InputsCommitment::new`: the digest of the digests of the packed outputs. -/
def InputsCommitment.new (outputs : List Output) : Bytes 32 :=
  c.blake2b256 (outputs.map fun o => (c.blake2b256 o.pack).toList).flatten

/-- `TransactionPayload::id`: the digest of the kind and the packed payload. -/
def TransactionPayload.id (t : TransactionPayload) : TransactionId :=
  c.blake2b256 (Codec.Encoder.u32 6 ++ t.pack)

/-- `MilestoneEssence::hash`. -/
def MilestoneEssence.hash (e : MilestoneEssence) : Bytes 32 := c.blake2b256 e.pack

/-- `MilestonePayload::id`. -/
def MilestonePayload.id (m : MilestonePayload) : MilestoneId := m.essence.hash c

/-- `Block::id`. -/
def Block.id (b : Block) : BlockId := c.blake2b256 b.pack

/-- `network_name_to_id`: the first eight digest bytes, little-endian. -/
def networkNameToId (networkName : List UInt8) : UInt64 :=
  (Word.leNat ((c.blake2b256 networkName).toList.take 8)).toUInt64

/-- `ProtocolParameters::network_id`. -/
def ProtocolParameters.networkId (p : ProtocolParameters) : UInt64 := networkNameToId c p.networkName

/-- `Ed25519Signature::is_valid`: the public key hashes to the address and the
signature verifies over the message. -/
def Ed25519Signature.isValid (s : Ed25519Signature) (message : List UInt8)
    (address : Ed25519Address) : Bool :=
  c.blake2b256 s.publicKey.toList == address && c.ed25519Verify s.publicKey s.signature message

end Bee
