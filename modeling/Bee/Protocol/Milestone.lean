import Bee.Block.Unpack
import Mathlib

namespace Bee

/-!
# bee-protocol — milestone validation

A milestone is accepted when its block's parents are the essence's parents and
`MilestonePayload::validate` accepts its signatures against the public keys the
coordinator configuration makes applicable at the milestone's index.

* `MilestoneKeyManager.new` sorts the key ranges by start (a stable sort; the
  order of `MilestoneKeyRange` compares starts only) and
  `MilestoneKeyManager.getPublicKeys` scans them, stopping at the first range
  that starts after the index.  A range whose start equals its end is open.
* `applicablePublicKeys` states which keys apply at an index without an order:
  `getPublicKeys_new` says the scan of the sorted ranges computes it, for the
  ranges in any order.
* `MilestonePayload.validate` compares hex strings: the keys of the
  configuration with `hex::encode` of each signer's public key.
* `validate` — the milestone payload worker's check.
-/

/-! ### Key ranges -/

/-- `MilestoneKeyRange`: a public key, as configured, and the inclusive range of
milestone indexes it signs. -/
structure MilestoneKeyRange where
  publicKey : String
  start : UInt32
  «end» : UInt32
  deriving DecidableEq

/-- The ranges a key manager holds: sorted by start. -/
structure MilestoneKeyManager where
  minThreshold : Nat
  keyRanges : List MilestoneKeyRange
  sorted : keyRanges.Pairwise (fun a b => a.start ≤ b.start)

/-- `MilestoneKeyManager::new`: `key_ranges.sort()`, stable, by start. -/
def MilestoneKeyManager.new (minThreshold : Nat) (keyRanges : List MilestoneKeyRange) :
    MilestoneKeyManager where
  minThreshold := minThreshold
  keyRanges := keyRanges.mergeSort fun a b => a.start ≤ b.start
  sorted := by
    have h := @List.pairwise_mergeSort _ (fun a b : MilestoneKeyRange => decide (a.start ≤ b.start))
      (fun a b c hab hbc => by simp only [decide_eq_true_eq] at *; exact UInt32.le_trans hab hbc)
      (fun a b => by simp only [Bool.or_eq_true, decide_eq_true_eq]; exact UInt32.le_total a.start b.start)
      keyRanges
    simpa using h

/-- Whether a range applies at an index: it has started, and it has not ended
or is open (start equals end). -/
def MilestoneKeyRange.applies (r : MilestoneKeyRange) (index : UInt32) : Bool :=
  r.start ≤ index && (index ≤ r.«end» || r.start == r.«end»)

/-- The loop of `get_public_keys` over the sorted ranges. -/
def getPublicKeysFrom (index : UInt32) : List MilestoneKeyRange → Finset String
  | [] => ∅
  | r :: rest =>
    if r.start > index then ∅
    else if index ≤ r.«end» || r.start == r.«end» then insert r.publicKey (getPublicKeysFrom index rest)
    else getPublicKeysFrom index rest

/-- `MilestoneKeyManager::get_public_keys`: a `HashSet<String>`. -/
def MilestoneKeyManager.getPublicKeys (km : MilestoneKeyManager) (index : UInt32) : Finset String :=
  getPublicKeysFrom index km.keyRanges

/-- The keys of the ranges that apply at an index, in whatever order the
ranges are configured. -/
def applicablePublicKeys (keyRanges : List MilestoneKeyRange) (index : UInt32) : Finset String :=
  ((keyRanges.filter (·.applies index)).map (·.publicKey)).toFinset

@[simp] theorem applicablePublicKeys_nil (index : UInt32) : applicablePublicKeys [] index = ∅ := rfl

theorem applicablePublicKeys_cons (r : MilestoneKeyRange) (rest : List MilestoneKeyRange) (index : UInt32) :
    applicablePublicKeys (r :: rest) index =
      if r.applies index then insert r.publicKey (applicablePublicKeys rest index)
      else applicablePublicKeys rest index := by
  unfold applicablePublicKeys
  by_cases h : r.applies index <;> simp [h]

/-- No range applies once the ranges start after the index. -/
theorem applicablePublicKeys_of_start_gt {rest : List MilestoneKeyRange} {index : UInt32}
    (h : ∀ r ∈ rest, index < r.start) : applicablePublicKeys rest index = ∅ := by
  unfold applicablePublicKeys
  rw [List.toFinset_eq_empty_iff, List.map_eq_nil_iff, List.filter_eq_nil_iff]
  intro r hr
  simp only [MilestoneKeyRange.applies, Bool.and_eq_true, decide_eq_true_eq, not_and]
  intro hle
  exact absurd (h r hr) (UInt32.not_lt.mpr hle)

/-- The scan stops at the first range that starts after the index; on ranges
sorted by start, every later range starts after it too, so the scan collects
exactly the applicable keys. -/
theorem getPublicKeysFrom_eq {index : UInt32} {ranges : List MilestoneKeyRange}
    (hsorted : ranges.Pairwise (fun a b => a.start ≤ b.start)) :
    getPublicKeysFrom index ranges = applicablePublicKeys ranges index := by
  induction ranges with
  | nil => rfl
  | cons r rest ih =>
    rw [List.pairwise_cons] at hsorted
    rw [getPublicKeysFrom, applicablePublicKeys_cons, ih hsorted.2]
    by_cases hstart : r.start > index
    · -- the break: this range and all later ones start after the index
      have hlater : ∀ r' ∈ rest, index < r'.start :=
        fun r' hr' => UInt32.lt_of_lt_of_le hstart (hsorted.1 r' hr')
      have hr : r.applies index = false := by
        simp [MilestoneKeyRange.applies, UInt32.not_le.mpr hstart]
      rw [if_pos hstart, hr, if_neg Bool.false_ne_true, applicablePublicKeys_of_start_gt hlater]
    · have hle : r.start ≤ index := UInt32.not_lt.mp hstart
      rw [if_neg hstart]
      simp [MilestoneKeyRange.applies, hle]

/-- The keys a key manager returns are the applicable keys of the ranges it was
built from, in any order. -/
theorem getPublicKeys_new (minThreshold : Nat) (keyRanges : List MilestoneKeyRange) (index : UInt32) :
    (MilestoneKeyManager.new minThreshold keyRanges).getPublicKeys index =
      applicablePublicKeys keyRanges index := by
  rw [MilestoneKeyManager.getPublicKeys, getPublicKeysFrom_eq (MilestoneKeyManager.new _ _).sorted]
  unfold applicablePublicKeys
  apply List.toFinset_eq_of_perm
  exact ((List.mergeSort_perm _ _).filter _).map _

/-! ### Hex strings -/

/-- A lowercase hex digit. -/
def hexDigit (n : Nat) : Char := if n < 10 then Char.ofNat (48 + n) else Char.ofNat (87 + n)

/-- `hex::encode`: two lowercase digits per byte, no prefix. -/
def hexEncode (bytes : List UInt8) : String :=
  String.ofList (bytes.flatMap fun b => [hexDigit (b.toNat / 16), hexDigit (b.toNat % 16)])

/-- `prefix_hex::encode`: `0x` and `hex::encode`. -/
def prefixHexEncode (bytes : List UInt8) : String := "0x" ++ hexEncode bytes

/-! ### Validation -/

/-- `MilestoneValidationError`; a public key that is not a valid Ed25519 key
fails as a signature that does not verify (`Crypto.ed25519Verify`). -/
inductive MilestoneValidationError
  | invalidMinThreshold
  | insufficientApplicablePublicKeys (applicable minThreshold : Nat)
  | tooFewSignatures (minThreshold signatures : Nat)
  | unapplicablePublicKey (publicKey : String)
  | invalidSignature (index : Nat) (publicKey : String)
  deriving DecidableEq

variable (c : Crypto)

/-- The loop of `validate` over the signatures, with their index. -/
def verifySignaturesFrom (applicablePublicKeys : Finset String) (essenceHash : Bytes 32) :
    Nat → List Signature → Except MilestoneValidationError Unit
  | _, [] => .ok ()
  | index, .ed25519 s :: rest =>
    if hexEncode s.publicKey.toList ∉ applicablePublicKeys then
      .error (.unapplicablePublicKey (prefixHexEncode s.publicKey.toList))
    else if !c.ed25519Verify s.publicKey s.signature essenceHash.toList then
      .error (.invalidSignature index (prefixHexEncode s.publicKey.toList))
    else verifySignaturesFrom applicablePublicKeys essenceHash (index + 1) rest

/-- `MilestonePayload::validate`.  The source passes the applicable keys as the
`Vec` collected from the key manager's `HashSet`, so its length is the number of
distinct keys and `contains` is membership. -/
def MilestonePayload.validate (m : MilestonePayload) (applicablePublicKeys : Finset String)
    (minThreshold : Nat) : Except MilestoneValidationError Unit :=
  if minThreshold = 0 then .error .invalidMinThreshold
  else if applicablePublicKeys.card < minThreshold then
    .error (.insufficientApplicablePublicKeys applicablePublicKeys.card minThreshold)
  else if m.signatures.length < minThreshold then
    .error (.tooFewSignatures minThreshold m.signatures.length)
  else verifySignaturesFrom c applicablePublicKeys (m.essence.hash c) 0 m.signatures

/-- `MilestoneMetadata`. -/
structure MilestoneMetadata where
  blockId : BlockId
  milestoneId : MilestoneId
  timestamp : UInt32
  deriving DecidableEq

/-- The errors of the milestone payload worker. -/
inductive MilestoneError
  | blockMilestoneParentsMismatch
  | invalidMilestone (error : MilestoneValidationError)
  deriving DecidableEq

/-- `validate` of the milestone payload worker. -/
def validate (blockId : BlockId) (block : Block) (milestone : MilestonePayload)
    (keyManager : MilestoneKeyManager) : Except MilestoneError MilestoneMetadata :=
  if block.parents ≠ milestone.essence.parents then .error .blockMilestoneParentsMismatch
  else
    match milestone.validate c (keyManager.getPublicKeys milestone.essence.index) keyManager.minThreshold with
    | .error e => .error (.invalidMilestone e)
    | .ok () => .ok ⟨blockId, milestone.id c, milestone.essence.timestamp⟩

/-- A signature is by an applicable key and verifies over the message. -/
def Signature.accepted (applicablePublicKeys : Finset String) (message : Bytes 32) : Signature → Prop
  | .ed25519 s => hexEncode s.publicKey.toList ∈ applicablePublicKeys ∧
      c.ed25519Verify s.publicKey s.signature message.toList = true

instance (keys : Finset String) (message : Bytes 32) (sig : Signature) :
    Decidable (sig.accepted c keys message) :=
  match sig with
  | .ed25519 _ => inferInstanceAs (Decidable (_ ∧ _))

theorem verifySignaturesFrom_eq_ok {keys : Finset String} {hash : Bytes 32} :
    ∀ (index : Nat) (sigs : List Signature),
      verifySignaturesFrom c keys hash index sigs = .ok () ↔ ∀ sig ∈ sigs, sig.accepted c keys hash
  | _, [] => by simp [verifySignaturesFrom]
  | index, .ed25519 s :: rest => by
    rw [List.forall_mem_cons, ← verifySignaturesFrom_eq_ok (index + 1) rest]
    by_cases hkey : hexEncode s.publicKey.toList ∈ keys
    · by_cases hverify : c.ed25519Verify s.publicKey s.signature hash.toList = true
      · simp [verifySignaturesFrom, Signature.accepted, hkey, hverify]
      · simp [verifySignaturesFrom, Signature.accepted, hkey, hverify]
    · simp [verifySignaturesFrom, Signature.accepted, hkey]

/-- `MilestonePayload::validate` accepts exactly a positive threshold met by the
applicable keys and by the signatures, every one of them accepted. -/
theorem MilestonePayload.validate_eq_ok (m : MilestonePayload) (keys : Finset String) (minThreshold : Nat) :
    m.validate c keys minThreshold = .ok () ↔
      1 ≤ minThreshold ∧ minThreshold ≤ keys.card ∧ minThreshold ≤ m.signatures.length ∧
        ∀ sig ∈ m.signatures, sig.accepted c keys (m.essence.hash c) := by
  unfold MilestonePayload.validate
  by_cases h0 : minThreshold = 0
  · simp [h0]
  by_cases hkeys : keys.card < minThreshold
  · simp [h0, hkeys]
  by_cases hsigs : m.signatures.length < minThreshold
  · simp [h0, hkeys, hsigs]
  simp only [h0, hkeys, hsigs, if_false, verifySignaturesFrom_eq_ok]
  exact ⟨fun h => ⟨by omega, by omega, by omega, h⟩, fun h => h.2.2.2⟩

theorem validate_eq_ok_iff (blockId : BlockId) (block : Block) (m : MilestonePayload)
    (km : MilestoneKeyManager) :
    (∃ md, validate c blockId block m km = .ok md) ↔
      block.parents = m.essence.parents ∧
        m.validate c (km.getPublicKeys m.essence.index) km.minThreshold = .ok () := by
  unfold validate
  by_cases hparents : block.parents = m.essence.parents
  · simp only [hparents, ne_eq, not_true_eq_false, if_false, true_and]
    split <;> simp_all
  · simp [hparents]

/-- **Milestone acceptance.**  For a milestone in a block that `unpack_strict`
accepted, and a key manager built from ranges in any order, the worker's
`validate` accepts exactly when the parents agree, the threshold is positive,
the applicable keys and the signatures reach it, and every signature is by an
applicable key and verifies over the essence hash; an accepted milestone's
signers are then pairwise distinct. -/
theorem milestone_validate_ok_iff (P : ProtocolParameters) {s : List UInt8} {b : Block}
    {m : MilestonePayload} (hb : Block.unpackStrict P c s = some b) (hm : b.payload = some (.milestone m))
    (minThreshold : Nat) (keyRanges : List MilestoneKeyRange) :
    let keys := applicablePublicKeys keyRanges m.essence.index
    ((∃ md, validate c (b.id c) b m (.new minThreshold keyRanges) = .ok md) ↔
      b.parents = m.essence.parents ∧ 1 ≤ minThreshold ∧ minThreshold ≤ keys.card ∧
        minThreshold ≤ m.signatures.length ∧
        ∀ sig ∈ m.signatures, sig.accepted c keys (m.essence.hash c)) ∧
    (m.signatures.map Signature.publicKey).Nodup := by
  intro keys
  refine ⟨?_, (Block.unpackStrict_milestone_signers P c hb hm).imp Bytes.ne_of_lt⟩
  rw [validate_eq_ok_iff, getPublicKeys_new, MilestonePayload.validate_eq_ok]
  -- the threshold of the manager is the one it was built with
  exact Iff.rfl

/-- A milestone at index 1 signed by the key `2…2`: `receiptMilestone` without
its receipt. -/
def signedMilestone : MilestonePayload :=
  { receiptMilestone with essence := { receiptMilestone.essence with options := ⟨[], by decide, List.Pairwise.nil⟩ } }

/-- The block of `signedMilestone`, with the same parents. -/
def signedMilestoneBlock : Block where
  protocolVersion := PROTOCOL_VERSION
  parents := signedMilestone.essence.parents
  payload := some (.milestone signedMilestone)
  nonce := 0

/-- Two ranges out of order: one from index 5 for another key, then the key
`2…2`, open from index 0. -/
def signedMilestoneRanges : List MilestoneKeyRange :=
  [⟨"0x05", 5, 9⟩, ⟨hexEncode (List.replicate 32 2), 0, 0⟩]

theorem signed_milestone_accepted :
    Block.unpackStrict .default .truncating signedMilestoneBlock.pack = some signedMilestoneBlock ∧
      ∃ md, validate .truncating (signedMilestoneBlock.id .truncating) signedMilestoneBlock signedMilestone
        (.new 1 signedMilestoneRanges) = .ok md := by
  have hb : Block.unpackStrict .default .truncating signedMilestoneBlock.pack = some signedMilestoneBlock := by
    decide +kernel
  refine ⟨hb, (milestone_validate_ok_iff .truncating .default hb rfl 1 signedMilestoneRanges).1.mpr ?_⟩
  decide +kernel

end Bee
