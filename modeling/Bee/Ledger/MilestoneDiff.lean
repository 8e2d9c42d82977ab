import Bee.Ledger.Types
import Bee.Protocol.Milestone
import Bee.Lib.AssocMap
import Bee.Lib.Flow

namespace Bee

open Codec AssocMap

/-!
# bee-ledger-types — the milestone diff of a snapshot

`snapshot/milestone_diff.rs`: a delta snapshot records, milestone by milestone,
the milestone payload, the treasury output a receipt consumed, and the outputs
the milestone created and consumed.  `MilestoneDiff::pack` writes the milestone
behind a `u32` length prefix, and `MilestoneDiff::unpack` checks that prefix
against the milestone it reads.

* `CreatedOutput.pack`, `CreatedOutput.unpack` — the derived codec of a created
  output: block id, milestone index and timestamp, output;
* `MilestoneDiff.pack`, `MilestoneDiff.unpack` — the codec of the diff; a
  consumed output is stored as its created output and the consuming
  transaction, and rebuilt with the milestone's index and timestamp;
* `MilestoneDiff.unpack_eq_ok` — what a successful `unpack` has read: the
  prefix, a milestone payload, and a prefix equal to the milestone's length
  plus `size_of_val(&KIND)`, four;
* `milestone_diff_unpack_pack_mismatch` — `pack` writes the length plus the
  value of `KIND`, seven, so nothing `unpack` returns from the bytes of a diff
  carries that diff's milestone.
-/

/-- `MilestonePayload::KIND`. -/
def MilestonePayload.KIND : UInt32 := 7

/-- `CreatedOutput::pack`: the fields in order. -/
def CreatedOutput.pack (o : CreatedOutput) : List UInt8 :=
  o.blockId.toList ++ Encoder.u32 o.milestoneIndex ++ Encoder.u32 o.milestoneTimestamp ++ o.inner.pack

/-- `CreatedOutput::unpack`. -/
def CreatedOutput.unpack (P : ProtocolParameters) : Decoder CreatedOutput := fun s => do
  let (blockId, s) ← Bytes.unpack 32 s
  let (milestoneIndex, s) ← Decoder.u32 s
  let (milestoneTimestamp, s) ← Decoder.u32 s
  let (inner, s) ← Output.unpack P s
  pure (⟨blockId, milestoneIndex, milestoneTimestamp, inner⟩, s)

/-- `MilestoneDiff`. -/
structure MilestoneDiff where
  milestone : MilestonePayload
  consumedTreasury : Option (TreasuryOutput × MilestoneId)
  createdOutputs : Map OutputId CreatedOutput
  consumedOutputs : Map OutputId (CreatedOutput × ConsumedOutput)

namespace MilestoneDiff

/-- The errors of `MilestoneDiff::unpack`; the error of an inner `unpack` is `unpack`. -/
inductive Error
  | unpack
  | invalidPayloadKind (kind : UInt32)
  | milestoneLengthMismatch (milestoneLen expected : Nat)
  | invalidTreasuryOutputAmount (amount : UInt64)

/-- `MilestoneDiff::pack`; `none` at the `unreachable!()` of a receipt without a consumed
treasury. -/
def pack (d : MilestoneDiff) : Option (List UInt8) := do
  let treasury ← (if d.milestone.essence.options.receipt.isSome then
      match d.consumedTreasury with
      | some (treasuryOutput, milestoneId) => some (milestoneId.toList ++ Encoder.u64 treasuryOutput.amount)
      | none => none
    else some [])
  pure (Encoder.u32 (d.milestone.pack.length.toUInt32 + MilestonePayload.KIND) ++
    Encoder.u32 MilestonePayload.KIND ++ d.milestone.pack ++ treasury ++
    Encoder.u64 d.createdOutputs.entries.length.toUInt64 ++
    (d.createdOutputs.entries.map fun e => e.1.pack ++ e.2.pack).flatten ++
    Encoder.u64 d.consumedOutputs.entries.length.toUInt64 ++
    (d.consumedOutputs.entries.map fun e => e.1.pack ++ e.2.1.pack ++ e.2.2.target.toList).flatten)

/-- The `?` on an inner `unpack`. -/
def orUnpack {α : Type} (o : Option α) : Except Error α :=
  match o with
  | some a => .ok a
  | none => .error .unpack

/-- The `for _ in 0..count` loops of `unpack`: `count` entries in turn. -/
def unpackMany {α : Type} (entry : List UInt8 → Except Error (α × List UInt8)) :
    Nat → List UInt8 → Except Error (List α × List UInt8)
  | 0, s => .ok ([], s)
  | count + 1, s => do
    let (a, s) ← entry s
    let (rest, s) ← unpackMany entry count s
    pure (a :: rest, s)

variable (P : ProtocolParameters) (c : Crypto)

/-- `MilestoneDiff::unpack::<_, true>`. -/
def unpack (s : List UInt8) : Except Error (MilestoneDiff × List UInt8) := do
  let (milestoneLen, s) ← orUnpack (Decoder.u32 s)
  let (payload, s) ← orUnpack (Payload.unpack P c s)
  match payload with
  | .milestone milestone =>
    if milestoneLen.toNat ≠ milestone.pack.length + 4 then
      throw (.milestoneLengthMismatch milestoneLen.toNat (milestone.pack.length + 4))
    else do
      let (consumedTreasury, s) ← (if milestone.essence.options.receipt.isSome then do
          let (milestoneId, s) ← orUnpack (Bytes.unpack 32 s)
          let (amount, s) ← orUnpack (Decoder.u64 s)
          -- `TreasuryOutput::new(amount, token_supply)`
          if amount ≤ P.tokenSupply then pure (some (⟨amount⟩, milestoneId), s)
          else throw (.invalidTreasuryOutputAmount amount)
        else pure (none, s))
      let (createdCount, s) ← orUnpack (Decoder.u64 s)
      let (created, s) ← unpackMany (fun s => do
          let (outputId, s) ← orUnpack (OutputId.unpack s)
          let (createdOutput, s) ← orUnpack (CreatedOutput.unpack P s)
          pure ((outputId, createdOutput), s)) (UInt64.toNat createdCount) s
      let (consumedCount, s) ← orUnpack (Decoder.u64 s)
      let (consumed, s) ← unpackMany (fun s => do
          let (outputId, s) ← orUnpack (OutputId.unpack s)
          let (createdOutput, s) ← orUnpack (CreatedOutput.unpack P s)
          let (target, s) ← orUnpack (Bytes.unpack 32 s)
          pure ((outputId, (createdOutput,
            ConsumedOutput.mk target milestone.essence.index milestone.essence.timestamp)), s))
        (UInt64.toNat consumedCount) s
      pure (⟨milestone, consumedTreasury, collect created, collect consumed⟩, s)
  | _ => throw (.invalidPayloadKind payload.kind)

theorem orUnpack_eq_ok {α : Type} {o : Option α} {a : α} : orUnpack o = .ok a ↔ o = some a := by
  cases o <;> simp [orUnpack]

/-- What a successful `unpack` has read: the prefix, then a milestone payload whose length
plus four is the prefix, and which is the milestone of the result. -/
theorem unpack_eq_ok {s : List UInt8} {r : MilestoneDiff × List UInt8} (h : unpack P c s = .ok r) :
    ∃ milestoneLen s₁ s₂, Decoder.u32 s = some (milestoneLen, s₁) ∧
      Payload.unpack P c s₁ = some (.milestone r.1.milestone, s₂) ∧
      milestoneLen.toNat = r.1.milestone.pack.length + 4 := by
  unfold unpack at h
  obtain ⟨⟨milestoneLen, s₁⟩, hu, h⟩ := Flow.bind_eq_ok.mp h
  obtain ⟨⟨payload, s₂⟩, hp, h⟩ := Flow.bind_eq_ok.mp h
  cases payload with
  | milestone m =>
    dsimp only at h
    by_cases hlen : milestoneLen.toNat = m.pack.length + 4
    · rw [if_neg (not_not.mpr hlen)] at h
      -- the treasury, the two counts and the two loops keep the milestone
      obtain ⟨⟨_, _⟩, -, h⟩ := Flow.bind_eq_ok.mp h
      obtain ⟨⟨_, _⟩, -, h⟩ := Flow.bind_eq_ok.mp h
      obtain ⟨⟨_, _⟩, -, h⟩ := Flow.bind_eq_ok.mp h
      obtain ⟨⟨_, _⟩, -, h⟩ := Flow.bind_eq_ok.mp h
      obtain ⟨⟨_, _⟩, -, h⟩ := Flow.bind_eq_ok.mp h
      cases h
      exact ⟨milestoneLen, s₁, s₂, orUnpack_eq_ok.mp hu, orUnpack_eq_ok.mp hp, hlen⟩
    · rw [if_pos hlen] at h
      cases h
  | _ => cases h

/-- Where the prefix read is not the milestone's length plus four, `unpack` stops with the
mismatch of the two. -/
theorem unpack_eq_error_of_mismatch {s s₁ s₂ : List UInt8} {milestoneLen : UInt32}
    {m : MilestonePayload} (hu : Decoder.u32 s = some (milestoneLen, s₁))
    (hp : Payload.unpack P c s₁ = some (.milestone m, s₂)) (hne : milestoneLen.toNat ≠ m.pack.length + 4) :
    unpack P c s = .error (.milestoneLengthMismatch milestoneLen.toNat (m.pack.length + 4)) := by
  unfold unpack
  simp only [hu, orUnpack, Flow.ok_bind]
  simp only [hp, Flow.ok_bind]
  exact if_pos hne

/-- The bytes of a packed diff start with the `u32` the source writes: the milestone's
length plus `KIND`. -/
theorem pack_eq_some {d : MilestoneDiff} {bytes : List UInt8} (h : d.pack = some bytes) :
    ∃ rest, bytes = Encoder.u32 (d.milestone.pack.length.toUInt32 + MilestonePayload.KIND) ++ rest := by
  unfold pack at h
  obtain ⟨treasury, -, h⟩ := Option.bind_eq_some_iff.mp h
  cases h
  simp only [List.append_assoc]
  exact ⟨_, rfl⟩

/-- The prefix `pack` writes is never the one `unpack` expects, whatever the length: it is
three more, modulo `2 ^ 32`. -/
theorem prefix_toNat_ne (n : Nat) : (n.toUInt32 + MilestonePayload.KIND).toNat ≠ n + 4 := by
  rw [UInt32.toNat_add, Nat.toUInt32_eq, UInt32.toNat_ofNat']
  have hkind : MilestonePayload.KIND.toNat = 7 := rfl
  rw [hkind]
  omega

end MilestoneDiff

/-- The diff of `signedMilestone`, which has no receipt: no treasury, no outputs. -/
def signedDiff : MilestoneDiff := ⟨signedMilestone, none, ∅, ∅⟩

theorem milestone_diff_unpack_pack_mismatch :
    (∀ (P : ProtocolParameters) (c : Crypto) (d : MilestoneDiff) (rest : List UInt8),
      d.pack.map (MilestoneDiff.unpack P c) ≠ some (.ok (d, rest))) ∧
    ∃ bytes, signedDiff.pack = some bytes ∧
      MilestoneDiff.unpack .default .truncating bytes =
        .error (.milestoneLengthMismatch (signedMilestone.pack.length + 7) (signedMilestone.pack.length + 4)) := by
  refine ⟨fun P c d rest h => ?_, ?_⟩
  · obtain ⟨bytes, hpack, hok⟩ := Option.map_eq_some_iff.mp h
    obtain ⟨tail, rfl⟩ := MilestoneDiff.pack_eq_some hpack
    -- `unpack` reads back the prefix `pack` wrote and compares it with length plus four
    obtain ⟨milestoneLen, s₁, -, hu, -, hlen⟩ := MilestoneDiff.unpack_eq_ok P c hok
    rw [Decoder.u32_append] at hu
    obtain ⟨hread, -⟩ := Prod.mk.inj (Option.some.inj hu)
    rw [← hread] at hlen
    exact MilestoneDiff.prefix_toNat_ne _ hlen
  · -- the prefix is read back, then the milestone, which has no receipt
    have hlen : (signedMilestone.pack.length.toUInt32 + MilestonePayload.KIND).toNat =
        signedMilestone.pack.length + 7 := by decide +kernel
    have hp : Payload.unpack .default .truncating
        (Encoder.u32 MilestonePayload.KIND ++ (signedMilestone.pack ++ (Encoder.u64 0 ++ Encoder.u64 0))) =
          some (.milestone signedMilestone, Encoder.u64 0 ++ Encoder.u64 0) := by decide +kernel
    have hpack : signedDiff.pack = some (Encoder.u32 (signedMilestone.pack.length.toUInt32 + MilestonePayload.KIND) ++
        (Encoder.u32 MilestonePayload.KIND ++ (signedMilestone.pack ++ (Encoder.u64 0 ++ Encoder.u64 0)))) := by
      decide +kernel
    refine ⟨_, hpack, ?_⟩
    rw [← hlen]
    exact MilestoneDiff.unpack_eq_error_of_mismatch _ _ (Decoder.u32_append _ _) hp
      (MilestoneDiff.prefix_toNat_ne _)

end Bee
