import Bee.Pow.Score
import Bee.Lib.Flow

namespace Bee.Pow

open Bee.Ternary

/-!
# bee-pow — the nonce miner

`providers/miner.rs`: `Miner::nonce` runs `num_workers` threads of
`Miner::worker`, each trying nonces from its own start in batches of
`BATCH_SIZE`.  A worker keeps one 243-trit buffer per batch slot: the B1T6
trits of the block's Blake2b-256 digest in front, then, rewritten on every
pass, the B1T6 trits of the slot's nonce, then zeros.

* `Miner.initialBuffers`, `Miner.fillBuffers`, `Miner.workerLoop`,
  `Miner.worker`, `Miner.nonce` — the worker's set-up, one pass over its
  buffers, its `while` loop, the worker, and the provider.  A worker's `fuel` is
  the number of passes it starts before it sees the cancel flag set; the cancel
  flag is how the threads interact, so `Miner.nonce` takes one fuel per worker.
* `Shaped` — the invariant of the worker's buffers: the digest, 48 trits, and
  three zeros.  The set-up establishes it (`initialBuffers_eq`), and a pass keeps
  it and writes into slot `i` exactly the input the scorer builds for the block
  followed by nonce `nonce + i` (`fillBuffers_eq`, `powInput_fillBuffers`).
* `workerLoop_meets` — by induction on the passes, every nonce a worker returns
  meets its target under `PoWScorer::hash`; `nonce_meets` — so does the nonce of
  `Miner::nonce`, unless every worker was cancelled and it returns zero.

`target_zeros` comes from an `f64` logarithm of the length and target score,
which is not modelled: it is an input.
-/

/-- `miner::Error`. -/
inductive Error
  | cancelled
  | invalidPowScore (targetScore : UInt32) (targetZeros : Nat)

namespace Miner

/-- The buffers `Miner::worker` sets up: `BATCH_SIZE` times `HASH_LENGTH` zeros with
the PoW digest copied to the front. -/
def initialBuffers (curl : CurlP) (powDigest : List Btrit) : Option (List (List Btrit)) :=
  (List.range curl.batchSize).mapM fun _ => copyFrom (zeros HASH_LENGTH) 0 powDigest.length powDigest

/-- One pass of the loop over the buffers: slot `i` gets the B1T6 trits of
`(nonce + i).to_le_bytes()` right behind the digest. -/
def fillBuffers (powDigest : List Btrit) (nonce : UInt64) (buffers : List (List Btrit)) :
    Option (List (List Btrit)) :=
  buffers.zipIdx.mapM fun (buffer, i) =>
    let nonceTrits := B1T6.encode (Codec.Encoder.u64 (nonce + i.toUInt64))
    copyFrom buffer powDigest.length (powDigest.length + nonceTrits.length) nonceTrits

/-- The `while` loop of `Miner::worker`: fill the buffers, hash them in a batch, and
return the nonce of the first hash with `target_zeros` trailing zeros, or go on with
the next batch.  After `fuel` passes the cancel flag is seen set. -/
def workerLoop (curl : CurlP) (powDigest : List Btrit) (targetZeros : Nat) :
    Nat → UInt64 → List (List Btrit) → Option (Except Error UInt64)
  | 0, _, _ => some (.error .cancelled)
  | fuel + 1, nonce, buffers => do
    let buffers ← fillBuffers powDigest nonce buffers
    match (buffers.map curl.digest).findIdx? (fun hash => decide (targetZeros ≤ countTrailingZeros hash)) with
    | some i => pure (.ok (nonce + i.toUInt64))
    | none => workerLoop curl powDigest targetZeros fuel (nonce + curl.batchSize.toUInt64) buffers

/-- `Miner::worker`. -/
def worker (curl : CurlP) (powDigest : List Btrit) (startNonce : UInt64) (targetZeros : Nat)
    (fuel : Nat) : Option (Except Error UInt64) := do
  let buffers ← initialBuffers curl powDigest
  workerLoop curl powDigest targetZeros fuel startNonce buffers

/-- One iteration of the join loop of `Miner::nonce`: a worker's nonce replaces the
one kept so far, a cancelled worker is skipped (`continue`). -/
def joinResult (nonce : UInt64) (result : Except Error UInt64) : UInt64 :=
  match result with
  | .ok n => n
  | .error _ => nonce

/-- `Miner::nonce` with one worker per entry of `fuels`: the nonce of the last worker,
in spawn order, that returned one, and zero when none did; `none` for no workers
(`u64::MAX / 0`) or when a worker panics. -/
def nonce (c : Crypto) (curl : CurlP) (bytes : List UInt8) (targetScore : UInt32)
    (targetZeros : Nat) (fuels : List Nat) : Option (Except Error UInt64) :=
  if targetZeros > HASH_LENGTH then some (.error (.invalidPowScore targetScore targetZeros))
  else if fuels.length = 0 then none
  else do
    let workerWidth := UInt64.ofNat (2 ^ 64 - 1) / fuels.length.toUInt64
    let powDigest := B1T6.encode (c.blake2b256 bytes).toList
    let results ← fuels.zipIdx.mapM fun (fuel, i) =>
      worker curl powDigest (i.toUInt64 * workerWidth) targetZeros fuel
    pure (.ok (results.foldl joinResult 0))

end Miner

/-! ### The worker's buffers -/

/-- Every buffer holds the digest, the 48 trits of some nonce (or zeros), and three
zeros. -/
def Shaped (powDigest : List Btrit) (buffers : List (List Btrit)) : Prop :=
  ∀ buffer ∈ buffers, ∃ stale : List Btrit, stale.length = 48 ∧ buffer = powDigest ++ stale ++ zeros 3

/-- The buffer of slot `i` for the nonce `nonce + i`. -/
def slotBuffer (powDigest : List Btrit) (nonce : UInt64) (i : Nat) : List Btrit :=
  powDigest ++ B1T6.encode (Codec.Encoder.u64 (nonce + i.toUInt64)) ++ zeros 3

theorem initialBuffers_eq (curl : CurlP) {powDigest : List Btrit} (hlen : powDigest.length = 192) :
    Miner.initialBuffers curl powDigest =
      some (List.replicate curl.batchSize (powDigest ++ zeros 48 ++ zeros 3)) := by
  -- the zeros split around the digest's place
  have hsplit : zeros HASH_LENGTH = zeros 192 ++ (zeros 48 ++ zeros 3) := by
    rw [← zeros_add, ← zeros_add]
    rfl
  have hcopy : copyFrom (zeros HASH_LENGTH) 0 powDigest.length powDigest =
      some (powDigest ++ zeros 48 ++ zeros 3) := by
    have h := @copyFrom_append Btrit [] (zeros 192) (zeros 48 ++ zeros 3) powDigest
      (by rw [length_zeros, hlen])
    simp only [List.nil_append, List.length_nil, Nat.zero_add] at h
    rw [hsplit, h, List.append_assoc]
  rw [Miner.initialBuffers, Flow.mapM_eq_some_map (g := fun _ => powDigest ++ zeros 48 ++ zeros 3)
    (fun _ _ => hcopy), List.map_const', List.length_range]

theorem shaped_replicate (powDigest : List Btrit) (n : Nat) :
    Shaped powDigest (List.replicate n (powDigest ++ zeros 48 ++ zeros 3)) := by
  intro buffer hb
  exact ⟨zeros 48, length_zeros 48, List.eq_of_mem_replicate hb⟩

/-- A pass over shaped buffers writes each slot's nonce into its place. -/
theorem fillBuffers_eq {powDigest : List Btrit} {buffers : List (List Btrit)}
    (hshape : Shaped powDigest buffers) (nonce : UInt64) :
    Miner.fillBuffers powDigest nonce buffers =
      some ((List.range buffers.length).map (slotBuffer powDigest nonce)) := by
  rw [Miner.fillBuffers, Flow.mapM_eq_some_map (g := fun p => slotBuffer powDigest nonce p.2)]
  · rw [List.range_eq_range', ← List.zipIdx_map_snd 0 buffers, List.map_map]
    rfl
  · -- the copy replaces the stale trits, whatever nonce they came from
    rintro ⟨buffer, i⟩ hmem
    obtain ⟨stale, hstale, rfl⟩ := hshape buffer (List.fst_mem_of_mem_zipIdx hmem)
    exact copyFrom_append (by rw [hstale, length_encode_u64])

theorem shaped_slotBuffers (powDigest : List Btrit) (nonce : UInt64) (n : Nat) :
    Shaped powDigest ((List.range n).map (slotBuffer powDigest nonce)) := by
  intro buffer hb
  obtain ⟨i, -, rfl⟩ := List.mem_map.mp hb
  exact ⟨_, length_encode_u64 _, rfl⟩

section Block

variable (c : Crypto) (curl : CurlP) (bytes : List UInt8)

/-- The slot buffer for a block's digest is the scorer's input for the block and the
slot's nonce. -/
theorem powInput_slotBuffer (nonce : UInt64) (i : Nat) :
    PoWScorer.powInput c (bytes ++ Codec.Encoder.u64 (nonce + i.toUInt64)) =
      some (slotBuffer (B1T6.encode (c.blake2b256 bytes).toList) nonce i) :=
  powInput_append_u64 c bytes _

/-- Every nonce the worker's loop returns meets the target under the scorer, from any
shaped buffers. -/
theorem workerLoop_meets {targetZeros : Nat} :
    ∀ {fuel : Nat} {nonce n : UInt64} {buffers : List (List Btrit)},
      Shaped (B1T6.encode (c.blake2b256 bytes).toList) buffers →
      Miner.workerLoop curl (B1T6.encode (c.blake2b256 bytes).toList) targetZeros fuel nonce buffers =
        some (.ok n) →
      ∃ hash, PoWScorer.hash c curl (bytes ++ Codec.Encoder.u64 n) = some hash ∧
        targetZeros ≤ countTrailingZeros hash
  | 0, _, _, _, _, h => by simp [Miner.workerLoop] at h
  | fuel + 1, nonce, n, buffers, hshape, h => by
    rw [Miner.workerLoop, fillBuffers_eq hshape, Option.bind_eq_bind, Option.bind_some] at h
    split at h
    · -- the slot found first: its buffer is the scorer's input for the returned nonce
      rename_i i hfind
      obtain ⟨hi, hmeets, -⟩ := List.findIdx?_eq_some_iff_getElem.mp hfind
      have hn : nonce + i.toUInt64 = n := by
        simp only [pure, Except.ok.injEq, Option.some.injEq] at h
        exact h
      subst hn
      have hi' : i < buffers.length := by simpa using hi
      refine ⟨curl.digest (slotBuffer (B1T6.encode (c.blake2b256 bytes).toList) nonce i), ?_, ?_⟩
      · rw [PoWScorer.hash, powInput_slotBuffer]
        rfl
      · simpa [List.getElem_map, List.getElem_range] using hmeets
    · -- no slot meets the target: the next pass starts from the buffers just filled
      exact workerLoop_meets (shaped_slotBuffers _ _ _) h

/-- Every nonce a worker returns meets its target under the scorer. -/
theorem worker_meets {startNonce n : UInt64} {targetZeros fuel : Nat}
    (h : Miner.worker curl (B1T6.encode (c.blake2b256 bytes).toList) startNonce targetZeros fuel =
      some (.ok n)) :
    ∃ hash, PoWScorer.hash c curl (bytes ++ Codec.Encoder.u64 n) = some hash ∧
      targetZeros ≤ countTrailingZeros hash := by
  rw [Miner.worker, initialBuffers_eq curl (length_encode_blake2b256 c bytes), Option.bind_eq_bind,
    Option.bind_some] at h
  exact workerLoop_meets c curl bytes (shaped_replicate _ _) h

/-- The joined nonce is the initial one or one that a worker returned. -/
theorem foldl_joinResult : ∀ (results : List (Except Error UInt64)) (init : UInt64),
    results.foldl Miner.joinResult init = init ∨ .ok (results.foldl Miner.joinResult init) ∈ results
  | [], _ => Or.inl rfl
  | .ok n :: rest, _ => by
    rcases foldl_joinResult rest n with h | h
    · exact Or.inr (by rw [List.foldl_cons, Miner.joinResult, h]; exact List.mem_cons_self)
    · exact Or.inr (List.mem_cons_of_mem _ h)
  | .error e :: rest, init => by
    rcases foldl_joinResult rest init with h | h
    · exact Or.inl h
    · exact Or.inr (List.mem_cons_of_mem _ h)

/-- The nonce `Miner::nonce` returns meets the target, unless it is the zero left when
every worker was cancelled. -/
theorem nonce_meets {targetScore : UInt32} {targetZeros : Nat} {fuels : List Nat} {n : UInt64}
    (h : Miner.nonce c curl bytes targetScore targetZeros fuels = some (.ok n)) :
    (∃ hash, PoWScorer.hash c curl (bytes ++ Codec.Encoder.u64 n) = some hash ∧
      targetZeros ≤ countTrailingZeros hash) ∨ n = 0 := by
  unfold Miner.nonce at h
  split_ifs at h with htarget hnil
  · -- a target beyond the hash length is an error, not a nonce
    cases h
  dsimp only at h
  simp only [Option.bind_eq_bind, Option.bind_eq_some_iff, Option.pure_def, Option.some.injEq,
    Except.ok.injEq] at h
  obtain ⟨results, hresults, rfl⟩ := h
  rcases foldl_joinResult results 0 with h0 | hmem
  · exact Or.inr h0
  · -- the nonce came from a worker, which only returns nonces that meet the target
    obtain ⟨⟨fuel, i⟩, -, hworker⟩ :=
      Flow.exists_of_forall₂_of_mem_right (Flow.forall₂_of_mapM_eq_some hresults) hmem
    exact Or.inl (worker_meets c curl bytes hworker)

theorem miner_scorer_same_input :
    (∃ buffers, Miner.initialBuffers curl (B1T6.encode (c.blake2b256 bytes).toList) = some buffers ∧
      Shaped (B1T6.encode (c.blake2b256 bytes).toList) buffers) ∧
    (∀ (nonce : UInt64) (buffers : List (List Btrit)),
      Shaped (B1T6.encode (c.blake2b256 bytes).toList) buffers →
      ∃ hashed, Miner.fillBuffers (B1T6.encode (c.blake2b256 bytes).toList) nonce buffers = some hashed ∧
        Shaped (B1T6.encode (c.blake2b256 bytes).toList) hashed ∧
        ∀ (i : Nat) (hi : i < hashed.length),
          hashed[i] = slotBuffer (B1T6.encode (c.blake2b256 bytes).toList) nonce i ∧
          PoWScorer.powInput c (bytes ++ Codec.Encoder.u64 (nonce + i.toUInt64)) = some hashed[i]) ∧
    (∀ (startNonce n : UInt64) (targetZeros fuel : Nat),
      Miner.worker curl (B1T6.encode (c.blake2b256 bytes).toList) startNonce targetZeros fuel =
        some (.ok n) →
      ∃ hash, PoWScorer.hash c curl (bytes ++ Codec.Encoder.u64 n) = some hash ∧
        targetZeros ≤ countTrailingZeros hash) ∧
    (∀ (targetScore : UInt32) (targetZeros : Nat) (fuels : List Nat) (n : UInt64),
      Miner.nonce c curl bytes targetScore targetZeros fuels = some (.ok n) →
      (∃ hash, PoWScorer.hash c curl (bytes ++ Codec.Encoder.u64 n) = some hash ∧
        targetZeros ≤ countTrailingZeros hash) ∨ n = 0) := by
  refine ⟨⟨_, initialBuffers_eq curl (length_encode_blake2b256 c bytes), shaped_replicate _ _⟩,
    fun nonce buffers hshape => ⟨_, fillBuffers_eq hshape nonce, shaped_slotBuffers _ _ _, fun i hi => ?_⟩,
    fun _ _ _ _ h => worker_meets c curl bytes h, fun _ _ _ _ h => nonce_meets c curl bytes h⟩
  have hslot : ((List.range buffers.length).map (slotBuffer (B1T6.encode (c.blake2b256 bytes).toList) nonce))[i] =
      slotBuffer (B1T6.encode (c.blake2b256 bytes).toList) nonce i := by
    simp
  exact ⟨hslot, hslot ▸ powInput_slotBuffer c bytes nonce i⟩

end Block

end Bee.Pow
