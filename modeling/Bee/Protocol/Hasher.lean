import Bee.Protocol.Peer
import Bee.Lib.Window

namespace Bee

/-!
# bee-protocol — the block hasher and its hash cache

Every block packet a peer sends goes to the hasher worker (`block/hasher.rs`), which drops a
packet whose bytes it has let through recently and sends the others, with their
proof-of-work score, to the processor.  What it has let through is a `HashCache`
(`block/hash_cache.rs`): the `xx_hash` of the bytes of the last `max_capacity` packets, in a
set for the lookup and in a queue for the order of eviction.

* `HashCache.insert` — `HashCache::insert`: `false` for a hash held; otherwise the oldest hash
  is evicted once `max_capacity` are held and the new one is added; `none` where
  `pop_front().unwrap()` panics;
* `HasherWorker.handle`, `HasherWorker.run` — the hasher's loop over the packets it receives;
* `HashCache.ofRecent` — the cache that holds a window of `Window.recent`, and
  `HashCache.insert_ofRecent` — `insert` moves it as `Window.step` moves the window;
* `HasherWorker.run_new` — the hasher sends on exactly the packets `Window.keep` keeps from its
  stream, counts the others as known, and holds the hashes of the last `max_capacity` it sent;
  it panics at its first packet with a capacity of zero, and at a kept packet under eight bytes,
  which `pow.score` cannot score;
* `HasherWorker.run_cache_inv` — over every run the cache's set and queue hold the same hashes,
  each once and at most `max_capacity` of them;
* `HasherWorker.run_forwarded_spaced` — no packet sent to the processor has the hash of one of
  the `max_capacity` sent just before it.

The hash `xx_hash` is a parameter.  Of the proof-of-work score only its panic below eight bytes
is kept: its value only the processor reads.
-/

/-- `HashCache`: the hashes let through, in a set (`cache`) and, oldest first, in a queue
(`elem_order`). -/
structure HashCache where
  maxCapacity : Nat
  cache : Finset UInt64
  elemOrder : List UInt64
  deriving DecidableEq

namespace HashCache

/-- `HashCache::new`. -/
def new (maxCapacity : Nat) : HashCache := ⟨maxCapacity, ∅, []⟩

/-- `HashCache::contains`. -/
def contains (c : HashCache) (hash : UInt64) : Bool := decide (hash ∈ c.cache)

/-- `let first = self.elem_order.pop_front().unwrap(); self.cache.remove(&first);`: `none`
where the queue is empty. -/
def evictFirst (c : HashCache) : Option HashCache :=
  match c.elemOrder with
  | [] => none
  | first :: rest => some { c with cache := c.cache.erase first, elemOrder := rest }

/-- `if self.cache.len() >= self.max_capacity { .. }`: the oldest hash is evicted from a full
cache. -/
def makeRoom (c : HashCache) : Option HashCache :=
  if c.cache.card ≥ c.maxCapacity then c.evictFirst else some c

/-- `HashCache::insert` of `bytes`, with `xx_hash` given. -/
def insert (xxHash : List UInt8 → UInt64) (c : HashCache) (bytes : List UInt8) :
    Option (HashCache × Bool) :=
  let hash := xxHash bytes
  if c.contains hash then some (c, false)
  else do
    let c ← c.makeRoom
    pure ({ c with cache := Insert.insert hash c.cache, elemOrder := c.elemOrder ++ [hash] }, true)

/-- The cache's invariant: the set and the queue hold the same hashes, each once, and at most
`max_capacity` of them. -/
structure Inv (c : HashCache) : Prop where
  cache_eq : c.cache = c.elemOrder.toFinset
  nodup : c.elemOrder.Nodup
  length_le : c.elemOrder.length ≤ c.maxCapacity

/-- The cache that holds the hashes `recent`, oldest first. -/
def ofRecent (maxCapacity : Nat) (recent : List UInt64) : HashCache :=
  ⟨maxCapacity, recent.toFinset, recent⟩

@[simp] theorem maxCapacity_ofRecent (maxCapacity : Nat) (recent : List UInt64) :
    (ofRecent maxCapacity recent).maxCapacity = maxCapacity := rfl

@[simp] theorem elemOrder_ofRecent (maxCapacity : Nat) (recent : List UInt64) :
    (ofRecent maxCapacity recent).elemOrder = recent := rfl

@[simp] theorem cache_ofRecent (maxCapacity : Nat) (recent : List UInt64) :
    (ofRecent maxCapacity recent).cache = recent.toFinset := rfl

theorem new_eq_ofRecent (maxCapacity : Nat) : new maxCapacity = ofRecent maxCapacity [] := rfl

/-! ### The cache moves as the window does -/

section Window

variable {β : Type} {key : β → UInt64}

theorem inv_ofRecent {maxCapacity : Nat} {kept : List β}
    (hnodup : (Window.recent maxCapacity key kept).Nodup) :
    (ofRecent maxCapacity (Window.recent maxCapacity key kept)).Inv where
  cache_eq := rfl
  nodup := hnodup
  length_le := Window.length_recent_le kept

/-- Before a new hash goes in, the cache of the last `n + 1` keys drops its oldest once it
holds `n + 1`, and so holds the last `n`; with fewer it holds them already. -/
theorem makeRoom_ofRecent (n : Nat) {kept : List β}
    (hnodup : (Window.recent (n + 1) key kept).Nodup) :
    (ofRecent (n + 1) (Window.recent (n + 1) key kept)).makeRoom =
      some (ofRecent (n + 1) (Window.recent n key kept)) := by
  have hlen : (Window.recent (n + 1) key kept).length = min (n + 1) kept.length :=
    Window.length_recent kept
  rw [makeRoom, cache_ofRecent, maxCapacity_ofRecent, List.toFinset_card_of_nodup hnodup]
  split
  · -- `n + 1` held: the queue's first goes, and the rest is the window of `n`
    rename_i hfull
    have hkept : n < kept.length := by omega
    have htail : (Window.recent (n + 1) key kept).tail = Window.recent n key kept :=
      Window.recent_tail hkept
    obtain ⟨first, rest, hfr⟩ : ∃ first rest, Window.recent (n + 1) key kept = first :: rest :=
      List.exists_cons_of_ne_nil (List.ne_nil_of_length_pos (by omega))
    rw [hfr, List.tail_cons] at htail
    rw [hfr] at hnodup
    rw [hfr, ← htail]
    simp only [evictFirst, ofRecent, List.toFinset_cons,
      Finset.erase_insert (List.mem_toFinset.not.mpr (List.nodup_cons.mp hnodup).1)]
  · -- fewer held: the windows of `n` and `n + 1` are all the keys
    rename_i hfree
    have hkept : kept.length ≤ n := by omega
    rw [Window.recent_of_length_le hkept, Window.recent_of_length_le (by omega : kept.length ≤ n + 1)]

end Window

/-- The dedup key of a block packet: the `xx_hash` of its bytes. -/
def hashOf (xxHash : List UInt8 → UInt64) (blockPacket : BlockPacket) : UInt64 :=
  xxHash blockPacket.bytes

/-- `insert` on the cache of the last `n + 1` packets kept answers whether the window admits
the packet, and leaves the cache of the window after it. -/
theorem insert_ofRecent (xxHash : List UInt8 → UInt64) (n : Nat) {kept : List BlockPacket}
    (hnodup : (Window.recent (n + 1) (hashOf xxHash) kept).Nodup) (x : BlockPacket) :
    (ofRecent (n + 1) (Window.recent (n + 1) (hashOf xxHash) kept)).insert xxHash x.bytes =
      some (ofRecent (n + 1) (Window.recent (n + 1) (hashOf xxHash)
          (Window.step (n + 1) (hashOf xxHash) kept x)),
        Window.admits (n + 1) (hashOf xxHash) kept x) := by
  have hkey : hashOf xxHash x = xxHash x.bytes := rfl
  by_cases hx : hashOf xxHash x ∈ Window.recent (n + 1) (hashOf xxHash) kept
  · -- a hash held: the cache stays
    have hadm : Window.admits (n + 1) (hashOf xxHash) kept x = false := by
      simpa [Window.admits] using hx
    rw [hkey] at hx
    simp [insert, contains, hx, Window.step, hadm]
  · -- a new hash: the oldest is evicted if need be, and the hash goes in last
    have hadm : Window.admits (n + 1) (hashOf xxHash) kept x = true :=
      Window.admits_eq_true_iff.mpr hx
    rw [hkey] at hx
    rw [Window.step, if_pos hadm, Window.recent_append_singleton, hadm]
    simp only [insert, contains, cache_ofRecent, List.mem_toFinset, hx, decide_false,
      Bool.false_eq_true, if_false, makeRoom_ofRecent n hnodup, Option.bind_eq_bind,
      Option.bind_some, Option.pure_def]
    simp only [ofRecent, List.toFinset_append, List.toFinset_cons, List.toFinset_nil,
      Finset.insert_empty, hkey]
    rw [Finset.union_comm, ← Finset.insert_eq]

end HashCache

/-- The hasher worker over a run: its cache, the block packets it sent to the processor, and
how many it counted as already received (`known_blocks_inc`). -/
structure HasherWorker where
  cache : HashCache
  forwarded : List BlockPacket
  knownBlocks : Nat
  deriving DecidableEq

namespace HasherWorker

/-- The worker as it starts, with the configured `block_worker_cache`. -/
def new (blockWorkerCache : Nat) : HasherWorker := ⟨HashCache.new blockWorkerCache, [], 0⟩

/-- The loop's body for the block packet of one `HasherWorkerEvent`: a packet already received
is counted and skipped; another is scored and sent to the processor.  `pow.score` panics on
fewer than eight bytes, where `PoWScorer::hash` computes `bytes.len() - size_of::<u64>()`; the
score itself, which only the processor reads, is left out. -/
def handle (xxHash : List UInt8 → UInt64) (w : HasherWorker) (blockPacket : BlockPacket) :
    Option HasherWorker := do
  let (cache, fresh) ← w.cache.insert xxHash blockPacket.bytes
  if fresh then
    if blockPacket.bytes.length < 8 then none
    else pure { w with cache, forwarded := w.forwarded ++ [blockPacket] }
  else pure { w with cache, knownBlocks := w.knownBlocks + 1 }

/-- `while let Some(HasherWorkerEvent { .. }) = receiver.next().await`, over the block packets
received. -/
def run (xxHash : List UInt8 → UInt64) (w : HasherWorker) (blockPackets : List BlockPacket) :
    Option HasherWorker :=
  blockPackets.foldlM (handle xxHash) w

/-- Whether every packet the window filter keeps from the stream can be scored. -/
def allScored (xxHash : List UInt8 → UInt64) (blockWorkerCache : Nat)
    (blockPackets : List BlockPacket) : Bool :=
  (Window.keep blockWorkerCache (HashCache.hashOf xxHash) blockPackets).all fun p =>
    decide (8 ≤ p.bytes.length)

/-- The worker after the stream `blockPackets` from `new blockWorkerCache`, as the window
filter gives it: the packets kept sent on, the others counted, the cache that of the window. -/
def ofStream (xxHash : List UInt8 → UInt64) (blockWorkerCache : Nat)
    (blockPackets : List BlockPacket) : HasherWorker :=
  let forwarded := Window.keep blockWorkerCache (HashCache.hashOf xxHash) blockPackets
  { cache := HashCache.ofRecent blockWorkerCache
      (Window.recent blockWorkerCache (HashCache.hashOf xxHash) forwarded)
    forwarded
    knownBlocks := blockPackets.length - forwarded.length }

section Stream

variable (xxHash : List UInt8 → UInt64)

/-- A packet the window admits is scored and sent on, or panics the scorer; one it does not
admit is counted. -/
theorem handle_ofStream (n : Nat) (xs : List BlockPacket) (x : BlockPacket) :
    (ofStream xxHash (n + 1) xs).handle xxHash x =
      if Window.admits (n + 1) (HashCache.hashOf xxHash)
          (Window.keep (n + 1) (HashCache.hashOf xxHash) xs) x = true ∧ x.bytes.length < 8
      then none else some (ofStream xxHash (n + 1) (xs ++ [x])) := by
  have hnodup : (Window.recent (n + 1) (HashCache.hashOf xxHash)
      (Window.keep (n + 1) (HashCache.hashOf xxHash) xs)).Nodup := Window.nodup_recent_keep xs
  have hsub : (Window.keep (n + 1) (HashCache.hashOf xxHash) xs).length ≤ xs.length :=
    (Window.keep_sublist xs).length_le
  have hins := HashCache.insert_ofRecent xxHash n hnodup x
  simp only [ofStream] at hins ⊢
  simp only [handle, hins, Option.bind_eq_bind, Option.bind_some, Window.keep_append_singleton,
    List.length_append, List.length_singleton]
  -- the packet is sent on exactly when the window admits it, and scored then
  cases hadm : Window.admits (n + 1) (HashCache.hashOf xxHash)
      (Window.keep (n + 1) (HashCache.hashOf xxHash) xs) x
  · simp only [Window.step, hadm, Bool.false_eq_true, if_false, false_and, Option.pure_def,
      Option.some.injEq]
    congr 1
    omega
  · by_cases hshort : x.bytes.length < 8
    · simp only [hshort, and_self, if_true]
    · simp only [Window.step, hadm, hshort, if_true, if_false, and_false, Option.pure_def,
        List.length_append, List.length_singleton, Option.some.injEq]
      congr 1
      omega

/-- The filter only ever appends: what it keeps from a stream it keeps from any longer one. -/
theorem keep_isPrefix_append (n : Nat) (xs ys : List BlockPacket) :
    Window.keep n (HashCache.hashOf xxHash) xs <+: Window.keep n (HashCache.hashOf xxHash) (xs ++ ys) := by
  induction ys using List.reverseRecOn with
  | nil => rw [List.append_nil]
  | append_singleton ys y ih =>
    rw [← List.append_assoc, Window.keep_append_singleton, Window.step]
    split
    · exact ih.trans (List.prefix_append _ _)
    · exact ih

/-- A packet the window admits must be long enough to score. -/
theorem allScored_append_singleton (n : Nat) (xs : List BlockPacket) (y : BlockPacket) :
    allScored xxHash n (xs ++ [y]) = (allScored xxHash n xs &&
      (!Window.admits n (HashCache.hashOf xxHash) (Window.keep n (HashCache.hashOf xxHash) xs) y ||
        decide (8 ≤ y.bytes.length))) := by
  rw [allScored, allScored, Window.keep_append_singleton, Window.step]
  split <;> simp [List.all_append, *]

/-- What is scored is scored in every prefix. -/
theorem allScored_of_append {n : Nat} {xs : List BlockPacket} (ys : List BlockPacket)
    (h : allScored xxHash n (xs ++ ys) = true) : allScored xxHash n xs = true := by
  rw [allScored, List.all_eq_true] at h ⊢
  exact fun p hp => h p ((keep_isPrefix_append xxHash n xs ys).subset hp)

/-- From any state of a stream whose kept packets were all scored, the hasher runs through the
rest of the stream to the state of the whole stream, unless it keeps a packet too short to
score. -/
theorem run_ofStream (n : Nat) (xs ys : List BlockPacket) (hxs : allScored xxHash (n + 1) xs = true) :
    (ofStream xxHash (n + 1) xs).run xxHash ys =
      if allScored xxHash (n + 1) (xs ++ ys) = true then some (ofStream xxHash (n + 1) (xs ++ ys))
      else none := by
  induction ys generalizing xs with
  | nil => simp [run, hxs]
  | cons y ys ih =>
    have hstep := handle_ofStream xxHash n xs y
    simp only [run] at ih ⊢
    rw [List.foldlM_cons, hstep]
    by_cases hfail : Window.admits (n + 1) (HashCache.hashOf xxHash)
        (Window.keep (n + 1) (HashCache.hashOf xxHash) xs) y = true ∧ y.bytes.length < 8
    · -- the admitted packet is kept, so the whole stream keeps a packet too short to score
      have hnot : allScored xxHash (n + 1) (xs ++ y :: ys) = false := by
        rw [← List.singleton_append, ← List.append_assoc]
        refine Bool.eq_false_iff.mpr fun h => ?_
        have hxy := allScored_of_append xxHash ys h
        rw [allScored_append_singleton, hfail.1] at hxy
        simp only [Bool.not_true, Bool.false_or, Bool.and_eq_true, decide_eq_true_eq] at hxy
        omega
      rw [if_pos hfail, hnot]
      rfl
    · -- otherwise the stream with the packet is scored so far, and the run goes on
      have hxy : allScored xxHash (n + 1) (xs ++ [y]) = true := by
        rw [allScored_append_singleton, hxs, Bool.true_and, Bool.or_eq_true, Bool.not_eq_true',
          decide_eq_true_eq]
        by_contra hno
        exact hfail ⟨by simpa using (not_or.mp hno).1, by omega⟩
      rw [if_neg hfail, Option.bind_eq_bind, Option.bind_some, ih (xs ++ [y]) hxy,
        List.append_assoc, List.singleton_append]

theorem new_eq_ofStream (blockWorkerCache : Nat) :
    new blockWorkerCache = ofStream xxHash blockWorkerCache [] := by
  simp [new, ofStream, HashCache.new_eq_ofRecent]

/-- With a capacity of zero the first packet finds the cache full and its queue empty. -/
theorem handle_new_zero (x : BlockPacket) : (new 0).handle xxHash x = none := by
  simp [handle, new, HashCache.insert, HashCache.contains, HashCache.new, HashCache.makeRoom,
    HashCache.evictFirst]

theorem run_eq_ofStream (blockWorkerCache : Nat) (hcap : 0 < blockWorkerCache)
    (blockPackets : List BlockPacket) :
    (new blockWorkerCache).run xxHash blockPackets =
      if allScored xxHash blockWorkerCache blockPackets = true then
        some (ofStream xxHash blockWorkerCache blockPackets)
      else none := by
  obtain ⟨n, rfl⟩ := Nat.exists_eq_add_one_of_ne_zero (Nat.pos_iff_ne_zero.mp hcap)
  rw [new_eq_ofStream xxHash, run_ofStream xxHash n [] blockPackets (by simp [allScored]),
    List.nil_append]

/-- A run from the start ends in the state of its stream. -/
theorem eq_ofStream_of_run {blockWorkerCache : Nat} {blockPackets : List BlockPacket}
    {w : HasherWorker} (h : (new blockWorkerCache).run xxHash blockPackets = some w) :
    w = ofStream xxHash blockWorkerCache blockPackets := by
  rcases Nat.eq_zero_or_pos blockWorkerCache with rfl | hcap
  · -- a capacity of zero only gets through a stream without packets
    cases blockPackets with
    | nil => simpa [run, new_eq_ofStream xxHash] using h.symm
    | cons x xs => simp [run, List.foldlM_cons, handle_new_zero] at h
  · rw [run_eq_ofStream xxHash blockWorkerCache hcap] at h
    split at h
    · exact (Option.some.inj h).symm
    · cases h

end Stream

/-! ### Over every run -/

section Run

variable (xxHash : List UInt8 → UInt64)

/-- From its start, the hasher sends on exactly the packets the window filter keeps from its
stream, counts the others as already received, and holds the hashes of the last
`block_worker_cache` it sent on; it panics at its first packet with a capacity of zero, and
at the first packet it keeps with fewer than eight bytes, which it cannot score. -/
theorem run_new (blockWorkerCache : Nat) (blockPackets : List BlockPacket) :
    (new blockWorkerCache).run xxHash blockPackets =
      if (blockWorkerCache = 0 ∧ blockPackets ≠ []) ∨
          ∃ p ∈ Window.keep blockWorkerCache (HashCache.hashOf xxHash) blockPackets,
            p.bytes.length < 8
      then none
      else some (ofStream xxHash blockWorkerCache blockPackets) := by
  rcases Nat.eq_zero_or_pos blockWorkerCache with rfl | hcap
  · cases blockPackets with
    | nil => simp [run, new_eq_ofStream xxHash]
    | cons x xs => simp [run, List.foldlM_cons, handle_new_zero]
  · -- with room in the cache, only a kept packet too short to score stops the run
    have hzero : ¬ (blockWorkerCache = 0 ∧ blockPackets ≠ []) := fun h => by omega
    have hshort : (∃ p ∈ Window.keep blockWorkerCache (HashCache.hashOf xxHash) blockPackets,
        p.bytes.length < 8) ↔ ¬ allScored xxHash blockWorkerCache blockPackets = true := by
      simp [allScored, List.all_eq_true]
    simp only [run_eq_ofStream xxHash blockWorkerCache hcap, or_iff_right hzero, hshort]
    by_cases hs : allScored xxHash blockWorkerCache blockPackets = true
    · rw [if_pos hs, if_neg (not_not.mpr hs)]
    · rw [if_neg hs, if_pos hs]

/-- Over every run, the cache's set and queue hold the same hashes, each once, and at most
`block_worker_cache` of them. -/
theorem run_cache_inv {blockWorkerCache : Nat} {blockPackets : List BlockPacket} {w : HasherWorker}
    (h : (new blockWorkerCache).run xxHash blockPackets = some w) :
    w.cache.Inv ∧ w.cache.maxCapacity = blockWorkerCache := by
  rw [eq_ofStream_of_run xxHash h]
  exact ⟨HashCache.inv_ofRecent (Window.nodup_recent_keep blockPackets), rfl⟩

/-- The bytes' length as the hash, to run the hasher on. -/
def lengthHash (bytes : List UInt8) : UInt64 := bytes.length.toUInt64

/-- Two packets of eight and nine bytes through a cache of one: the second evicts the first. -/
theorem run_cache_inv_evicts :
    (HashCache.ofRecent 1 [9]).Inv ∧ (HashCache.ofRecent 1 [9]).maxCapacity = 1 :=
  @run_cache_inv lengthHash 1 [⟨List.replicate 8 1⟩, ⟨List.replicate 9 2⟩]
    ⟨HashCache.ofRecent 1 [9], [⟨List.replicate 8 1⟩, ⟨List.replicate 9 2⟩], 0⟩ (by decide)

/-- No packet the hasher sends to the processor has the hash of one of the
`block_worker_cache` it sent just before it. -/
theorem run_forwarded_spaced {blockWorkerCache : Nat} {blockPackets : List BlockPacket}
    {w : HasherWorker} (h : (new blockWorkerCache).run xxHash blockPackets = some w)
    {p s : List BlockPacket} {x : BlockPacket} (hw : w.forwarded = p ++ x :: s) :
    xxHash x.bytes ∉ (p.map fun q => xxHash q.bytes).rtake blockWorkerCache := by
  rw [eq_ofStream_of_run xxHash h] at hw
  exact Window.keep_spaced blockPackets hw

/-- A packet comes through again once another has pushed it out of a cache of one. -/
theorem run_forwarded_spaced_again :
    lengthHash (List.replicate 8 1) ∉
      ([⟨List.replicate 8 1⟩, ⟨List.replicate 9 2⟩].map fun q : BlockPacket =>
        lengthHash q.bytes).rtake 1 :=
  @run_forwarded_spaced lengthHash 1
    [⟨List.replicate 8 1⟩, ⟨List.replicate 9 2⟩, ⟨List.replicate 8 1⟩]
    ⟨HashCache.ofRecent 1 [8],
      [⟨List.replicate 8 1⟩, ⟨List.replicate 9 2⟩, ⟨List.replicate 8 1⟩], 0⟩ (by decide)
    [⟨List.replicate 8 1⟩, ⟨List.replicate 9 2⟩] [] ⟨List.replicate 8 1⟩ rfl

-- a fresh packet of one byte panics the scorer
example : (new 1).run lengthHash [⟨[1]⟩] = none := by decide

end Run

end HasherWorker

end Bee
