import Bee.Lib.Recency
import Mathlib

namespace Bee

/-!
# bee-autopeering — the peer ring

The active and replacement peer lists are `PeerRing<P, N>`s: a `VecDeque` of
entries, the newest at index `0`, at most `N` of them (`peer/lists.rs`).  An
entry is inserted at the front, evicting the back when the ring is full; a
verified peer is moved to the front by `set_newest_and_get_mut`
(`set_front_and_update` in `peer/mod.rs`); the peer to verify again is the one
at the back (`peer_to_reverify` in `discovery/query.rs`).

The ring is compared with `Recency`, the most-recently-used list it is meant to
be, operation by operation (`Recency.Op`):

* `insert_deque`, `remove_deque`, `removeOldest_deque` — these operations are
  the list's; `setNewestAndGetMut_deque` — a touch is `rotate_left(mid)`;
* `apply_eq_iff` — an operation agrees with the list's exactly when it is not a
  touch of an entry between the newest and the oldest; `run_eq_of_touchesNoMiddle`
  — a run with no such touch is the list's run;
* `run_nodup_length` — ids stay distinct and, for `N > 0`, at most `N` are held.
-/

/-! ### Peers -/

/-- `PeerId`: peers are told apart by the hash of their public key. -/
structure PeerId where
  idBytes : List UInt8
  deriving DecidableEq, Repr

/-- `AsRef<T>`: the view of an entry as a `T`. -/
class AsRef (P : Type) (T : outParam Type) where
  asRef : P → T

/-- `Peer`, by its id: its address and services are read by nothing modelled here. -/
structure Peer where
  peerId : PeerId
  deriving DecidableEq, Repr

/-- `PeerMetrics`, without the verification timestamps. -/
structure PeerMetrics where
  verifiedCount : Nat
  lastNewPeers : Nat
  deriving DecidableEq, Repr

/-- `ActivePeer`: a peer and its metrics. -/
structure ActivePeer where
  peer : Peer
  metrics : PeerMetrics
  deriving DecidableEq, Repr

/-- `ActivePeer::peer_id`. -/
def ActivePeer.peerId (p : ActivePeer) : PeerId := p.peer.peerId

instance : AsRef Peer PeerId := ⟨Peer.peerId⟩

instance : AsRef ActivePeer PeerId := ⟨ActivePeer.peerId⟩

/-! ### The ring -/

/-- `PeerRing<P, N>`: the entries of the `VecDeque`, from index `0`, the newest. -/
structure PeerRing (P : Type) (N : Nat) where
  deque : List P
  deriving DecidableEq, Repr

namespace PeerRing

variable {P : Type} [AsRef P PeerId] {N : Nat}

/-- `Default`: an empty ring. -/
def default : PeerRing P N := ⟨[]⟩

/-- `PeerRing::len`. -/
def len (r : PeerRing P N) : Nat := r.deque.length

/-- `PeerRing::is_full`: `len() >= N`. -/
def isFull (r : PeerRing P N) : Bool := N ≤ r.len

/-- `PeerRing::contains`. -/
def contains (r : PeerRing P N) (peerId : PeerId) : Bool :=
  r.deque.any fun v => AsRef.asRef v == peerId

/-- `PeerRing::find_index`: the position of the first entry with the id. -/
def findIndex (r : PeerRing P N) (peerId : PeerId) : Option Nat :=
  r.deque.findIdx? fun v => AsRef.asRef v == peerId

/-- `PeerRing::remove_oldest`: `pop_back`. -/
def removeOldest (r : PeerRing P N) : Option P × PeerRing P N :=
  (r.deque.getLast?, ⟨r.deque.dropLast⟩)

/-- `PeerRing::insert`: `false` when the id is held; otherwise the oldest entry
is evicted from a full ring and the item pushed to the front. -/
def insert (r : PeerRing P N) (item : P) : Bool × PeerRing P N :=
  if r.contains (AsRef.asRef item) then (false, r)
  else
    let r := if r.isFull then r.removeOldest.2 else r
    (true, ⟨item :: r.deque⟩)

/-- `PeerRing::remove_at`: `VecDeque::remove`, `None` past the end. -/
def removeAt (r : PeerRing P N) (index : Nat) : Option P × PeerRing P N :=
  (r.deque[index]?, ⟨r.deque.eraseIdx index⟩)

/-- `PeerRing::remove`. -/
def remove (r : PeerRing P N) (peerId : PeerId) : Option P × PeerRing P N :=
  match r.findIndex peerId with
  | some index => r.removeAt index
  | none => (none, r)

/-- `PeerRing::set_newest_and_get_mut`: `rotate_left(mid)` brings the entry at
`mid` to index `0` (`mid` is found in the ring, so the rotation does not
panic), and the entry at index `0` is returned. -/
def setNewestAndGetMut (r : PeerRing P N) (peerId : PeerId) : Option P × PeerRing P N :=
  match r.findIndex peerId with
  | some mid =>
    let r : PeerRing P N := if mid > 0 then ⟨r.deque.rotate mid⟩ else r
    (r.deque[0]?, r)
  | none => (none, r)

/-- `PeerRing::get_oldest`: the entry at the back. -/
def getOldest (r : PeerRing P N) : Option P :=
  if r.deque.isEmpty then none else r.deque.getLast?

/-- An operation of `Recency` done by the ring's own method. -/
def apply (r : PeerRing P N) : Recency.Op P PeerId → PeerRing P N
  | .insert item => (r.insert item).2
  | .remove peerId => (r.remove peerId).2
  | .removeOldest => r.removeOldest.2
  | .touch peerId => (r.setNewestAndGetMut peerId).2

/-- A run of operations on the ring. -/
def run (r : PeerRing P N) (ops : List (Recency.Op P PeerId)) : PeerRing P N :=
  ops.foldl apply r

/-- Whether the operation touches an entry that is neither the newest nor the
oldest. -/
def touchesMiddle (r : PeerRing P N) : Recency.Op P PeerId → Bool
  | .touch peerId =>
    match r.findIndex peerId with
    | some mid => 0 < mid && mid + 1 < r.len
    | none => false
  | _ => false

/-- Whether no operation of the run touches an entry between the newest and the
oldest of the ring it is applied to. -/
def touchesNoMiddle : PeerRing P N → List (Recency.Op P PeerId) → Bool
  | _, [] => true
  | r, op :: ops => !r.touchesMiddle op && touchesNoMiddle (r.apply op) ops

/-! ### The ring against the most-recently-used list -/

theorem insert_deque (r : PeerRing P N) (item : P) :
    (r.insert item).2.deque = Recency.insert AsRef.asRef N item r.deque := by
  unfold insert Recency.insert contains
  by_cases hx : r.deque.any (fun v => AsRef.asRef v == AsRef.asRef item)
  · rw [if_pos hx, if_pos hx]
  · rw [if_neg hx, if_neg hx]
    -- the eviction happens on the same condition, `len() >= N`
    by_cases hfull : N ≤ r.deque.length
    · simp [isFull, len, hfull, removeOldest]
    · simp [isFull, len, hfull]

theorem remove_deque (r : PeerRing P N) (peerId : PeerId) :
    (r.remove peerId).2.deque = Recency.remove AsRef.asRef peerId r.deque := by
  unfold remove Recency.remove findIndex
  rw [List.eraseP_eq_eraseIdx]
  cases r.deque.findIdx? (fun v => AsRef.asRef v == peerId) <;> rfl

omit [AsRef P PeerId] in
theorem removeOldest_deque (r : PeerRing P N) :
    r.removeOldest.2.deque = r.deque.dropLast := rfl

/-- A touch rotates the entry found to the front. -/
theorem setNewestAndGetMut_deque (r : PeerRing P N) (peerId : PeerId) :
    (r.setNewestAndGetMut peerId).2.deque =
      match r.findIndex peerId with
      | some mid => r.deque.rotate mid
      | none => r.deque := by
  unfold setNewestAndGetMut
  split
  · split_ifs with hmid
    · rfl
    · -- `mid = 0`: no rotation, and rotating by `0` changes nothing
      rw [Nat.eq_zero_of_not_pos hmid, List.rotate_zero]
  · rfl

/-- Each operation of the ring agrees with the most-recently-used list's
exactly when it is not a touch of an entry between the newest and the oldest. -/
theorem apply_eq_iff (r : PeerRing P N) (op : Recency.Op P PeerId)
    (hn : (r.deque.map AsRef.asRef).Nodup) :
    (r.apply op).deque = Recency.apply AsRef.asRef N op r.deque ↔ r.touchesMiddle op = false := by
  cases op with
  | insert item => simp [apply, Recency.apply, insert_deque, touchesMiddle]
  | remove peerId => simp [apply, Recency.apply, remove_deque, touchesMiddle]
  | removeOldest => simp [apply, Recency.apply, removeOldest_deque, touchesMiddle]
  | touch peerId =>
    simp only [apply, Recency.apply, Recency.touch, setNewestAndGetMut_deque, touchesMiddle]
    unfold findIndex
    cases hf : r.deque.findIdx? (fun v => AsRef.asRef v == peerId) with
    | none => simp
    | some mid =>
      have hmid : mid < r.deque.length := (List.findIdx?_eq_some_iff_getElem.mp hf).1
      simp only
      rw [Recency.rotate_eq_moveToFront_iff (hn.of_map _) hmid, len]
      -- the two agree at the ends, and only there
      simp only [Bool.and_eq_false_iff, decide_eq_false_iff_not, Nat.not_lt]
      omega

/-- A run in which no touch falls between the newest and the oldest entry is
the most-recently-used list's run. -/
theorem run_eq_of_touchesNoMiddle (ops : List (Recency.Op P PeerId)) {r : PeerRing P N}
    {t : Nat} {used : PeerId → Nat} (h : Recency.Recent AsRef.asRef used t r.deque)
    (hm : r.touchesNoMiddle ops = true) :
    (r.run ops).deque = (Recency.run AsRef.asRef N ops t (r.deque, used)).1 := by
  -- induction on the run, with the recency order of the list as the invariant
  induction ops generalizing r t used with
  | nil => rfl
  | cons op ops ih =>
    simp only [touchesNoMiddle, Bool.and_eq_true, Bool.not_eq_true'] at hm
    have hstep := (apply_eq_iff r op h.nodup_keys).mpr hm.1
    have hrec := Recency.recent_apply (n := N) op h
    rw [← hstep] at hrec
    have := ih hrec hm.2
    rw [run, List.foldl_cons, Recency.run, ← hstep]
    exact this

/-! ### Invariants of every run -/

/-- Every operation of the ring keeps ids distinct and, for `N > 0`, at most `N`
entries: a touch only reorders the ring, and the others are the list's. -/
theorem apply_nodup_length (r : PeerRing P N) (op : Recency.Op P PeerId)
    (hn : (r.deque.map AsRef.asRef).Nodup) (hN : 0 < N) (hl : r.len ≤ N) :
    ((r.apply op).deque.map AsRef.asRef).Nodup ∧ (r.apply op).len ≤ N := by
  by_cases hm : r.touchesMiddle op = false
  · rw [len, (apply_eq_iff r op hn).mpr hm]
    exact ⟨Recency.nodup_keys_apply op hn, Recency.length_apply_le hN op hl⟩
  · -- a touch in the middle: a rotation
    cases op with
    | touch peerId =>
      simp only [apply, len, setNewestAndGetMut_deque]
      split
      · rw [List.map_rotate, List.nodup_rotate, List.length_rotate]
        exact ⟨hn, hl⟩
      · exact ⟨hn, hl⟩
    | _ => simp [touchesMiddle] at hm

theorem run_nodup_length (ops : List (Recency.Op P PeerId)) (hN : 0 < N) :
    ((default.run ops : PeerRing P N).deque.map AsRef.asRef).Nodup ∧
      (default.run ops : PeerRing P N).len ≤ N := by
  suffices ∀ r : PeerRing P N, (r.deque.map AsRef.asRef).Nodup → r.len ≤ N →
      ((r.run ops).deque.map AsRef.asRef).Nodup ∧ (r.run ops).len ≤ N from
    this default List.nodup_nil (Nat.zero_le N)
  induction ops with
  | nil => exact fun r hn hl => ⟨hn, hl⟩
  | cons op ops ih =>
    intro r hn hl
    obtain ⟨hn', hl'⟩ := apply_nodup_length r op hn hN hl
    exact ih (r.apply op) hn' hl'

end PeerRing

/-! ### The active peer list -/

/-- `DEFAULT_MAX_MANAGED`: the most peers the active list holds. -/
def DEFAULT_MAX_MANAGED : Nat := 1000

/-- `ActivePeersList`: the ring of active peers, behind its lock. -/
abbrev ActivePeersList := PeerRing ActivePeer DEFAULT_MAX_MANAGED

/-- `set_front_and_update`: move the peer to the front and count one more
verification of it; the new count.  (The response timestamp it also sets is
not modelled.) -/
def setFrontAndUpdate (peerId : PeerId) (activePeers : ActivePeersList) :
    Option Nat × ActivePeersList :=
  match activePeers.setNewestAndGetMut peerId with
  | (some p, r) =>
    let p := { p with metrics := { p.metrics with verifiedCount := p.metrics.verifiedCount + 1 } }
    (some p.metrics.verifiedCount, ⟨r.deque.set 0 p⟩)
  | (none, r) => (none, r)

/-- `peer_to_reverify`: the id of the oldest active peer. -/
def peerToReverify (activePeers : ActivePeersList) : Option PeerId :=
  activePeers.getOldest.map ActivePeer.peerId

/-- An active peer whose id is the byte `i`, verified once. -/
def activePeerWithId (i : UInt8) : ActivePeer := ⟨⟨⟨[i]⟩⟩, ⟨1, 0⟩⟩

/-- Peers `0`, `1` and `2` inserted in turn, then peer `1` verified again. -/
def verifyMiddle : List (Recency.Op ActivePeer PeerId) :=
  [.insert (activePeerWithId 0), .insert (activePeerWithId 1), .insert (activePeerWithId 2),
    .touch ⟨[1]⟩]

/-- The ring agrees with the most-recently-used list except on a touch between
its ends, and keeps ids distinct and at most `N` of them; but a touch between
the ends sends the newer peers behind the older ones, so the peer to verify
again is not the least recently used. -/
theorem peer_ring_move_to_front :
    (∀ (P : Type) [AsRef P PeerId] (N : Nat) (r : PeerRing P N) (op : Recency.Op P PeerId),
      (r.deque.map AsRef.asRef).Nodup →
      ((r.apply op).deque = Recency.apply AsRef.asRef N op r.deque ↔
        r.touchesMiddle op = false)) ∧
    (∀ (P : Type) [AsRef P PeerId] (N : Nat) (r : PeerRing P N)
        (ops : List (Recency.Op P PeerId)) (t : Nat) (used : PeerId → Nat),
      Recency.Recent AsRef.asRef used t r.deque → r.touchesNoMiddle ops = true →
      (r.run ops).deque = (Recency.run AsRef.asRef N ops t (r.deque, used)).1) ∧
    (∀ (P : Type) [AsRef P PeerId] (N : Nat) (ops : List (Recency.Op P PeerId)), 0 < N →
      ((PeerRing.default.run ops : PeerRing P N).deque.map AsRef.asRef).Nodup ∧
        (PeerRing.default.run ops : PeerRing P N).len ≤ N) ∧
    ((PeerRing.default.run verifyMiddle : ActivePeersList).deque.map ActivePeer.peerId =
        [⟨[1]⟩, ⟨[0]⟩, ⟨[2]⟩] ∧
      (Recency.run AsRef.asRef DEFAULT_MAX_MANAGED verifyMiddle 1 ([], fun _ => 0)).1.map
        ActivePeer.peerId = [⟨[1]⟩, ⟨[2]⟩, ⟨[0]⟩] ∧
      peerToReverify (PeerRing.default.run verifyMiddle) = some ⟨[2]⟩ ∧
      (Recency.run AsRef.asRef DEFAULT_MAX_MANAGED verifyMiddle 1 ([], fun _ => 0)).2 ⟨[0]⟩ <
        (Recency.run AsRef.asRef DEFAULT_MAX_MANAGED verifyMiddle 1 ([], fun _ => 0)).2 ⟨[2]⟩) := by
  refine ⟨fun P _ N r op hn => PeerRing.apply_eq_iff r op hn,
    fun P _ N r ops t used h hm => PeerRing.run_eq_of_touchesNoMiddle ops h hm,
    fun P _ N ops hN => PeerRing.run_nodup_length ops hN, ?_⟩
  -- the run: `rotate_left(1)` of `[2, 1, 0]` is `[1, 0, 2]`, moving to the front `[1, 2, 0]`
  decide

end Bee
