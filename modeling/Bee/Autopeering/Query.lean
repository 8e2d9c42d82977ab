import Bee.Autopeering.PeerRing
import Bee.Lib.Heaviest
import Mathlib

namespace Bee

/-!
# bee-autopeering — choosing the peers to query

`select_peers_to_query` (`discovery/query.rs`) queries the newest verified peer
and one of the three verified peers that returned the most new peers when last
queried.  It finds those three in one pass: a fold over the other verified
peers that keeps three slots, the heaviest last, by a ten-arm match.

* `heaviestStep` — one step of the fold, arm by arm;
* `FoldInv` — the slots are filled from the first, in ascending
  `last_new_peers`, and hold the heaviest peers seen (`Heaviest.IsHeaviest`);
  `heaviestStep_inv` — each step keeps it, and `heaviest3_inv` — so does the
  whole fold;
* `selectPeersToQuery_eq` — with three verified peers or more, every draw of
  the random index finds a peer in its slot.
-/

open Heaviest

/-- `last_new_peers` of an active peer: the weight the fold compares. -/
def ActivePeer.lastNewPeers (p : ActivePeer) : Nat := p.metrics.lastNewPeers

/-- `get_verified_peers`: the active peers verified at least once, newest first. -/
def getVerifiedPeers (activePeers : ActivePeersList) : List ActivePeer :=
  activePeers.deque.filter fun p => decide (p.metrics.verifiedCount > 0)

/-- The three slots of the fold. -/
abbrev Heaviest3 := Option ActivePeer × Option ActivePeer × Option ActivePeer

namespace Heaviest3

/-- The slot the random index `r` picks: `match r { 0 => .0, 1 => .1, 2 => .2 }`;
any other index is `unreachable!()`. -/
def slot (h : Heaviest3) : Nat → Option ActivePeer
  | 0 => h.1
  | 1 => h.2.1
  | 2 => h.2.2
  | _ => none

/-- The peers the slots hold, from the first slot. -/
def slots (h : Heaviest3) : List ActivePeer := [h.1, h.2.1, h.2.2].filterMap id

end Heaviest3

/-- One step of the fold in `select_peers_to_query`, arm by arm.  The guards of
the arms `set 2nd` and `shift-right + set 1st` (on an empty second slot) are
each other's negation, as are those of the three arms on an empty third slot;
so the later arms only see filled slots, every `num!` unwraps a peer, and the
arms nest as below. -/
def heaviestStep (acc : Heaviest3) (p : ActivePeer) : Heaviest3 :=
  let n := p.lastNewPeers
  match acc with
  -- set 1st
  | (none, y, z) => (some p, y, z)
  -- shift-right + set 1st, or set 2nd
  | (some t, none, z) => if n < t.lastNewPeers then (some p, some t, z) else (some t, some p, z)
  -- shift-right + shift-right + set 1st, shift-right + set 1st, or set 3rd
  | (some s, some t, none) =>
    if n < s.lastNewPeers then (some p, some s, some t)
    else if n < t.lastNewPeers then (some s, some p, some t)
    else (some s, some t, some p)
  -- no-op, set 1st, shift-left + set 2nd, or shift-left + shift-left + set 3rd
  | (some s, some t, some u) =>
    if n < s.lastNewPeers then (some s, some t, some u)
    else if n < t.lastNewPeers then (some p, some t, some u)
    else if n < u.lastNewPeers then (some t, some p, some u)
    else (some t, some u, some p)

/-- The fold over the verified peers after the newest, from three empty slots. -/
def heaviest3 (verifPeers : List ActivePeer) : Heaviest3 :=
  verifPeers.foldl heaviestStep (none, none, none)

/-- `thread_rng().gen_range(0..len)`, for the random word `r` it draws from;
an empty range panics. -/
def genRange (r len : Nat) : Option Nat := if 0 < len then some (r % len) else none

/-- `select_peers_to_query`, with `r` the random word of `gen_range`; `none` is
a panic. -/
def selectPeersToQuery (activePeers : ActivePeersList) (r : Nat) : Option (List PeerId) :=
  let verifPeers := getVerifiedPeers activePeers
  -- fewer than three verified peers are all queried
  if verifPeers.length < 3 then some (verifPeers.map ActivePeer.peerId)
  else
    -- `verif_peers.remove(0)`: the newest verified peer, and the others
    match verifPeers with
    | [] => none
    | latest :: rest => do
      let len := min rest.length 3
      let heaviest ← (heaviest3 rest).slot (← genRange r len)
      pure [latest.peerId, heaviest.peerId]

/-! ### The fold keeps the three heaviest -/

namespace Heaviest3

/-- The slots are filled from the first, in ascending `last_new_peers`. -/
def Ascending : Heaviest3 → Prop
  | (none, none, none) => True
  | (some _, none, none) => True
  | (some x, some y, none) => x.lastNewPeers ≤ y.lastNewPeers
  | (some x, some y, some z) => x.lastNewPeers ≤ y.lastNewPeers ∧ y.lastNewPeers ≤ z.lastNewPeers
  | _ => False

/-- Ascending slots hold their peers in ascending order. -/
theorem Ascending.pairwise {h : Heaviest3} (ha : h.Ascending) :
    h.slots.Pairwise fun a b => a.lastNewPeers ≤ b.lastNewPeers := by
  rcases h with ⟨_ | x, _ | y, _ | z⟩ <;> simp only [Ascending] at ha <;> simp [slots]
  · exact ha
  · exact ⟨⟨ha.1, ha.1.trans ha.2⟩, ha.2⟩

/-- Every slot before the last filled one holds a peer. -/
theorem Ascending.slot_isSome {h : Heaviest3} (ha : h.Ascending) {i : Nat}
    (hi : i < h.slots.length) : (h.slot i).isSome := by
  -- the filled slots come first: a gap is not ascending
  rcases h with ⟨_ | x, _ | y, _ | z⟩ <;> simp only [Ascending] at ha
  · simp [slots] at hi
  · have hi1 : i = 0 := by simpa [slots] using hi
    subst hi1
    rfl
  · have hi2 : i < 2 := by simpa [slots] using hi
    interval_cases i <;> rfl
  · have hi3 : i < 3 := by simpa [slots] using hi
    interval_cases i <;> rfl

theorem mem_slots_of_slot {h : Heaviest3} {i : Nat} {p : ActivePeer} (hs : h.slot i = some p) :
    p ∈ h.slots := by
  rcases h with ⟨x, y, z⟩
  rcases i with _ | _ | _ | i <;> simp_all [slot, slots]

end Heaviest3

/-- What the fold keeps over the peers `l` it has passed: ascending slots that
hold the heaviest of them. -/
structure FoldInv (l : List ActivePeer) (acc : Heaviest3) : Prop where
  ascending : acc.Ascending
  heaviest : IsHeaviest ActivePeer.lastNewPeers 3 ↑l ↑acc.slots

theorem foldInv_nil : FoldInv [] (none, none, none) :=
  ⟨trivial, isHeaviest_zero _ 3⟩

/-- One step of the fold keeps the slots ascending and the heaviest: each arm
keeps the new peer while a slot is empty, passes it by when it is the
lightest, or lets it replace the first slot's peer. -/
theorem heaviestStep_inv {l : List ActivePeer} {acc : Heaviest3} (p : ActivePeer)
    (h : FoldInv l acc) : FoldInv (l ++ [p]) (heaviestStep acc p) := by
  obtain ⟨ha, hh⟩ := h
  rcases acc with ⟨_ | x, _ | y, _ | z⟩ <;> simp only [Heaviest3.Ascending] at ha
  · -- no slot filled
    exact ⟨trivial, hh.append_keep (by simp [Heaviest3.slots]) (List.Perm.refl _)⟩
  · -- the first slot filled
    simp only [heaviestStep]
    by_cases hpx : p.lastNewPeers < x.lastNewPeers
    · rw [if_pos hpx]
      exact ⟨hpx.le, hh.append_keep (by simp [Heaviest3.slots]) (List.perm_append_singleton p [x])⟩
    · rw [if_neg hpx]
      exact ⟨Nat.le_of_not_lt hpx, hh.append_keep (by simp [Heaviest3.slots]) (List.Perm.refl _)⟩
  · -- two slots filled
    simp only [heaviestStep]
    by_cases hpx : p.lastNewPeers < x.lastNewPeers
    · rw [if_pos hpx]
      exact ⟨⟨hpx.le, ha⟩,
        hh.append_keep (by simp [Heaviest3.slots]) (List.perm_append_singleton p [x, y])⟩
    · rw [if_neg hpx]
      by_cases hpy : p.lastNewPeers < y.lastNewPeers
      · rw [if_pos hpy]
        exact ⟨⟨Nat.le_of_not_lt hpx, hpy.le⟩, hh.append_keep (by simp [Heaviest3.slots])
          ((List.perm_append_singleton p [y]).cons x)⟩
      · rw [if_neg hpy]
        exact ⟨⟨ha, Nat.le_of_not_lt hpy⟩,
          hh.append_keep (by simp [Heaviest3.slots]) (List.Perm.refl _)⟩
  · -- all three slots filled: the first slot holds the lightest kept peer
    simp only [heaviestStep]
    have hmin : ∀ b ∈ [y, z], x.lastNewPeers ≤ b.lastNewPeers := by
      simp only [List.mem_cons, List.not_mem_nil, or_false, forall_eq_or_imp, forall_eq]
      exact ⟨ha.1, ha.1.trans ha.2⟩
    by_cases hpx : p.lastNewPeers < x.lastNewPeers
    · rw [if_pos hpx]
      refine ⟨ha, hh.append_pass (by simp [Heaviest3.slots]) ?_⟩
      simp only [Heaviest3.slots, List.filterMap_cons, id, List.filterMap_nil, List.mem_cons,
        List.not_mem_nil, or_false, forall_eq_or_imp, forall_eq]
      exact ⟨hpx.le, hpx.le.trans ha.1, hpx.le.trans (ha.1.trans ha.2)⟩
    · rw [if_neg hpx]
      have hxp := Nat.le_of_not_lt hpx
      by_cases hpy : p.lastNewPeers < y.lastNewPeers
      · rw [if_pos hpy]
        exact ⟨⟨hpy.le, ha.2⟩, hh.append_replace rfl hmin hxp (List.perm_append_singleton p [y, z])⟩
      · rw [if_neg hpy]
        by_cases hpz : p.lastNewPeers < z.lastNewPeers
        · rw [if_pos hpz]
          exact ⟨⟨Nat.le_of_not_lt hpy, hpz.le⟩,
            hh.append_replace rfl hmin hxp ((List.perm_append_singleton p [z]).cons y)⟩
        · rw [if_neg hpz]
          exact ⟨⟨ha.2, Nat.le_of_not_lt hpz⟩, hh.append_replace rfl hmin hxp (List.Perm.refl _)⟩

/-- The whole fold keeps the slots ascending and the heaviest. -/
theorem foldl_heaviestStep_inv (l : List ActivePeer) {l₀ : List ActivePeer} {acc : Heaviest3}
    (h : FoldInv l₀ acc) : FoldInv (l₀ ++ l) (l.foldl heaviestStep acc) := by
  induction l generalizing l₀ acc with
  | nil => simpa using h
  | cons p l ih =>
    have := ih (heaviestStep_inv p h)
    rwa [List.append_assoc, List.singleton_append] at this

theorem heaviest3_inv (l : List ActivePeer) : FoldInv l (heaviest3 l) := by
  have h := foldl_heaviestStep_inv l foldInv_nil
  rwa [List.nil_append] at h

/-! ### Every draw finds a peer -/

/-- With three verified peers or more, the query goes to the newest verified
peer and to the peer in the slot the draw picks, which holds one. -/
theorem selectPeersToQuery_eq {activePeers : ActivePeersList} {latest : ActivePeer}
    {rest : List ActivePeer} (hv : getVerifiedPeers activePeers = latest :: rest)
    (h3 : 2 ≤ rest.length) (r : Nat) :
    ∃ h ∈ (heaviest3 rest).slots,
      selectPeersToQuery activePeers r = some [latest.peerId, h.peerId] := by
  have hinv := heaviest3_inv rest
  -- the draw lands below `min(3, k)`, where the slots are filled
  have hlen : (heaviest3 rest).slots.length = min 3 rest.length := by
    simpa using hinv.heaviest.card_eq
  have hpos : 0 < min rest.length 3 := by omega
  have hdraw : r % min rest.length 3 < (heaviest3 rest).slots.length := by
    rw [hlen, Nat.min_comm 3 rest.length]
    exact Nat.mod_lt r hpos
  obtain ⟨h, hh⟩ := Option.isSome_iff_exists.mp (hinv.ascending.slot_isSome hdraw)
  refine ⟨h, Heaviest3.mem_slots_of_slot hh, ?_⟩
  have hlong : ¬ (latest :: rest).length < 3 := by simp only [List.length_cons]; omega
  simp only [selectPeersToQuery, hv, if_neg hlong, genRange, if_pos hpos, Option.bind_eq_bind,
    Option.bind_some, hh, Option.pure_def]

/-- The verified peers split at the newest one: the peers before it in the list are unverified,
and those after it are the rest of the verified peers. -/
theorem getVerifiedPeers_eq_cons {activePeers : ActivePeersList} {latest : ActivePeer}
    {rest : List ActivePeer} (hv : getVerifiedPeers activePeers = latest :: rest) :
    ∃ newer older, activePeers.deque = newer ++ latest :: older ∧
      (∀ q ∈ newer, q.metrics.verifiedCount = 0) ∧ 0 < latest.metrics.verifiedCount ∧
      rest = older.filter fun q => decide (q.metrics.verifiedCount > 0) := by
  obtain ⟨newer, older, hdeque, hnewer, hlatest, hrest⟩ := List.filter_eq_cons_iff.mp hv
  refine ⟨newer, older, hdeque, fun q hq => ?_, by simpa using hlatest, hrest.symm⟩
  have hq' := hnewer q hq
  simp only [gt_iff_lt, decide_eq_true_eq, Nat.pos_iff_ne_zero, not_not] at hq'
  exact hq'

/-- With three verified peers or more, the query goes to the newest verified peer, and the
fold over the verified peers after it fills its first `min(3, k)` slots with peers, in
ascending `last_new_peers`, which are the heaviest of those `k` peers; every draw then queries
the newest verified peer and one of them. -/
theorem select_peers_top_three (activePeers : ActivePeersList)
    (h3 : 3 ≤ (getVerifiedPeers activePeers).length) :
    ∃ latest rest, getVerifiedPeers activePeers = latest :: rest ∧
      (∃ newer older, activePeers.deque = newer ++ latest :: older ∧
        (∀ q ∈ newer, q.metrics.verifiedCount = 0) ∧ 0 < latest.metrics.verifiedCount ∧
        rest = older.filter fun q => decide (q.metrics.verifiedCount > 0)) ∧
      2 ≤ rest.length ∧
      (∀ i < min 3 rest.length, ((heaviest3 rest).slot i).isSome) ∧
      (heaviest3 rest).slots.Pairwise (fun a b => a.lastNewPeers ≤ b.lastNewPeers) ∧
      IsHeaviest ActivePeer.lastNewPeers 3 ↑rest ↑(heaviest3 rest).slots ∧
      ∀ r, ∃ h ∈ (heaviest3 rest).slots,
        selectPeersToQuery activePeers r = some [latest.peerId, h.peerId] := by
  obtain ⟨latest, rest, hv⟩ := List.exists_cons_of_length_pos (by omega : 0 < (getVerifiedPeers activePeers).length)
  have hrest : 2 ≤ rest.length := by
    rw [hv, List.length_cons] at h3
    omega
  have hinv := heaviest3_inv rest
  have hlen : (heaviest3 rest).slots.length = min 3 rest.length := by
    simpa using hinv.heaviest.card_eq
  refine ⟨latest, rest, hv, getVerifiedPeers_eq_cons hv, hrest, fun i hi => ?_,
    hinv.ascending.pairwise, hinv.heaviest, selectPeersToQuery_eq hv hrest⟩
  exact hinv.ascending.slot_isSome (hlen ▸ hi)

/-- `create_peerlist_of_size` of the tests: peers `0, …, n - 1` inserted in turn,
each verified once, peer `i` with `last_new_peers = n - 1 - i`. -/
def createPeerlistOfSize (n : Nat) : ActivePeersList :=
  (List.range n).foldl
    (fun pl i => (pl.insert ⟨⟨⟨[i.toUInt8]⟩⟩, ⟨1, n - 1 - i⟩⟩).2) PeerRing.default

-- `find_peers_to_query_in_peerlist_10`: the slots hold the peers at indexes 7, 8 and 9
example : ((heaviest3 (getVerifiedPeers (createPeerlistOfSize 10)).tail).slots.map
    ActivePeer.lastNewPeers) = [7, 8, 9] := by decide

/-- Peers `0, …, n - 1` inserted in turn, peer `i` with `last_new_peers = i`, verified only
when `i` is even. -/
def createMixedPeerlist (n : Nat) : ActivePeersList :=
  (List.range n).foldl
    (fun pl i => (pl.insert ⟨⟨⟨[i.toUInt8]⟩⟩, ⟨(i + 1) % 2, i⟩⟩).2) PeerRing.default

/-- Of ten peers, the newest (`9`) is unverified: the query goes to `8`, the newest verified
peer, and to one of `2`, `4` and `6`, the heaviest verified peers after it. -/
theorem select_peers_mixed_ten :
    3 ≤ (getVerifiedPeers (createMixedPeerlist 10)).length ∧
    ∃ latest rest, getVerifiedPeers (createMixedPeerlist 10) = latest :: rest ∧
      (∃ newer older, (createMixedPeerlist 10).deque = newer ++ latest :: older ∧
        (∀ q ∈ newer, q.metrics.verifiedCount = 0) ∧ 0 < latest.metrics.verifiedCount ∧
        rest = older.filter fun q => decide (q.metrics.verifiedCount > 0)) ∧
      2 ≤ rest.length ∧
      (∀ i < min 3 rest.length, ((heaviest3 rest).slot i).isSome) ∧
      (heaviest3 rest).slots.Pairwise (fun a b => a.lastNewPeers ≤ b.lastNewPeers) ∧
      IsHeaviest ActivePeer.lastNewPeers 3 ↑rest ↑(heaviest3 rest).slots ∧
      ∀ r, ∃ h ∈ (heaviest3 rest).slots,
        selectPeersToQuery (createMixedPeerlist 10) r = some [latest.peerId, h.peerId] :=
  ⟨by decide, select_peers_top_three _ (by decide)⟩

-- the newest verified peer is `8`, and the slots hold `2`, `4` and `6`
example : (getVerifiedPeers (createMixedPeerlist 10)).map ActivePeer.lastNewPeers = [8, 6, 4, 2, 0] ∧
    ((heaviest3 (getVerifiedPeers (createMixedPeerlist 10)).tail).slots.map
      ActivePeer.lastNewPeers) = [2, 4, 6] := by decide

end Bee
