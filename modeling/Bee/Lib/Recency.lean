import Mathlib

/-!
# Most-recently-used lists

A most-recently-used list holds entries with distinct keys, the most recently
used first and at most `n` of them, so that its last entry is the one to evict
or to look at again first.  This module says what such a list is for, for
entries of any type `α` with keys of any type `κ`.

* `insert`, `remove`, `touch` — a new entry goes to the front (the last one is
  evicted when `n` are held), an entry is removed by its key, and `touch`
  moves an entry to the front keeping the order of the others;
* `Recent used t l` — the entries are in decreasing order of the time `used`
  gives their keys, all before `t`; `recent_apply` — every operation,
  stamping the key it uses with the next time, keeps this;
* `rotate_eq_moveToFront_iff` — rotating a list of distinct entries left by
  `i` moves its `i`-th entry to the front as `moveToFront` does only when that
  entry is the first or the last.
-/

namespace Recency

variable {α κ : Type} (key : α → κ)

/-! ### Operations -/

section Operations

variable [DecidableEq κ]

/-- Insert `x` at the front, evicting the last entry when `n` are held; when
its key is held already the list stays as it is. -/
def insert (n : Nat) (x : α) (l : List α) : List α :=
  if l.any (fun y => key y == key x) then l
  else x :: (if n ≤ l.length then l.dropLast else l)

/-- Remove the entry with key `k`. -/
def remove (k : κ) (l : List α) : List α := l.eraseP (fun y => key y == k)

/-- Move the entry at position `i` to the front, the others keeping their order. -/
def moveToFront (i : Nat) (l : List α) : List α :=
  if h : i < l.length then l[i] :: l.eraseIdx i else l

/-- Move the entry with key `k` to the front. -/
def touch (k : κ) (l : List α) : List α :=
  match l.findIdx? (fun y => key y == k) with
  | some i => moveToFront i l
  | none => l

/-- The operations of a most-recently-used list. -/
inductive Op (α κ : Type)
  | insert (x : α)
  | remove (k : κ)
  | removeOldest
  | touch (k : κ)
  deriving DecidableEq, Repr

/-- An operation on the list. -/
def apply (n : Nat) : Op α κ → List α → List α
  | .insert x, l => insert key n x l
  | .remove k, l => remove key k l
  | .removeOldest, l => l.dropLast
  | .touch k, l => touch key k l

/-- The key an operation uses: the key of a new entry, or of an entry touched. -/
def usedKey : Op α κ → List α → Option κ
  | .insert x, l => if l.any (fun y => key y == key x) then none else some (key x)
  | .touch k, l => (l.findIdx? (fun y => key y == k)).map fun _ => k
  | _, _ => none

/-- The time each key was last used, after an operation at time `t`. -/
def stamp (op : Op α κ) (l : List α) (t : Nat) (used : κ → Nat) : κ → Nat :=
  match usedKey key op l with
  | some k => Function.update used k t
  | none => used

/-- A run of operations at times `t, t + 1, …`: the list, and the time each key
was last used. -/
def run (n : Nat) : List (Op α κ) → Nat → List α × (κ → Nat) → List α × (κ → Nat)
  | [], _, s => s
  | op :: ops, t, s => run n ops (t + 1) (apply key n op s.1, stamp key op s.1 t s.2)

end Operations

/-! ### Recency order -/

/-- The entries are in decreasing order of the time their keys were last used,
and all of those times are before `t`. -/
structure Recent (used : κ → Nat) (t : Nat) (l : List α) : Prop where
  ordered : l.Pairwise fun a b => used (key b) < used (key a)
  fresh : ∀ y ∈ l, used (key y) < t

variable {key}

theorem recent_nil (used : κ → Nat) (t : Nat) : Recent key used t ([] : List α) :=
  ⟨List.Pairwise.nil, fun _ h => nomatch h⟩

theorem Recent.sublist {used : κ → Nat} {t : Nat} {l l' : List α} (h : Recent key used t l)
    (hs : List.Sublist l' l) : Recent key used t l' :=
  ⟨h.ordered.sublist hs, fun y hy => h.fresh y (hs.subset hy)⟩

theorem Recent.mono {used : κ → Nat} {t t' : Nat} {l : List α} (h : Recent key used t l)
    (ht : t ≤ t') : Recent key used t' l :=
  ⟨h.ordered, fun y hy => lt_of_lt_of_le (h.fresh y hy) ht⟩

/-- Distinct times make distinct keys. -/
theorem Recent.nodup_keys {used : κ → Nat} {t : Nat} {l : List α} (h : Recent key used t l) :
    (l.map key).Nodup :=
  List.pairwise_map.mpr (h.ordered.imp fun hab he => by rw [he] at hab; exact lt_irrefl _ hab)

/-! ### Each operation keeps the order -/

/-- What `insert` keeps of the list, with or without an eviction. -/
theorem evict_sublist {n : Nat} (l : List α) :
    List.Sublist (if n ≤ l.length then l.dropLast else l) l := by
  split_ifs
  · exact List.dropLast_sublist l
  · exact List.Sublist.refl l

/-- The entries other than the `i`-th have keys other than its key. -/
theorem key_ne_of_mem_eraseIdx {l : List α} {i : Nat} (hi : i < l.length)
    (hn : (l.map key).Nodup) : ∀ y ∈ l.eraseIdx i, key y ≠ key l[i] := by
  have hsplit : l = l.take i ++ l[i] :: l.drop (i + 1) := by
    rw [← List.drop_eq_getElem_cons hi, List.take_append_drop]
  rw [hsplit, List.map_append, List.map_cons, List.nodup_middle, List.nodup_cons,
    ← List.map_append, ← List.eraseIdx_eq_take_drop_succ] at hn
  intro y hy he
  exact hn.1 (List.mem_map.mpr ⟨y, hy, he⟩)

section Steps

variable [DecidableEq κ]

/-- Using a new key at time `t` puts its entry in front of the others. -/
theorem Recent.cons_update {used : κ → Nat} {t : Nat} {l : List α} {x : α}
    (h : Recent key used t l) (hx : ∀ y ∈ l, key y ≠ key x) :
    Recent key (Function.update used (key x) t) (t + 1) (x :: l) := by
  have hkeep : ∀ y ∈ l, Function.update used (key x) t (key y) = used (key y) :=
    fun y hy => Function.update_of_ne (hx y hy) _ _
  refine ⟨List.pairwise_cons.mpr ⟨fun y hy => ?_, ?_⟩, ?_⟩
  · rw [hkeep y hy, Function.update_self]
    exact h.fresh y hy
  · exact h.ordered.imp_of_mem fun ha hb hab => by rw [hkeep _ ha, hkeep _ hb]; exact hab
  · intro y hy
    rcases List.mem_cons.mp hy with rfl | hy
    · simp
    · rw [hkeep y hy]
      exact lt_of_lt_of_le (h.fresh y hy) (Nat.le_succ t)

theorem recent_insert {used : κ → Nat} {t n : Nat} {l : List α} (x : α)
    (h : Recent key used t l) :
    Recent key (stamp key (.insert x) l t used) (t + 1) (apply key n (.insert x) l) := by
  simp only [apply, insert, stamp, usedKey]
  by_cases hx : l.any (fun y => key y == key x)
  · rw [if_pos hx, if_pos hx]
    exact h.mono (Nat.le_succ t)
  · rw [if_neg hx, if_neg hx]
    -- the new key is held by no entry, evicted or not
    have hne : ∀ y ∈ l, key y ≠ key x := fun y hy he =>
      hx (List.any_eq_true.mpr ⟨y, hy, beq_iff_eq.mpr he⟩)
    have hs := evict_sublist (n := n) l
    exact (h.sublist hs).cons_update fun y hy => hne y (hs.subset hy)

theorem recent_touch {used : κ → Nat} {t n : Nat} {l : List α} (k : κ)
    (h : Recent key used t l) :
    Recent key (stamp key (.touch k) l t used) (t + 1) (apply key n (.touch k) l) := by
  simp only [apply, touch, stamp, usedKey]
  cases hf : l.findIdx? (fun y => key y == k) with
  | none => exact h.mono (Nat.le_succ t)
  | some i =>
    obtain ⟨hi, hk, -⟩ := List.findIdx?_eq_some_iff_getElem.mp hf
    have hk : key l[i] = k := beq_iff_eq.mp hk
    simp only [Option.map_some, moveToFront, dif_pos hi]
    rw [← hk]
    exact (h.sublist (List.eraseIdx_sublist l i)).cons_update
      (key_ne_of_mem_eraseIdx hi h.nodup_keys)

/-- One operation at time `t`, stamping the key it uses, keeps the list in
order of recency. -/
theorem recent_apply {used : κ → Nat} {t n : Nat} {l : List α} (op : Op α κ)
    (h : Recent key used t l) :
    Recent key (stamp key op l t used) (t + 1) (apply key n op l) := by
  cases op with
  | insert x => exact recent_insert x h
  | remove k => exact (h.sublist List.eraseP_sublist).mono (Nat.le_succ t)
  | removeOldest => exact (h.sublist (List.dropLast_sublist l)).mono (Nat.le_succ t)
  | touch k => exact recent_touch k h

/-! ### Length -/

theorem length_insert_le {n : Nat} (hn : 0 < n) {l : List α} (x : α) (hl : l.length ≤ n) :
    (insert key n x l).length ≤ n := by
  unfold insert
  split_ifs with hx hfull
  · exact hl
  · simp only [List.length_cons, List.length_dropLast]
    omega
  · simp only [List.length_cons]
    omega

/-- No operation makes the list longer than `n`, for `n > 0`. -/
theorem length_apply_le {n : Nat} (hn : 0 < n) {l : List α} (op : Op α κ) (hl : l.length ≤ n) :
    (apply key n op l).length ≤ n := by
  cases op with
  | insert x => exact length_insert_le hn x hl
  | remove k => exact (List.eraseP_sublist.length_le).trans hl
  | removeOldest => exact (List.dropLast_sublist l).length_le.trans hl
  | touch k =>
    simp only [apply, touch]
    split
    · unfold moveToFront
      split_ifs with hi
      · rw [List.length_cons, List.length_eraseIdx_of_lt hi]
        omega
      · exact hl
    · exact hl

/-- Every operation keeps the keys distinct. -/
theorem nodup_keys_apply {n : Nat} {l : List α} (op : Op α κ) (hl : (l.map key).Nodup) :
    ((apply key n op l).map key).Nodup := by
  cases op with
  | insert x =>
    simp only [apply, insert]
    by_cases hx : l.any (fun y => key y == key x)
    · rw [if_pos hx]
      exact hl
    · rw [if_neg hx]
      -- the new key is held by no entry, and the entries kept are a sublist
      have hs := evict_sublist (n := n) l
      refine List.nodup_cons.mpr ⟨fun hmem => hx ?_, (hs.map key).nodup hl⟩
      obtain ⟨y, hy, he⟩ := List.mem_map.mp hmem
      exact List.any_eq_true.mpr ⟨y, hs.subset hy, beq_iff_eq.mpr he⟩
  | remove k => exact (List.eraseP_sublist.map key).nodup hl
  | removeOldest => exact ((List.dropLast_sublist l).map key).nodup hl
  | touch k =>
    simp only [apply, touch]
    split
    · unfold moveToFront
      split_ifs with hi
      · exact ((List.getElem_cons_eraseIdx_perm hi).map key).nodup_iff.mpr hl
      · exact hl
    · exact hl

end Steps

/-! ### Rotation against moving to the front -/

/-- Rotating left by `i` and moving the `i`-th entry to the front agree on a
list of distinct entries exactly when that entry is the first or the last:
otherwise the rotation sends the entries before it behind those after it. -/
theorem rotate_eq_moveToFront_iff {l : List α} {i : Nat} (hl : l.Nodup) (hi : i < l.length) :
    l.rotate i = moveToFront i l ↔ i = 0 ∨ i + 1 = l.length := by
  have hdrop := List.drop_eq_getElem_cons hi
  rw [List.rotate_eq_drop_append_take hi.le, moveToFront, dif_pos hi,
    List.eraseIdx_eq_take_drop_succ, hdrop, List.cons_append, List.cons.injEq]
  simp only [true_and]
  constructor
  · intro he
    by_contra hmid
    rw [not_or] at hmid
    -- both sides start with an entry of their own part: one before, one after
    obtain ⟨a, A, hA⟩ := List.exists_cons_of_ne_nil (l := l.take i)
      (List.ne_nil_of_length_pos (by rw [List.length_take]; omega))
    obtain ⟨b, B, hB⟩ := List.exists_cons_of_ne_nil (l := l.drop (i + 1))
      (List.ne_nil_of_length_pos (by rw [List.length_drop]; omega))
    rw [hA, hB, List.cons_append, List.cons_append, List.cons.injEq] at he
    have hsplit : l = l.take i ++ l[i] :: l.drop (i + 1) := by rw [← hdrop, List.take_append_drop]
    rw [hsplit, List.nodup_middle, List.nodup_cons, List.nodup_append] at hl
    exact hl.2.2.2 a (by rw [hA]; exact List.mem_cons_self) b (by rw [hB]; exact List.mem_cons_self)
      he.1.symm
  · rintro (rfl | hlast)
    · simp
    · have : l.drop (i + 1) = [] := List.drop_eq_nil_of_le (by omega)
      rw [this]
      simp

end Recency
