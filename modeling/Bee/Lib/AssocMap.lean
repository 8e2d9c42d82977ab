import Mathlib

/-!
# Hash maps as association lists

A hash map is observed only through its entries: one value per key, no order.
Mathlib's `AList` is exactly that observable content, so a `HashMap<K, V>` of
the program is an `AList` over the constant family `fun _ => V`.  Two idioms
of the program get a definition of their own here:

* `collect` — `iter.collect::<HashMap<_, _>>()`, which inserts the pairs in
  turn, so that of two pairs with one key the later value is the one kept;
* `accumulate` — `*map.entry(k).or_default() = f(*entry)?`, a fallible update
  of the value under `k` that starts from a default.

`sumEntries` adds up a weight over the entries of a map; inserting keys that
are new adds their weights (`sumEntries_foldl_insert`), and the sum is a
`Finset` sum over the keys (`sumEntries_eq_sum_keys`).

The iteration order of a hash map is unspecified; the model iterates over
`entries`, and every use in the program is order-independent.
-/

namespace AssocMap

variable {K V : Type} [DecidableEq K]

/-- A map from `K` to `V`. -/
abbrev Map (K V : Type) := AList (fun _ : K => V)

/-- `collect()` into a map: insert each pair in turn. -/
def collect (l : List (K × V)) : Map K V :=
  l.foldl (fun m p => m.insert p.1 p.2) ∅

/-- `*m.entry(k).or_default() = f(value)?`: the updated map, or `none` when `f`
fails on the current value (`d` standing in for an absent one). -/
def accumulate (m : Map K V) (k : K) (d : V) (f : V → Option V) : Option (Map K V) :=
  (f ((m.lookup k).getD d)).map (fun v => m.insert k v)

/-! ### `collect` -/

/-- Folding inserts over `l` keeps the keys already present and adds those of `l`. -/
theorem mem_foldl_insert {α : Type} (key : α → K) (val : α → V) (l : List α) (m : Map K V) (k : K) :
    k ∈ l.foldl (fun m a => m.insert (key a) (val a)) m ↔ k ∈ m ∨ k ∈ l.map key := by
  induction l generalizing m with
  | nil => simp
  | cons a l ih =>
    rw [List.foldl_cons, ih, AList.mem_insert]
    simp only [List.map_cons, List.mem_cons]
    tauto

theorem mem_collect (l : List (K × V)) (k : K) : k ∈ collect l ↔ k ∈ l.map Prod.fst := by
  rw [collect, mem_foldl_insert Prod.fst Prod.snd]
  simp [AList.notMem_empty]

theorem mem_of_lookup_eq_some {m : Map K V} {k : K} {v : V} (h : m.lookup k = some v) : k ∈ m :=
  AList.lookup_isSome.mp (by simp [h])

/-- A value found after the inserts of `l` is one `l` pairs with the key, or was there before. -/
theorem mem_of_lookup_foldl_insert (l : List (K × V)) (m : Map K V) {k : K} {v : V}
    (h : (l.foldl (fun m p => m.insert p.1 p.2) m).lookup k = some v) :
    (k, v) ∈ l ∨ m.lookup k = some v := by
  induction l generalizing m with
  | nil => exact Or.inr h
  | cons p l ih =>
    rcases ih _ h with hl | hm
    · exact Or.inl (List.mem_cons_of_mem _ hl)
    · -- the value was there before the rest of the list: inserted by `p`, or older
      by_cases hk : k = p.1
      · subst hk
        rw [AList.lookup_insert] at hm
        cases hm
        exact Or.inl List.mem_cons_self
      · rw [AList.lookup_insert_ne hk] at hm
        exact Or.inr hm

/-- A key of `l` is found in `collect l`, with a value `l` pairs it with. -/
theorem exists_lookup_collect {l : List (K × V)} {k : K} (hk : k ∈ l.map Prod.fst) :
    ∃ v, (collect l).lookup k = some v ∧ (k, v) ∈ l := by
  obtain ⟨v, hv⟩ := Option.isSome_iff_exists.mp (AList.lookup_isSome.mpr ((mem_collect l k).mpr hk))
  refine ⟨v, hv, ?_⟩
  rcases mem_of_lookup_foldl_insert l ∅ hv with hl | hempty
  · exact hl
  · simp at hempty

/-! ### `accumulate` -/

/-- A key that no inserted element has keeps its value through the inserts. -/
theorem lookup_foldl_insert_of_notMem' {α : Type} (key : α → K) (val : α → V) (l : List α) (m : Map K V)
    {k : K} (hk : k ∉ l.map key) :
    (l.foldl (fun m a => m.insert (key a) (val a)) m).lookup k = m.lookup k := by
  induction l generalizing m with
  | nil => rfl
  | cons a l ih =>
    simp only [List.map_cons, List.mem_cons, not_or] at hk
    rw [List.foldl_cons, ih _ hk.2, AList.lookup_insert_ne hk.1]

/-- Erasing keys in turn removes exactly those keys. -/
theorem mem_foldl_erase {α : Type} (key : α → K) (l : List α) (m : Map K V) (k : K) :
    k ∈ l.foldl (fun m a => m.erase (key a)) m ↔ k ∈ m ∧ k ∉ l.map key := by
  induction l generalizing m with
  | nil => simp
  | cons a l ih =>
    rw [List.foldl_cons, ih, AList.mem_erase]
    simp only [List.map_cons, List.mem_cons, not_or]
    tauto

/-! ### Sums over the entries -/

/-- The sum of a weight over the entries of a map. -/
def sumEntries (w : K → V → Nat) (m : Map K V) : Nat := (m.entries.map fun e => w e.1 e.2).sum

omit [DecidableEq K] in
@[simp] theorem sumEntries_empty (w : K → V → Nat) : sumEntries w (∅ : Map K V) = 0 := rfl

theorem sumEntries_insert_of_notMem (w : K → V → Nat) (m : Map K V) {k : K} (v : V) (hk : k ∉ m) :
    sumEntries w (m.insert k v) = w k v + sumEntries w m := by
  rw [sumEntries, AList.entries_insert_of_notMem hk, List.map_cons, List.sum_cons, sumEntries]

/-- The weight of one entry is at most the sum. -/
theorem le_sumEntries_of_lookup (w : K → V → Nat) {m : Map K V} {k : K} {v : V}
    (h : m.lookup k = some v) : w k v ≤ sumEntries w m :=
  List.le_sum_of_mem (List.mem_map.mpr ⟨⟨k, v⟩, AList.mem_lookup_iff.mp h, rfl⟩)

/-- Inserting new, distinct keys adds their weights. -/
theorem sumEntries_foldl_insert {α : Type} (key : α → K) (val : α → V) (w : K → V → Nat) (l : List α)
    (m : Map K V) (hfresh : ∀ a ∈ l, key a ∉ m) (hnodup : (l.map key).Nodup) :
    sumEntries w (l.foldl (fun m a => m.insert (key a) (val a)) m) =
      sumEntries w m + (l.map fun a => w (key a) (val a)).sum := by
  induction l generalizing m with
  | nil => simp
  | cons a l ih =>
    rw [List.map_cons, List.nodup_cons] at hnodup
    have hfresh' : ∀ b ∈ l, key b ∉ m.insert (key a) (val a) := by
      intro b hb
      rw [AList.mem_insert, not_or]
      exact ⟨fun heq => hnodup.1 (heq ▸ List.mem_map_of_mem hb), hfresh b (List.mem_cons_of_mem _ hb)⟩
    rw [List.foldl_cons, ih _ hfresh' hnodup.2,
      sumEntries_insert_of_notMem w m _ (hfresh a List.mem_cons_self), List.map_cons, List.sum_cons]
    omega

/-- The sum over the entries is the sum over the keys of any weight that agrees
with it on the map's values. -/
theorem sumEntries_eq_sum_keys (w : K → V → Nat) (m : Map K V) (f : K → Nat)
    (hf : ∀ k v, m.lookup k = some v → f k = w k v) :
    sumEntries w m = ∑ k ∈ m.keys.toFinset, f k := by
  rw [List.sum_toFinset f m.keys_nodup, sumEntries, AList.keys, List.keys, List.map_map]
  refine congrArg List.sum (List.map_congr_left fun e he => ?_)
  exact (hf e.1 e.2 (AList.mem_lookup_iff.mpr he)).symm

/-- A key among new, distinct inserted keys gets the value of its pair. -/
theorem lookup_foldl_insert_of_mem {α : Type} (key : α → K) (val : α → V) (l : List α) (m : Map K V)
    (hnodup : (l.map key).Nodup) {a : α} (ha : a ∈ l) :
    (l.foldl (fun m a => m.insert (key a) (val a)) m).lookup (key a) = some (val a) := by
  induction l generalizing m with
  | nil => cases ha
  | cons b l ih =>
    rw [List.map_cons, List.nodup_cons] at hnodup
    rw [List.foldl_cons]
    rcases List.mem_cons.mp ha with rfl | ha
    · -- the last insert of this key is this one: no later pair has it
      rw [lookup_foldl_insert_of_notMem' key val l _ hnodup.1, AList.lookup_insert]
    · exact ih _ hnodup.2 ha

end AssocMap
