import Mathlib

/-!
# Sliding-window deduplication

A stream of items is filtered against a window: an item is kept unless its key is among the
keys of the last `cap` items kept before it, so that a repeat is dropped as long as it comes
within `cap` kept items of the one it repeats.  This module says what such a filter keeps, for
items of any type `β` with keys of any type `α`.

* `recent`, `admits`, `step`, `keep` — the keys of the last `cap` kept items, whether an item
  is kept after them, one item of the stream, and the items a whole stream keeps;
* `recent_append_singleton`, `recent_tail`, `recent_of_length_le` — how the window moves when
  an item is kept: the new key enters behind the last `cap - 1`, and the oldest leaves only
  once `cap` are held;
* `nodup_recent_keep` — the window of a filtered stream holds distinct keys, at most `cap` of
  them (`length_recent_le`);
* `keep_spaced` — every kept item's key differs from those of the `cap` items kept just before
  it, and `keep_sublist` — the kept items are items of the stream, in its order.
-/

namespace Window

/-! ### Suffixes of a list -/

section Rtake

variable {α : Type}

theorem length_rtake (l : List α) (n : Nat) : (l.rtake n).length = min n l.length := by
  simp only [List.rtake, List.length_drop]
  omega

theorem rtake_of_length_le {l : List α} {n : Nat} (h : l.length ≤ n) : l.rtake n = l := by
  simp only [List.rtake, Nat.sub_eq_zero_of_le h, List.drop_zero]

/-- Past `n` items, the last `n + 1` lose their first to become the last `n`. -/
theorem rtake_succ_tail {l : List α} {n : Nat} (h : n < l.length) :
    (l.rtake (n + 1)).tail = l.rtake n := by
  simp only [List.rtake, List.tail_drop]
  congr 1
  omega

theorem rtake_suffix_rtake (l : List α) {m n : Nat} (h : m ≤ n) : l.rtake m <:+ l.rtake n := by
  have hdrop : l.drop (l.length - m) =
      (l.drop (l.length - n)).drop ((l.length - m) - (l.length - n)) := by
    rw [List.drop_drop]
    congr 1
    omega
  simp only [List.rtake]
  rw [hdrop]
  exact List.drop_suffix _ _

end Rtake

/-! ### The window -/

variable {α β : Type} (cap : Nat) (key : β → α)

/-- The keys of the last `cap` items kept. -/
def recent (kept : List β) : List α := (kept.map key).rtake cap

section Recent

variable {cap key}

@[simp] theorem recent_nil : recent cap key ([] : List β) = [] := by
  simp [recent]

theorem length_recent (kept : List β) : (recent cap key kept).length = min cap kept.length := by
  rw [recent, length_rtake, List.length_map]

theorem length_recent_le (kept : List β) : (recent cap key kept).length ≤ cap := by
  rw [length_recent]
  exact min_le_left _ _

/-- A kept item's key enters the window behind the last `n` keys. -/
theorem recent_append_singleton (n : Nat) (kept : List β) (x : β) :
    recent (n + 1) key (kept ++ [x]) = recent n key kept ++ [key x] := by
  simp only [recent, List.map_append, List.map_cons, List.map_nil, List.rtake_concat_succ]

/-- With more than `n` items kept, the window of `n + 1` drops its oldest key to become the
window of `n`. -/
theorem recent_tail {n : Nat} {kept : List β} (h : n < kept.length) :
    (recent (n + 1) key kept).tail = recent n key kept :=
  rtake_succ_tail (by rwa [List.length_map])

/-- With at most `n` items kept, the window holds all their keys. -/
theorem recent_of_length_le {n : Nat} {kept : List β} (h : kept.length ≤ n) :
    recent n key kept = kept.map key :=
  rtake_of_length_le (by rwa [List.length_map])

end Recent

/-! ### The filter -/

variable [DecidableEq α]

/-- Whether `x` is kept after `kept`: its key is not among the last `cap` kept. -/
def admits (kept : List β) (x : β) : Bool := decide (key x ∉ recent cap key kept)

/-- One item of the stream. -/
def step (kept : List β) (x : β) : List β :=
  if admits cap key kept x then kept ++ [x] else kept

/-- The items a stream keeps. -/
def keep (xs : List β) : List β := xs.foldl (step cap key) []

variable {cap key}

@[simp] theorem keep_nil : keep cap key [] = [] := rfl

theorem admits_eq_true_iff {kept : List β} {x : β} :
    admits cap key kept x = true ↔ key x ∉ recent cap key kept := by
  simp [admits]

theorem keep_append_singleton (xs : List β) (x : β) :
    keep cap key (xs ++ [x]) = step cap key (keep cap key xs) x := by
  simp only [keep, List.foldl_append, List.foldl_cons, List.foldl_nil]

/-! ### What the filter keeps -/

theorem keep_sublist (xs : List β) : (keep cap key xs).Sublist xs := by
  induction xs using List.reverseRecOn with
  | nil => exact List.Sublist.slnil
  | append_singleton xs x ih =>
    rw [keep_append_singleton, step]
    split
    · exact ih.append (List.Sublist.refl [x])
    · exact ih.trans (List.sublist_append_left xs [x])

/-- Keeping an admitted item keeps the window's keys distinct. -/
theorem nodup_recent_step {kept : List β} (hnodup : (recent cap key kept).Nodup) (x : β) :
    (recent cap key (step cap key kept x)).Nodup := by
  unfold step
  split
  · rename_i hadm
    cases cap with
    | zero => simp [recent]
    | succ n =>
      -- the last `n` keys are among the last `n + 1`, which do not hold `key x`
      have hsuffix := rtake_suffix_rtake (kept.map key) (Nat.le_succ n)
      have hx : key x ∉ recent n key kept := fun hmem =>
        admits_eq_true_iff.mp hadm (hsuffix.subset hmem)
      rw [recent_append_singleton]
      exact List.nodup_append.mpr ⟨hnodup.sublist hsuffix.sublist, List.nodup_singleton _,
        fun a ha b hb => by rw [List.mem_singleton.mp hb]; exact fun h => hx (h ▸ ha)⟩
  · exact hnodup

/-- The window of a filtered stream holds distinct keys. -/
theorem nodup_recent_keep (xs : List β) : (recent cap key (keep cap key xs)).Nodup := by
  induction xs using List.reverseRecOn with
  | nil => simp
  | append_singleton xs x ih =>
    rw [keep_append_singleton]
    exact nodup_recent_step ih x

/-- Every kept item's key differs from the keys of the last `cap` items kept before it. -/
theorem keep_spaced (xs : List β) {p s : List β} {x : β} (h : keep cap key xs = p ++ x :: s) :
    key x ∉ recent cap key p := by
  induction xs using List.reverseRecOn generalizing s with
  | nil => simp at h
  | append_singleton xs y ih =>
    rw [keep_append_singleton, step] at h
    split at h
    · rename_i hadm
      -- the item kept last is either `x` itself or comes after it
      rcases List.eq_nil_or_concat s with rfl | ⟨s', z, rfl⟩
      · obtain ⟨rfl, hyx⟩ := List.append_inj' h rfl
        rw [List.singleton_inj.mp hyx] at hadm
        exact admits_eq_true_iff.mp hadm
      · have h' : keep cap key xs ++ [y] = (p ++ x :: s') ++ [z] := by simpa using h
        exact ih (List.append_inj' h' rfl).1
    · exact ih h

end Window
