import Mathlib

/-!
# The heaviest elements of a multiset

`IsHeaviest w k s top` says that `top` holds `k` elements of `s`, or all of
them when `s` has fewer, and that none of the others weighs more than any of
them: what a pass keeping the `k` heaviest elements of `s` may end with, ties
broken either way.  When one more element `p` arrives, such a pass either keeps
it while fewer than `k` are kept (`IsHeaviest.add_of_card_lt`), passes it by
when it weighs no more than any kept one (`IsHeaviest.add_of_le`), or lets it
replace the lightest kept one (`IsHeaviest.replace`); `append_keep`,
`append_pass` and `append_replace` are the same steps for a pass that reads `s`
off a list and keeps its elements in a list.
-/

namespace Heaviest

variable {α : Type} [DecidableEq α]

/-- `top` is `k` of the heaviest elements of `s` under the weight `w`. -/
structure IsHeaviest (w : α → Nat) (k : Nat) (s top : Multiset α) : Prop where
  le : top ≤ s
  card_eq : Multiset.card top = min k (Multiset.card s)
  heavier : ∀ a ∈ s - top, ∀ b ∈ top, w a ≤ w b

variable {w : α → Nat} {k : Nat} {s top : Multiset α}

theorem isHeaviest_zero (w : α → Nat) (k : Nat) : IsHeaviest w k 0 0 :=
  ⟨le_rfl, by simp, by simp⟩

/-- An element is left out exactly when `s` holds it more often than `t`. -/
theorem mem_sub_iff_count {a : α} {s t : Multiset α} :
    a ∈ s - t ↔ Multiset.count a t < Multiset.count a s := by
  rw [← Multiset.count_pos, Multiset.count_sub]
  omega

/-- While fewer than `k` are kept, all of `s` is kept. -/
theorem IsHeaviest.eq_of_card_lt (h : IsHeaviest w k s top) (hk : Multiset.card top < k) :
    top = s := by
  have hcard : Multiset.card s ≤ Multiset.card top := by
    have := h.card_eq
    omega
  exact Multiset.eq_of_le_of_card_le h.le hcard

/-- Once `k` are kept, `s` has at least `k` elements. -/
theorem IsHeaviest.le_card_of_full (h : IsHeaviest w k s top) (hfull : Multiset.card top = k) :
    k ≤ Multiset.card s := by
  have := h.card_eq
  omega

/-- While fewer than `k` are kept, a new element is kept too. -/
theorem IsHeaviest.add_of_card_lt (h : IsHeaviest w k s top) (hk : Multiset.card top < k)
    (p : α) : IsHeaviest w k (s + {p}) (top + {p}) := by
  have hs := h.eq_of_card_lt hk
  subst hs
  refine ⟨le_rfl, ?_, by simp⟩
  simp only [Multiset.card_add, Multiset.card_singleton]
  omega

/-- Once `k` are kept, a new element no heavier than any of them is left out. -/
theorem IsHeaviest.add_of_le (h : IsHeaviest w k s top) (hfull : Multiset.card top = k)
    {p : α} (hp : ∀ b ∈ top, w p ≤ w b) : IsHeaviest w k (s + {p}) top := by
  have hks := h.le_card_of_full hfull
  refine ⟨h.le.trans (Multiset.le_add_right s {p}), ?_, ?_⟩
  · simp only [Multiset.card_add, Multiset.card_singleton]
    omega
  · intro a ha b hb
    -- what is left out is the new element or was left out before
    by_cases hap : a = p
    · rw [hap]
      exact hp b hb
    · have hcount := mem_sub_iff_count.mp ha
      rw [Multiset.count_add, Multiset.count_singleton, if_neg hap, Nat.add_zero] at hcount
      exact h.heavier a (mem_sub_iff_count.mpr hcount) b hb

/-- Once `k` are kept, a new element at least as heavy as the lightest kept one
may take its place. -/
theorem IsHeaviest.replace (h : IsHeaviest w k s top) (hfull : Multiset.card top = k)
    {m p : α} (hm : m ∈ top) (hmin : ∀ b ∈ top, w m ≤ w b) (hpm : w m ≤ w p) :
    IsHeaviest w k (s + {p}) (top.erase m + {p}) := by
  have hks := h.le_card_of_full hfull
  refine ⟨add_le_add_left ((Multiset.erase_le m top).trans h.le) {p}, ?_, ?_⟩
  · simp only [Multiset.card_add, Multiset.card_singleton, Multiset.card_erase_of_mem hm,
      Nat.pred_eq_sub_one]
    have : 0 < Multiset.card top := Multiset.card_pos_iff_exists_mem.mpr ⟨m, hm⟩
    omega
  · intro a ha b hb
    -- what is left out is the replaced element or was left out before
    have hleft : a = m ∨ a ∈ s - top := by
      by_cases ham : a = m
      · exact .inl ham
      · right
        have hcount := mem_sub_iff_count.mp ha
        rw [Multiset.count_add, Multiset.count_add, Multiset.count_erase_of_ne ham] at hcount
        exact mem_sub_iff_count.mpr (by omega)
    have hkept : b = p ∨ b ∈ top := by
      rcases Multiset.mem_add.mp hb with hb | hb
      · exact .inr (Multiset.mem_of_le (Multiset.erase_le m top) hb)
      · exact .inl (Multiset.mem_singleton.mp hb)
    rcases hleft with rfl | ha
    · rcases hkept with rfl | hb
      · exact hpm
      · exact hmin b hb
    · have ham := h.heavier a ha m hm
      rcases hkept with rfl | hb
      · exact ham.trans hpm
      · exact h.heavier a ha b hb

/-! ### Kept elements in a list -/

/-- The list forms of the three steps, for a pass that reads `s` from a list
and keeps its elements in a list, in an order of its own. -/
theorem IsHeaviest.append_keep {l top top' : List α} (h : IsHeaviest w k l top)
    (hk : top.length < k) {p : α} (hp : (top ++ [p]).Perm top') :
    IsHeaviest w k ↑(l ++ [p]) ↑top' := by
  have h' := h.add_of_card_lt hk p
  rwa [← Multiset.coe_singleton, Multiset.coe_add, Multiset.coe_add,
    Multiset.coe_eq_coe.mpr hp] at h'

theorem IsHeaviest.append_pass {l top : List α} (h : IsHeaviest w k l top)
    (hfull : top.length = k) {p : α} (hp : ∀ b ∈ top, w p ≤ w b) :
    IsHeaviest w k ↑(l ++ [p]) ↑top := by
  have h' := h.add_of_le hfull hp
  rwa [← Multiset.coe_singleton, Multiset.coe_add] at h'

theorem IsHeaviest.append_replace {l rest top' : List α} {m : α}
    (h : IsHeaviest w k l ↑(m :: rest)) (hfull : rest.length + 1 = k)
    (hmin : ∀ b ∈ rest, w m ≤ w b) {p : α} (hpm : w m ≤ w p) (hp : (rest ++ [p]).Perm top') :
    IsHeaviest w k ↑(l ++ [p]) ↑top' := by
  have hmin' : ∀ b ∈ (↑(m :: rest) : Multiset α), w m ≤ w b := by
    intro b hb
    rcases List.mem_cons.mp (Multiset.mem_coe.mp hb) with rfl | hb
    · exact le_rfl
    · exact hmin b hb
  have h' := h.replace (by simpa using hfull) (Multiset.mem_coe.mpr List.mem_cons_self) hmin' hpm
  rwa [Multiset.coe_erase, List.erase_cons_head, ← Multiset.coe_singleton, Multiset.coe_add,
    Multiset.coe_add, Multiset.coe_eq_coe.mpr hp] at h'

end Heaviest
