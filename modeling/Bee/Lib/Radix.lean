import Mathlib

/-!
# Numbers written in a base, least significant digit first

Two views of a positional writing in base `b`.

* `value b ds` — the integer `ds₀ + b·ds₁ + b²·ds₂ + …` of a list of integer
  digits, whatever the digits are.  When the digits come from a set in which no
  two are congruent modulo `b` (`Residues`), a number has at most one writing
  without a trailing zero digit (`eq_of_value_eq`): the first digit is its
  residue, and the rest is the writing of the quotient.
* `digit b u e` and `setDigit b u e d` — digit `e` of a natural number and the
  number with that digit replaced.  Replacing a digit reads back as the new
  digit, leaves every other digit alone (`digit_setDigit_self`,
  `digit_setDigit_of_ne`), and keeps the number below `b ^ n` when the digit is
  one of the first `n` (`setDigit_lt`).
-/

namespace Radix

/-! ### Values of integer digit lists -/

/-- The value of a list of digits, least significant first. -/
def value (b : Int) : List Int → Int
  | [] => 0
  | d :: ds => d + b * value b ds

@[simp] theorem value_nil (b : Int) : value b [] = 0 := rfl

@[simp] theorem value_cons (b d : Int) (ds : List Int) : value b (d :: ds) = d + b * value b ds := rfl

/-- A writing without a trailing zero digit. -/
def Normal (ds : List Int) : Prop := ds.getLast? ≠ some 0

theorem Normal.nil : Normal [] := by simp [Normal]

theorem Normal.tail {d : Int} {ds : List Int} (h : Normal (d :: ds)) : Normal ds := by
  cases ds with
  | nil => exact Normal.nil
  | cons d' ds => simpa [Normal, List.getLast?_cons_cons] using h

theorem Normal.cons {d : Int} {ds : List Int} (h : Normal ds) (hne : ds ≠ [] ∨ d ≠ 0) :
    Normal (d :: ds) := by
  cases ds with
  | nil =>
    simp only [ne_eq, not_true_eq_false, false_or] at hne
    simpa [Normal] using hne
  | cons d' ds => simpa [Normal, List.getLast?_cons_cons] using h

/-- No two digits of `D` are congruent modulo `b`. -/
def Residues (b : Int) (D : Set Int) : Prop :=
  ∀ ⦃x y : Int⦄, x ∈ D → y ∈ D → x ≡ y [ZMOD b] → x = y

section Unique

variable {b : Int} {D : Set Int}

/-- The only normal writing of zero is the empty one. -/
theorem eq_nil_of_value_eq_zero (hD : Residues b D) (h0 : 0 ∈ D) (hb : b ≠ 0) {ds : List Int}
    (hds : ∀ d ∈ ds, d ∈ D) (hn : Normal ds) (hv : value b ds = 0) : ds = [] := by
  induction ds with
  | nil => rfl
  | cons d ds ih =>
    rw [value_cons] at hv
    -- the first digit is the residue of zero, so it is zero, and the rest writes zero
    have hmod : d ≡ 0 [ZMOD b] := by
      have : d = b * -value b ds := by linarith
      rw [Int.ModEq, this, Int.mul_emod_right, Int.zero_emod]
    have hd : d = 0 := hD (hds d List.mem_cons_self) h0 hmod
    have hrest : value b ds = 0 := by
      rw [hd, zero_add] at hv
      exact (mul_eq_zero.mp hv).resolve_left hb
    have hnil : ds = [] := ih (fun x hx => hds x (List.mem_cons_of_mem _ hx)) hn.tail hrest
    subst hd hnil
    simp [Normal] at hn

/-- A number has at most one normal writing with digits in a set of residues. -/
theorem eq_of_value_eq (hD : Residues b D) (h0 : 0 ∈ D) (hb : b ≠ 0) {l₁ l₂ : List Int}
    (h₁ : ∀ d ∈ l₁, d ∈ D) (h₂ : ∀ d ∈ l₂, d ∈ D) (n₁ : Normal l₁) (n₂ : Normal l₂)
    (h : value b l₁ = value b l₂) : l₁ = l₂ := by
  induction l₁ generalizing l₂ with
  | nil => exact (eq_nil_of_value_eq_zero hD h0 hb h₂ n₂ h.symm).symm
  | cons d₁ r₁ ih =>
    cases l₂ with
    | nil => exact eq_nil_of_value_eq_zero hD h0 hb h₁ n₁ h
    | cons d₂ r₂ =>
      rw [value_cons, value_cons] at h
      -- the first digits are congruent, hence equal; the rests then have one value
      have hd : d₁ = d₂ := by
        refine hD (h₁ d₁ List.mem_cons_self) (h₂ d₂ List.mem_cons_self) ?_
        rw [Int.ModEq, ← Int.add_mul_emod_self_left d₁ b (value b r₁), h,
          Int.add_mul_emod_self_left]
      have hr : value b r₁ = value b r₂ := by
        rw [hd] at h
        exact mul_left_cancel₀ hb (by linarith)
      rw [hd, ih (fun x hx => h₁ x (List.mem_cons_of_mem _ hx))
        (fun x hx => h₂ x (List.mem_cons_of_mem _ hx)) n₁.tail n₂.tail hr]

end Unique

/-! ### Digits of natural numbers -/

/-- Digit `e` of `u` in base `b`. -/
def digit (b u e : Nat) : Nat := u / b ^ e % b

/-- `u` with digit `e` replaced by `d`. -/
def setDigit (b u e d : Nat) : Nat := u - digit b u e * b ^ e + d * b ^ e

section Digits

variable {b : Nat}

/-- `u` split around digit `e`: the digits below, the digit, and the digits above. -/
theorem eq_low_add_digit (b u e : Nat) :
    u = u % b ^ e + b ^ e * (digit b u e + b * (u / b ^ (e + 1))) := by
  have h1 := Nat.mod_add_div u (b ^ e)
  have h2 := Nat.mod_add_div (u / b ^ e) b
  rw [Nat.div_div_eq_div_mul, ← pow_succ] at h2
  rw [digit, h2]
  exact h1.symm

theorem digit_mul_pow_le (b u e : Nat) : digit b u e * b ^ e ≤ u :=
  calc digit b u e * b ^ e
      ≤ b ^ e * (digit b u e + b * (u / b ^ (e + 1))) := by
        rw [Nat.mul_comm]
        exact Nat.mul_le_mul_left _ (Nat.le_add_right _ _)
    _ ≤ u % b ^ e + b ^ e * (digit b u e + b * (u / b ^ (e + 1))) := Nat.le_add_left _ _
    _ = u := (eq_low_add_digit b u e).symm

theorem setDigit_eq (b u e d : Nat) :
    setDigit b u e d = u % b ^ e + b ^ e * (d + b * (u / b ^ (e + 1))) := by
  have h := eq_low_add_digit b u e
  rw [setDigit]
  generalize u % b ^ e = low at h ⊢
  generalize u / b ^ (e + 1) = high at h ⊢
  generalize digit b u e = x at h ⊢
  rw [Nat.mul_add] at h ⊢
  rw [Nat.mul_comm x, Nat.mul_comm d]
  omega

/-- Digit `e'` of `low + b^e * high` below `e`: a digit of `low`. -/
theorem digit_add_mul_pow_of_lt (hb : 0 < b) (high : Nat) {low e e' : Nat} (h : e' < e) : digit b (low + b ^ e * high) e' = digit b low e' := by
  have hsplit : b ^ e = b ^ e' * (b * b ^ (e - e' - 1)) := by
    rw [← pow_succ', ← pow_add]
    congr 1
    omega
  unfold digit
  rw [hsplit, Nat.mul_assoc, Nat.add_mul_div_left _ _ (by positivity), Nat.mul_assoc,
    Nat.add_mul_mod_self_left]

/-- Digit `e'` of `low + b^e * high` with `low < b^e`, from `e` on: a digit of `high`. -/
theorem digit_add_mul_pow_of_le (hb : 0 < b) (high : Nat) {low e e' : Nat} (hlow : low < b ^ e)
    (h : e ≤ e') : digit b (low + b ^ e * high) e' = digit b high (e' - e) := by
  have hsplit : b ^ e' = b ^ e * b ^ (e' - e) := by
    rw [← pow_add]
    congr 1
    omega
  unfold digit
  rw [hsplit, ← Nat.div_div_eq_div_mul, Nat.add_mul_div_left _ _ (by positivity),
    Nat.div_eq_of_lt hlow, Nat.zero_add]

theorem digit_add_mul_succ (hb : 0 < b) (high : Nat) {x : Nat} (hx : x < b) (k : Nat) :
    digit b (x + b * high) (k + 1) = digit b high k := by
  have h := digit_add_mul_pow_of_le hb high (e := 1) (by rwa [pow_one]) (Nat.le_add_left 1 k)
  rwa [pow_one, Nat.add_sub_cancel] at h

theorem digit_setDigit_self (hb : 0 < b) (u e : Nat) {d : Nat} (hd : d < b) :
    digit b (setDigit b u e d) e = d := by
  rw [setDigit_eq, digit_add_mul_pow_of_le hb _ (Nat.mod_lt _ (by positivity)) le_rfl, Nat.sub_self,
    digit, pow_zero, Nat.div_one, Nat.add_mul_mod_self_left, Nat.mod_eq_of_lt hd]

theorem digit_setDigit_of_ne (hb : 0 < b) (u : Nat) {e e' d : Nat} (hd : d < b) (h : e ≠ e') :
    digit b (setDigit b u e d) e' = digit b u e' := by
  have hlow : u % b ^ e < b ^ e := Nat.mod_lt _ (by positivity)
  rcases Nat.lt_or_gt_of_ne h with h | h
  · -- a digit above `e` is a digit of the part above, which the replacement keeps
    obtain ⟨k, hk⟩ : ∃ k, e' - e = k + 1 := ⟨e' - e - 1, by omega⟩
    rw [setDigit_eq, digit_add_mul_pow_of_le hb _ hlow h.le, hk, digit_add_mul_succ hb _ hd]
    conv_rhs => rw [eq_low_add_digit b u e, digit_add_mul_pow_of_le hb _ hlow h.le, hk,
      digit_add_mul_succ hb _ (show digit b u e < b from Nat.mod_lt _ hb)]
  · -- a digit below `e` is a digit of the part below, which the replacement keeps
    rw [setDigit_eq, digit_add_mul_pow_of_lt hb _ h]
    conv_rhs => rw [eq_low_add_digit b u e, digit_add_mul_pow_of_lt hb _ h]

theorem setDigit_lt (hb : 0 < b) {u n e d : Nat} (hu : u < b ^ n) (he : e < n) (hd : d < b) :
    setDigit b u e d < b ^ n := by
  have hhigh : u / b ^ (e + 1) < b ^ (n - (e + 1)) := by
    rw [Nat.div_lt_iff_lt_mul (by positivity), ← pow_add]
    calc u < b ^ n := hu
      _ = b ^ (n - (e + 1) + (e + 1)) := by congr 1; omega
  have hlow : u % b ^ e < b ^ e := Nat.mod_lt _ (by positivity)
  have hn : b ^ n = b ^ e * (b * b ^ (n - (e + 1))) := by
    rw [← pow_succ', ← pow_add]
    congr 1
    omega
  rw [setDigit_eq, hn]
  calc u % b ^ e + b ^ e * (d + b * (u / b ^ (e + 1)))
      < b ^ e + b ^ e * (d + b * (u / b ^ (e + 1))) := by omega
    _ = b ^ e * (d + 1 + b * (u / b ^ (e + 1))) := by ring
    _ ≤ b ^ e * (b * b ^ (n - (e + 1))) := by
        apply Nat.mul_le_mul_left
        nlinarith
end Digits

end Radix
