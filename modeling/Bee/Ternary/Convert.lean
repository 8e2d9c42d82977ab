import Bee.Ternary.Trit

namespace Bee.Ternary.Convert

/-!
# bee-ternary — numbers from and to trits

`convert.rs`: a trit slice read as a number, least significant trit first, and a
number written as trits.

* `tritsToInt` — `trits_to_int`, generic in the trit kind (`Trit`) and in the
  integer type, which enters only through the range its checked operations keep
  (`IntRange`: `i64`, `u64`, …).  It folds from the most significant trit with
  `acc ← trit + acc + acc + acc`, each addition checked.  `tritsToInt_eq`: it
  returns the value when the value lies in the range, `Overflow` above it,
  `Underflow` below it, and `Empty` for no trits; every intermediate sum lies
  between the old accumulator and the new one (`step_eq`).
* `signedIntTrits`, `unsignedIntTrits` — `signed_int_trits` works on the
  non-positive negation of its input, so that `i64::MIN` does not overflow, and
  takes the residue from `(x + 1).abs() % 3`; `signedIntTrits_minimal` — it
  yields the minimal balanced writing, which is unique (`IsMinimal`,
  `eq_signedIntTrits`).

The iterators that never end in the source when `x` stays non-zero are
recursions on `|x|`, which each step divides by three.
-/

/-- `convert::Error`. -/
inductive Error
  | empty
  | overflow
  | underflow
  deriving DecidableEq, Repr

/-- A primitive integer type, as the range its `checked_add` and `checked_sub` keep;
`Num` gives it zero and one. -/
structure IntRange where
  min : Int
  max : Int
  min_nonpos : min ≤ 0
  one_le_max : 1 ≤ max

/-- `i64`. -/
def i64 : IntRange := ⟨-2 ^ 63, 2 ^ 63 - 1, by decide, by decide⟩

/-- `u64`. -/
def u64 : IntRange := ⟨0, 2 ^ 64 - 1, le_refl 0, by decide⟩

namespace IntRange

/-- A value of the type. -/
def Contains (r : IntRange) (x : Int) : Prop := r.min ≤ x ∧ x ≤ r.max

instance (r : IntRange) : DecidablePred r.Contains := fun x =>
  inferInstanceAs (Decidable (r.min ≤ x ∧ x ≤ r.max))

/-- `checked_add`. -/
def checkedAdd (r : IntRange) (a b : Int) : Option Int := if r.Contains (a + b) then some (a + b) else none

/-- `checked_sub`. -/
def checkedSub (r : IntRange) (a b : Int) : Option Int := if r.Contains (a - b) then some (a - b) else none

end IntRange

/-- `option.ok_or(error)`. -/
def okOr {α : Type} (o : Option α) (error : Error) : Except Error α :=
  match o with
  | some a => .ok a
  | none => .error error

/-- The `Trit` trait: the `i8` of a trit and `add_to_num`. -/
class Trit (τ : Type) where
  toInt : τ → Int
  addToNum : IntRange → τ → Int → Except Error Int

/-- `Btrit::add_to_num`: `checked_sub` of one, nothing, or `checked_add` of one. -/
instance : Trit Btrit where
  toInt := Btrit.toInt
  addToNum r t n := match t with
    | .negOne => okOr (r.checkedSub n 1) .underflow
    | .zero => .ok n
    | .plusOne => okOr (r.checkedAdd n 1) .overflow

/-- `Utrit::add_to_num`: nothing, or `checked_add` of one or of `one + one`. -/
instance : Trit Utrit where
  toInt := Utrit.toInt
  addToNum r t n := match t with
    | .zero => .ok n
    | .one => okOr (r.checkedAdd n 1) .overflow
    | .two => okOr (r.checkedAdd n 2) .overflow

variable {τ : Type} [Trit τ]

/-- The number a trit sequence stands for, least significant trit first. -/
def value (trits : List τ) : Int := Radix.value 3 (trits.map Trit.toInt)

/-- One iteration of the loop of `trits_to_int`: `trit.add_to_num(acc)?`, then twice
`checked_add(old_acc)`, failing with `Underflow` when the old accumulator is negative
and `Overflow` otherwise. -/
def step (r : IntRange) (acc : Int) (trit : τ) : Except Error Int := do
  let oldAcc := acc
  let acc ← Trit.addToNum r trit acc
  okOr ((r.checkedAdd acc oldAcc).bind fun acc => r.checkedAdd acc oldAcc)
    (if oldAcc < 0 then .underflow else .overflow)

/-- `trits_to_int`: `Empty` for no trits, else the fold from the most significant trit. -/
def tritsToInt (r : IntRange) (trits : List τ) : Except Error Int :=
  if trits.isEmpty then .error .empty else trits.reverse.foldlM (step r) 0

/-! ### `trits_to_int` -/

@[simp] theorem value_nil : value ([] : List τ) = 0 := rfl

@[simp] theorem value_cons (t : τ) (ts : List τ) : value (t :: ts) = Trit.toInt t + 3 * value ts := rfl

/-- What a number of the range becomes once a trit is added to it, as `trits_to_int`
reports it. -/
def outcome (r : IntRange) (v : Int) : Except Error Int :=
  if r.Contains v then .ok v else .error (if v < r.min then .underflow else .overflow)

/-- The law of `add_to_num` that the two trit kinds share. -/
def AddLaw (τ : Type) [Trit τ] : Prop :=
  ∀ (r : IntRange) (t : τ) (n : Int), r.Contains n →
    Trit.addToNum r t n = if r.Contains (n + Trit.toInt t) then .ok (n + Trit.toInt t)
      else .error (if Trit.toInt t < 0 then .underflow else .overflow)

/-- The trits of a kind lie in `-1..=2`. -/
def DigitRange (τ : Type) [Trit τ] : Prop := ∀ t : τ, -1 ≤ Trit.toInt t ∧ Trit.toInt t ≤ 2

theorem okOr_checkedAdd_eq (r : IntRange) (a b : Int) (e : Error) :
    okOr (r.checkedAdd a b) e = if r.Contains (a + b) then .ok (a + b) else .error e := by
  unfold okOr IntRange.checkedAdd
  split_ifs <;> rfl

theorem okOr_checkedSub_eq (r : IntRange) (a b : Int) (e : Error) :
    okOr (r.checkedSub a b) e = if r.Contains (a - b) then .ok (a - b) else .error e := by
  unfold okOr IntRange.checkedSub
  split_ifs <;> rfl

theorem addLaw_btrit : AddLaw Btrit := by
  intro r t n hn
  cases t with
  | negOne =>
    show okOr (r.checkedSub n 1) .underflow = if r.Contains (n + -1) then .ok (n + -1)
      else .error (if (-1 : Int) < 0 then Error.underflow else Error.overflow)
    rw [okOr_checkedSub_eq, if_pos (show (-1 : Int) < 0 by norm_num), ← sub_eq_add_neg]
  | zero =>
    show Except.ok n = if r.Contains (n + 0) then .ok (n + 0)
      else .error (if (0 : Int) < 0 then Error.underflow else Error.overflow)
    rw [add_zero, if_pos hn]
  | plusOne =>
    show okOr (r.checkedAdd n 1) .overflow = if r.Contains (n + 1) then .ok (n + 1)
      else .error (if (1 : Int) < 0 then Error.underflow else Error.overflow)
    rw [okOr_checkedAdd_eq, if_neg (show ¬(1 : Int) < 0 by norm_num)]

theorem addLaw_utrit : AddLaw Utrit := by
  intro r t n hn
  cases t with
  | zero =>
    show Except.ok n = if r.Contains (n + 0) then .ok (n + 0)
      else .error (if (0 : Int) < 0 then Error.underflow else Error.overflow)
    rw [add_zero, if_pos hn]
  | one =>
    show okOr (r.checkedAdd n 1) .overflow = if r.Contains (n + 1) then .ok (n + 1)
      else .error (if (1 : Int) < 0 then Error.underflow else Error.overflow)
    rw [okOr_checkedAdd_eq, if_neg (show ¬(1 : Int) < 0 by norm_num)]
  | two =>
    show okOr (r.checkedAdd n 2) .overflow = if r.Contains (n + 2) then .ok (n + 2)
      else .error (if (2 : Int) < 0 then Error.underflow else Error.overflow)
    rw [okOr_checkedAdd_eq, if_neg (show ¬(2 : Int) < 0 by norm_num)]

theorem digitRange_btrit : DigitRange Btrit := fun t => by
  show -1 ≤ t.toInt ∧ t.toInt ≤ 2
  rcases t.toInt_mem with h | h | h <;> omega

theorem digitRange_utrit : DigitRange Utrit := fun t => by
  show -1 ≤ t.toInt ∧ t.toInt ≤ 2
  rcases t.toInt_mem with h | h | h <;> omega

theorem outcome_of_lt {r : IntRange} {v : Int} (h : v < r.min) : outcome r v = .error .underflow := by
  rw [outcome, if_neg (fun hv => absurd hv.1 (not_le.mpr h)), if_pos h]

theorem outcome_of_gt {r : IntRange} {v : Int} (h : r.max < v) : outcome r v = .error .overflow := by
  have hmin := r.min_nonpos
  have hmax := r.one_le_max
  rw [outcome, if_neg (fun hv => absurd hv.2 (not_le.mpr h)), if_neg (by omega)]

/-- The two checked additions of `old_acc` to `acc + trit`, for `acc + trit` in the range:
they fail exactly when `3 acc + trit` leaves it, which it does on the side of `acc`'s
sign. -/
theorem okOr_double_add {r : IntRange} {acc d : Int} (ha : r.Contains (acc + d)) :
    okOr ((r.checkedAdd (acc + d) acc).bind fun a => r.checkedAdd a acc)
        (if acc < 0 then .underflow else .overflow) = outcome r (d + 3 * acc) := by
  have hsum : acc + d + acc + acc = d + 3 * acc := by ring
  rw [IntRange.checkedAdd]
  unfold IntRange.Contains at ha
  by_cases h1 : r.Contains (acc + d + acc)
  · rw [if_pos h1, Option.bind_some, okOr_checkedAdd_eq, hsum]
    by_cases h2 : r.Contains (d + 3 * acc)
    · rw [if_pos h2, outcome, if_pos h2]
    · -- the second addition leaves the range, on the side of `acc`
      rw [if_neg h2]
      unfold IntRange.Contains at h1 h2
      split_ifs with hneg
      · rw [outcome_of_lt (by omega)]
      · rw [outcome_of_gt (by omega)]
  · -- the first addition already leaves the range, and the sum goes further
    rw [if_neg h1, Option.bind_none]
    unfold IntRange.Contains at h1
    split_ifs with hneg
    · rw [outcome_of_lt (by omega)]
      rfl
    · rw [outcome_of_gt (by omega)]
      rfl

section Step

variable (hadd : AddLaw τ) (hdig : DigitRange τ)
include hadd hdig

/-- One iteration from a number of the range: the new value, or the error its side of
the range names. -/
theorem step_eq (r : IntRange) {acc : Int} (hacc : r.Contains acc) (t : τ) :
    step r acc t = outcome r (Trit.toInt t + 3 * acc) := by
  have hd := hdig t
  have hmin := r.min_nonpos
  have hmax := r.one_le_max
  show (Trit.addToNum r t acc >>= fun a => okOr ((r.checkedAdd a acc).bind fun a => r.checkedAdd a acc)
    (if acc < 0 then .underflow else .overflow)) = _
  rw [hadd r t acc hacc]
  by_cases ha : r.Contains (acc + Trit.toInt t)
  · rw [if_pos ha]
    exact okOr_double_add ha
  · -- `add_to_num` itself fails, at the end of the range its trit pushes towards
    rw [if_neg ha]
    unfold IntRange.Contains at hacc ha
    by_cases hneg : Trit.toInt t < 0
    · rw [if_pos hneg, outcome_of_lt (by omega)]
      rfl
    · rw [if_neg hneg, outcome_of_gt (by omega)]
      rfl

/-- A value outside the range stays outside, on the same side, once a trit is added. -/
theorem outcome_bind_step (r : IntRange) (v : Int) (t : τ) :
    (outcome r v >>= fun acc => step r acc t) = outcome r (Trit.toInt t + 3 * v) := by
  have hd := hdig t
  have hmin := r.min_nonpos
  have hmax := r.one_le_max
  by_cases hv : r.Contains v
  · rw [outcome, if_pos hv]
    exact step_eq hadd hdig r hv t
  · unfold IntRange.Contains at hv
    rcases not_and_or.mp hv with hlt | hgt
    · rw [outcome_of_lt (not_le.mp hlt), outcome_of_lt (by omega)]
      rfl
    · rw [outcome_of_gt (not_le.mp hgt), outcome_of_gt (by omega)]
      rfl

/-- `trits_to_int` returns the value of the trits when the type holds it, and names the
side of the range it leaves otherwise. -/
theorem tritsToInt_eq (r : IntRange) (trits : List τ) :
    tritsToInt r trits = if trits = [] then .error .empty else outcome r (value trits) := by
  unfold tritsToInt
  by_cases hne : trits = []
  · subst hne
    rfl
  · rw [if_neg (by simpa using hne), if_neg hne, List.foldlM_reverse]
    -- the fold from the most significant trit, by induction on the trits below it
    suffices h : ∀ l : List τ, l.foldrM (fun t acc => step r acc t) 0 = outcome r (value l) from h trits
    intro l
    induction l with
    | nil => rw [value_nil, outcome, if_pos ⟨r.min_nonpos, by linarith [r.one_le_max]⟩]; rfl
    | cons t l ih =>
      rw [List.foldrM_cons, ih, outcome_bind_step hadd hdig, value_cons]

end Step

/-! ### `signed_int_trits` and `unsigned_int_trits` -/

/-- The next value of the loop of `signed_int_trits`: `x / 3`, less one when the residue
read from `(x + 1).abs()` is one. -/
def signedNext (x : Int) : Int := x.tdiv 3 + if (x + 1).natAbs % 3 = 1 then -1 else 0

theorem natAbs_signedNext_lt {x : Int} (hx : x ≠ 0) : (signedNext x).natAbs < x.natAbs := by
  have h := Int.natAbs_tdiv x 3
  change _ = x.natAbs / 3 at h
  have h1 := Int.natAbs_add_le (x.tdiv 3) (-1)
  unfold signedNext
  -- the residue is one only for `|x| ≥ 2`, where `|x| / 3 + 1 < |x|`
  split_ifs with hm <;> omega

/-- The loop of `signed_int_trits` on the non-positive negation `x` of the input; `none`
if the `Btrit::try_from(..).unwrap()` panics. -/
def signedIntTritsLoop (isNeg : Bool) (x : Int) : Option (List Btrit) :=
  if hx : x = 0 then some []
  else do
    let modulus : Int := ((x + 1).natAbs % 3 : Nat)
    let t ← Btrit.tryFrom (((modulus + 2) % 3 - 1) * if isNeg then -1 else 1)
    let rest ← signedIntTritsLoop isNeg (signedNext x)
    pure (t :: rest)
termination_by x.natAbs
decreasing_by exact natAbs_signedNext_lt hx

/-- `signed_int_trits`: the loop on `x` made non-positive, then one `Zero` for zero. -/
def signedIntTrits (x : Int) : Option (List Btrit) :=
  let isNeg := decide (x < 0)
  let x := if isNeg then x else -x
  (signedIntTritsLoop isNeg x).map fun trits => trits ++ if x = 0 then [.zero] else []

/-- The loop of `unsigned_int_trits`; `none` if the `Utrit::try_from(..).unwrap()` panics. -/
def unsignedIntTritsLoop (x : Nat) : Option (List Utrit) :=
  if hx : x = 0 then some []
  else do
    let t ← Utrit.tryFrom (x % 3 : Nat)
    let rest ← unsignedIntTritsLoop (x / 3)
    pure (t :: rest)
termination_by x
decreasing_by omega

/-- `unsigned_int_trits`: the loop, then one `Zero` for zero. -/
def unsignedIntTrits (x : Nat) : Option (List Utrit) :=
  (unsignedIntTritsLoop x).map fun trits => trits ++ if x = 0 then [.zero] else []

/-- One iteration of `signed_int_trits` on `-n`, `n > 0`: a digit `d` of `-1..=1`, signed
by `is_neg`, and the next value `-q`, with `n = d + 3 q`. -/
theorem signedIntTritsLoop_pos (isNeg : Bool) {n : Nat} (hn : 0 < n) :
    ∃ (d : Int) (q : Nat), -1 ≤ d ∧ d ≤ 1 ∧ (n : Int) = d + 3 * q ∧ q < n ∧
      signedIntTritsLoop isNeg (-n) = (Btrit.tryFrom (d * if isNeg then -1 else 1)).bind
        fun t => (signedIntTritsLoop isNeg (-q)).bind fun rest => some (t :: rest) := by
  have htdiv : (-(n : Int)).tdiv 3 = -((n / 3 : Nat) : Int) := by
    rw [Int.neg_tdiv]
    norm_cast
  -- the residue of `(1 - n).abs()` is `(n - 1) % 3`, and one of it means `n ≡ 2`
  refine ⟨((((-(n : Int) + 1).natAbs % 3 : Nat) : Int) + 2) % 3 - 1,
    n / 3 + if (-(n : Int) + 1).natAbs % 3 = 1 then 1 else 0, ?_, ?_, ?_, ?_, ?_⟩
  · omega
  · omega
  · split_ifs <;> omega
  · split_ifs <;> omega
  · have hnext : signedNext (-n) = -((n / 3 + if (-(n : Int) + 1).natAbs % 3 = 1 then 1 else 0 : Nat) : Int) := by
      rw [signedNext, htdiv]
      split_ifs <;> omega
    rw [signedIntTritsLoop, dif_neg (by omega), ← hnext]
    rfl

/-- The loop of `signed_int_trits` on `-n` writes `n`, or `-n` for a negative input,
without a trailing zero. -/
theorem signedIntTritsLoop_eq (isNeg : Bool) (n : Nat) :
    ∃ trits, signedIntTritsLoop isNeg (-n) = some trits ∧
      value trits = (if isNeg then -1 else 1) * n ∧ Radix.Normal (trits.map Trit.toInt) := by
  induction n using Nat.strong_induction_on with
  | _ n ih =>
  rcases Nat.eq_zero_or_pos n with rfl | hn
  · refine ⟨[], ?_, by simp, Radix.Normal.nil⟩
    rw [signedIntTritsLoop, dif_pos (by simp)]
  · obtain ⟨d, q, hd₁, hd₂, hnq, hq, hloop⟩ := signedIntTritsLoop_pos isNeg hn
    obtain ⟨rest, hrest, hval, hnorm⟩ := ih q hq
    have hsign : (-1 : Int) ≤ d * (if isNeg then -1 else 1) ∧ d * (if isNeg then -1 else 1) ≤ 1 := by
      split_ifs <;> omega
    obtain ⟨t, ht, htd⟩ := Btrit.exists_tryFrom_eq hsign.1 hsign.2
    refine ⟨t :: rest, by rw [hloop, ht, hrest]; rfl, ?_, ?_⟩
    · show t.toInt + 3 * value rest = _
      rw [htd, hval, hnq]
      ring
    · -- the last digit is not zero: when the rest is empty, `q = 0` and the digit is `n`
      refine Radix.Normal.cons hnorm ?_
      by_cases hnil : rest = []
      · subst hnil
        right
        show t.toInt ≠ 0
        simp only [value_nil] at hval
        rw [htd]
        split_ifs at hval ⊢ <;> omega
      · left
        simpa using hnil

/-- The loop of `unsigned_int_trits` writes `n` without a trailing zero. -/
theorem unsignedIntTritsLoop_eq (n : Nat) :
    ∃ trits, unsignedIntTritsLoop n = some trits ∧ value trits = n ∧
      Radix.Normal (trits.map Trit.toInt) := by
  induction n using Nat.strong_induction_on with
  | _ n ih =>
  rcases Nat.eq_zero_or_pos n with rfl | hn
  · refine ⟨[], ?_, by simp, Radix.Normal.nil⟩
    rw [unsignedIntTritsLoop, dif_pos rfl]
  · obtain ⟨rest, hrest, hval, hnorm⟩ := ih (n / 3) (by omega)
    obtain ⟨t, ht, htd⟩ := Utrit.exists_tryFrom_eq (x := ((n % 3 : Nat) : Int)) (by omega) (by omega)
    refine ⟨t :: rest, ?_, ?_, ?_⟩
    · rw [unsignedIntTritsLoop, dif_neg (by omega), ht, hrest]
      rfl
    · show t.toInt + 3 * value rest = _
      rw [htd, hval]
      omega
    · refine Radix.Normal.cons hnorm ?_
      by_cases hnil : rest = []
      · subst hnil
        right
        show t.toInt ≠ 0
        simp only [value_nil] at hval
        rw [htd]
        omega
      · left
        simpa using hnil

/-! ### Minimal writings -/

/-- A minimal writing: a single `Zero` for zero, and otherwise no trailing `Zero`. -/
def IsMinimal (trits : List τ) : Prop :=
  trits.map Trit.toInt = [0] ∨ (trits ≠ [] ∧ Radix.Normal (trits.map Trit.toInt))

/-- A normal writing with one `Zero` appended when it is empty, as `*_int_trits` chain
it: minimal, of the same value. -/
theorem isMinimal_append_zero {trits : List τ} {z : τ} (hz : Trit.toInt z = 0)
    (hn : Radix.Normal (trits.map Trit.toInt)) :
    IsMinimal (trits ++ if trits = [] then [z] else []) ∧
      value (trits ++ if trits = [] then [z] else []) = value trits := by
  by_cases h : trits = []
  · subst h
    refine ⟨Or.inl ?_, ?_⟩ <;> simp [hz]
  · rw [if_neg h, List.append_nil]
    exact ⟨Or.inr ⟨h, hn⟩, rfl⟩

section Unique

variable (hinj : Function.Injective (Trit.toInt : τ → Int))
  (hres : Radix.Residues 3 (Set.range (Trit.toInt : τ → Int)))
  (h0 : (0 : Int) ∈ Set.range (Trit.toInt : τ → Int))

include hres h0 in
/-- A normal writing of zero is empty. -/
theorem eq_nil_of_value_eq_zero {trits : List τ} (hn : Radix.Normal (trits.map Trit.toInt))
    (hv : value trits = 0) : trits = [] := by
  have h := Radix.eq_nil_of_value_eq_zero hres h0 (by norm_num)
    (fun d hd => by obtain ⟨t, -, rfl⟩ := List.mem_map.mp hd; exact ⟨t, rfl⟩) hn hv
  simpa using h

include hinj hres h0 in
/-- A number has one minimal writing. -/
theorem eq_of_isMinimal {t₁ t₂ : List τ} (h₁ : IsMinimal t₁) (h₂ : IsMinimal t₂)
    (h : value t₁ = value t₂) : t₁ = t₂ := by
  have hzero : ∀ {t : List τ}, t.map Trit.toInt = [0] → value t = 0 := fun ht => by
    rw [value, ht]
    rfl
  have hmem : ∀ t : List τ, ∀ d ∈ t.map Trit.toInt, d ∈ Set.range (Trit.toInt : τ → Int) :=
    fun t d hd => by obtain ⟨a, -, rfl⟩ := List.mem_map.mp hd; exact ⟨a, rfl⟩
  apply (List.map_injective_iff.mpr hinj)
  rcases h₁ with h₁ | ⟨hne₁, n₁⟩ <;> rcases h₂ with h₂ | ⟨hne₂, n₂⟩
  · rw [h₁, h₂]
  · -- zero has no other minimal writing
    exact absurd (eq_nil_of_value_eq_zero hres h0 n₂ (h ▸ hzero h₁)) hne₂
  · exact absurd (eq_nil_of_value_eq_zero hres h0 n₁ (h.symm ▸ hzero h₂)) hne₁
  · exact Radix.eq_of_value_eq hres h0 (by norm_num) (hmem t₁) (hmem t₂) n₁ n₂ h

end Unique

/-! ### `signed_int_trits` and `unsigned_int_trits` write minimally -/

/-- `signed_int_trits` makes its input non-positive, `-|x|`, and its digits carry the sign
of `x` back: `sign * |x| = x`. -/
theorem signed_input_eq (x : Int) :
    (if decide (x < 0) then x else -x) = -(x.natAbs : Int) ∧
      (if decide (x < 0) then -1 else 1) * (x.natAbs : Int) = x := by
  by_cases h : x < 0
  · rw [decide_eq_true h, if_pos rfl, if_pos rfl]
    omega
  · rw [decide_eq_false h, if_neg Bool.false_ne_true, if_neg Bool.false_ne_true]
    omega

theorem signedIntTrits_eq (x : Int) :
    ∃ trits, signedIntTrits x = some trits ∧ value trits = x ∧ IsMinimal trits := by
  obtain ⟨trits, hloop, hval, hnorm⟩ := signedIntTritsLoop_eq (decide (x < 0)) x.natAbs
  obtain ⟨hy, hsign⟩ := signed_input_eq x
  have hx : value trits = x := hval.trans hsign
  -- the loop writes nothing exactly for zero, where the `Zero` is chained
  have hnil : x = 0 ↔ trits = [] :=
    ⟨fun h => eq_nil_of_value_eq_zero Btrit.residues_range_toInt ⟨.zero, rfl⟩ hnorm (hx.trans h),
      fun h => by rw [← hx, h, value_nil]⟩
  obtain ⟨hmin, hv⟩ := isMinimal_append_zero (z := Btrit.zero) rfl hnorm
  refine ⟨_, ?_, hv.trans hx, hmin⟩
  simp only [signedIntTrits, hy, hloop, Option.map_some, neg_eq_zero, Int.natCast_eq_zero,
    Int.natAbs_eq_zero, hnil]

theorem unsignedIntTrits_eq (x : Nat) :
    ∃ trits, unsignedIntTrits x = some trits ∧ value trits = x ∧ IsMinimal trits := by
  obtain ⟨trits, hloop, hval, hnorm⟩ := unsignedIntTritsLoop_eq x
  have hnil : x = 0 ↔ trits = [] :=
    ⟨fun h => eq_nil_of_value_eq_zero Utrit.residues_range_toInt ⟨.zero, rfl⟩ hnorm
      (by rw [hval, h, Nat.cast_zero]),
      fun h => by rw [← Nat.cast_inj (R := Int), ← hval, h, value_nil, Nat.cast_zero]⟩
  obtain ⟨hmin, hv⟩ := isMinimal_append_zero (z := Utrit.zero) rfl hnorm
  refine ⟨_, ?_, hv.trans hval, hmin⟩
  simp only [unsignedIntTrits, hloop, Option.map_some, hnil]

theorem int_trits_conversion_exact :
    (∀ x : Int, ∃ trits, signedIntTrits x = some trits ∧ value trits = x ∧ IsMinimal trits ∧
        ∀ other : List Btrit, value other = x → IsMinimal other → other = trits) ∧
    (∀ trits : List Btrit, tritsToInt i64 trits =
        if trits = [] then .error .empty else outcome i64 (value trits)) ∧
    (∀ x : Nat, ∃ trits, unsignedIntTrits x = some trits ∧ value trits = x ∧ IsMinimal trits ∧
        ∀ other : List Utrit, value other = x → IsMinimal other → other = trits) ∧
    (∀ trits : List Utrit, tritsToInt u64 trits =
        if trits = [] then .error .empty else outcome u64 (value trits)) := by
  refine ⟨fun x => ?_, tritsToInt_eq addLaw_btrit digitRange_btrit i64, fun x => ?_,
    tritsToInt_eq addLaw_utrit digitRange_utrit u64⟩
  · obtain ⟨trits, h, hv, hm⟩ := signedIntTrits_eq x
    exact ⟨trits, h, hv, hm, fun other hv' hm' => eq_of_isMinimal Btrit.toInt_injective
      Btrit.residues_range_toInt ⟨.zero, rfl⟩ hm' hm (hv'.trans hv.symm)⟩
  · obtain ⟨trits, h, hv, hm⟩ := unsignedIntTrits_eq x
    exact ⟨trits, h, hv, hm, fun other hv' hm' => eq_of_isMinimal Utrit.toInt_injective
      Utrit.residues_range_toInt ⟨.zero, rfl⟩ hm' hm (hv'.trans hv.symm)⟩

end Bee.Ternary.Convert
