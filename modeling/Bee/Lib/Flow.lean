import Mathlib

/-!
# Computations with an early result and an error

`ExceptT ε (Except δ) α`: a computation that ends with a value of `α`, stops
early with a result of `ε` (a verdict, not a failure), or fails with an error
of `δ`.  Running it gives `.ok (.ok a)`, `.ok (.error r)` or `.error e`.

`run_pure`, `run_throw` and `run_throwThe` run the three ways to end.  The
lemmas below peel a `do` block apart by what its run ends with, so that
a caller can `obtain` the run of each step instead of unfolding the block:

* `run_bind_eq_ok_ok` — a bind ends with a value iff both steps do;
* `run_bind_eq_ok_error` — it stops early iff the first step does, or the
  second after a value of the first;
* `run_mapM_eq_ok_ok` — a `mapM` ends with values iff every step does, pointwise
  (`bind_eq_ok` and `mapM_eq_ok` in `Except` alone), which `map_eq_map_of_forall₂` and
  `exists_of_forall₂_of_mem_right` read back;
* `run_mapM_eq_ok_error` — a `mapM` stops early only where one of its steps
  does; `mapM_eq_some_map`, `forall₂_of_mapM_eq_some` —
  a `mapM` in `Option` whose steps all succeed, and what one that succeeds returns;
* `run_foldlM_eq_ok_error` — so does a `foldlM`;
* `run_foldlM_invariant`, `run_foldlM_sum` — what each step of a `foldlM` that
  ends with a value keeps, and what it adds up; `foldlM_invariant`, `foldlM_isSome` — the
  same in `Option`, and a `foldlM` whose steps never fail;
* `eq_some_ok_of_test`, `eq_some_error_of_forget` — a closed result read back
  from a comparison that `decide` can evaluate.
-/

namespace Flow

variable {ε δ α β : Type}

@[simp] theorem pure_eq_ok (a : α) : (pure a : Except δ α) = .ok a := rfl

@[simp] theorem ok_bind (a : α) (f : α → Except δ β) : (Except.ok a >>= f) = f a := rfl

theorem eq_ok_of_isOk {x : Except δ Unit} (h : x.isOk = true) : x = .ok () := by
  cases x with
  | error e => simp [Except.isOk, Except.toBool] at h
  | ok u => rfl

@[simp] theorem run_pure (a : α) : (pure a : ExceptT ε (Except δ) α).run = .ok (.ok a) := rfl

@[simp] theorem run_throw (r : ε) : (throw r : ExceptT ε (Except δ) α).run = .ok (.error r) := rfl

@[simp] theorem run_throwThe (e : δ) : (throwThe δ e : ExceptT ε (Except δ) α).run = .error e := rfl

theorem run_bind_eq_ok_ok {x : ExceptT ε (Except δ) α} {f : α → ExceptT ε (Except δ) β} {b : β} :
    (x >>= f).run = .ok (.ok b) ↔ ∃ a, x.run = .ok (.ok a) ∧ (f a).run = .ok (.ok b) := by
  simp only [ExceptT.run_bind]
  rcases x.run with e | (r | a)
  · simp [bind, Except.bind]
  · simp [bind, Except.bind, pure, Except.pure]
  · simp [bind, Except.bind]

theorem run_bind_eq_ok_error {x : ExceptT ε (Except δ) α} {f : α → ExceptT ε (Except δ) β} {r : ε} :
    (x >>= f).run = .ok (.error r) ↔
      x.run = .ok (.error r) ∨ ∃ a, x.run = .ok (.ok a) ∧ (f a).run = .ok (.error r) := by
  simp only [ExceptT.run_bind]
  rcases x.run with e | (r' | a)
  · simp [bind, Except.bind]
  · simp [bind, Except.bind, pure, Except.pure]
  · simp [bind, Except.bind]

theorem run_mapM_eq_ok_ok {f : α → ExceptT ε (Except δ) β} {xs : List α} {ys : List β} :
    (xs.mapM f).run = .ok (.ok ys) ↔ List.Forall₂ (fun x y => (f x).run = .ok (.ok y)) xs ys := by
  induction xs generalizing ys with
  | nil =>
    rw [List.mapM_nil, ExceptT.run_pure]
    cases ys <;> simp [pure, Except.pure]
  | cons x xs ih =>
    simp only [List.mapM_cons, run_bind_eq_ok_ok, ExceptT.run_pure, ih]
    cases ys with
    | nil => simp [pure, Except.pure]
    | cons y ys => simp [pure, Except.pure]

/-- A bind in `Except` alone returns a value iff both steps do. -/
theorem bind_eq_ok {x : Except δ α} {f : α → Except δ β} {b : β} :
    x >>= f = .ok b ↔ ∃ a, x = .ok a ∧ f a = .ok b := by
  cases x <;> simp [bind, Except.bind]

/-- The same for a `mapM` in `Except` alone. -/
theorem mapM_eq_ok {f : α → Except δ β} {xs : List α} {ys : List β} :
    xs.mapM f = .ok ys ↔ List.Forall₂ (fun x y => f x = .ok y) xs ys := by
  induction xs generalizing ys with
  | nil => cases ys <;> simp [pure, Except.pure]
  | cons x xs ih =>
    -- split on the head's step and the tail's run
    cases ys with
    | nil =>
      cases hx : f x with
      | error e => simp [List.mapM_cons, hx, bind, Except.bind]
      | ok y => cases hxs : xs.mapM f <;> simp [List.mapM_cons, hx, hxs, bind, Except.bind, pure, Except.pure]
    | cons y ys =>
      rw [List.forall₂_cons, ← ih, List.mapM_cons]
      cases hx : f x with
      | error e => simp [bind, Except.bind]
      | ok y => cases xs.mapM f <;> simp [bind, Except.bind, pure, Except.pure]

/-- A `mapM` in `Option` whose every step returns `g x` returns `xs.map g`. -/
theorem mapM_eq_some_map {f : α → Option β} {g : α → β} {xs : List α}
    (h : ∀ x ∈ xs, f x = some (g x)) : xs.mapM f = some (xs.map g) := by
  induction xs with
  | nil => rfl
  | cons x xs ih =>
    rw [List.mapM_cons, h x List.mem_cons_self, ih (fun y hy => h y (List.mem_cons_of_mem _ hy))]
    rfl

/-- A `mapM` in `Option` whose every step succeeds succeeds, with one value per input. -/
theorem exists_mapM_eq_some {f : α → Option β} {xs : List α} (h : ∀ x ∈ xs, (f x).isSome) :
    ∃ ys, xs.mapM f = some ys ∧ ys.length = xs.length := by
  induction xs with
  | nil => exact ⟨[], rfl, rfl⟩
  | cons x xs ih =>
    obtain ⟨y, hy⟩ := Option.isSome_iff_exists.mp (h x List.mem_cons_self)
    obtain ⟨ys, hys, hlen⟩ := ih (fun z hz => h z (List.mem_cons_of_mem _ hz))
    refine ⟨y :: ys, ?_, by simp [hlen]⟩
    rw [List.mapM_cons, hy, hys]
    rfl

/-- Two `mapM`s in `Option` whose steps agree on the list agree. -/
theorem mapM_congr {f g : α → Option β} {xs : List α} (h : ∀ x ∈ xs, f x = g x) :
    xs.mapM f = xs.mapM g := by
  induction xs with
  | nil => rfl
  | cons x xs ih =>
    rw [List.mapM_cons, List.mapM_cons, h x List.mem_cons_self,
      ih (fun y hy => h y (List.mem_cons_of_mem _ hy))]

/-- A `mapM` in `Option` that returns values relates its input and its output
pointwise. -/
theorem forall₂_of_mapM_eq_some {f : α → Option β} {xs : List α} {ys : List β}
    (h : xs.mapM f = some ys) : List.Forall₂ (fun x y => f x = some y) xs ys := by
  induction xs generalizing ys with
  | nil =>
    cases h
    exact List.Forall₂.nil
  | cons x xs ih =>
    simp only [List.mapM_cons, Option.bind_eq_bind, Option.bind_eq_some_iff, Option.pure_def,
      Option.some.injEq] at h
    obtain ⟨y, hy, zs, hzs, rfl⟩ := h
    exact List.Forall₂.cons hy (ih hzs)

/-- Lists related pointwise by "the image of the right element is the image of
the left one" have equal images: what a `mapM` computes, read off its input. -/
theorem map_eq_map_of_forall₂ {γ : Type} {R : α → β → Prop} {l₁ : List α} {l₂ : List β}
    (hl : List.Forall₂ R l₁ l₂) {f : α → γ} {g : β → γ} (h : ∀ a b, R a b → g b = f a) :
    l₂.map g = l₁.map f := by
  induction hl with
  | nil => rfl
  | cons hab _ ih => rw [List.map_cons, List.map_cons, h _ _ hab, ih]

/-- Every element on the right of a pointwise relation has a partner on the left. -/
theorem exists_of_forall₂_of_mem_right {R : α → β → Prop} {l₁ : List α} {l₂ : List β}
    (hl : List.Forall₂ R l₁ l₂) {b : β} (hb : b ∈ l₂) : ∃ a ∈ l₁, R a b := by
  induction hl with
  | nil => cases hb
  | cons hab _ ih =>
    rcases List.mem_cons.mp hb with rfl | hb
    · exact ⟨_, List.mem_cons_self, hab⟩
    · obtain ⟨a, ha, hr⟩ := ih hb
      exact ⟨a, List.mem_cons_of_mem _ ha, hr⟩

theorem run_mapM_eq_ok_error {f : α → ExceptT ε (Except δ) β} {xs : List α} {r : ε}
    (h : (xs.mapM f).run = .ok (.error r)) : ∃ x ∈ xs, (f x).run = .ok (.error r) := by
  induction xs with
  | nil =>
    rw [List.mapM_nil, ExceptT.run_pure] at h
    simp [pure, Except.pure] at h
  | cons x xs ih =>
    rw [List.mapM_cons, run_bind_eq_ok_error] at h
    rcases h with hx | ⟨_, -, h⟩
    · exact ⟨x, List.mem_cons_self, hx⟩
    rw [run_bind_eq_ok_error] at h
    rcases h with hxs | ⟨_, -, h⟩
    · obtain ⟨y, hy, hfy⟩ := ih hxs
      exact ⟨y, List.mem_cons_of_mem _ hy, hfy⟩
    · rw [ExceptT.run_pure] at h
      simp [pure, Except.pure] at h

section Fold

variable {f : β → α → ExceptT ε (Except δ) β}

theorem run_foldlM_eq_ok_error {l : List α} {init : β} {r : ε}
    (h : (l.foldlM f init).run = .ok (.error r)) : ∃ x ∈ l, ∃ b, (f b x).run = .ok (.error r) := by
  induction l generalizing init with
  | nil =>
    rw [List.foldlM_nil, ExceptT.run_pure] at h
    simp [pure, Except.pure] at h
  | cons x xs ih =>
    rw [List.foldlM_cons, run_bind_eq_ok_error] at h
    rcases h with hx | ⟨b, -, hrest⟩
    · exact ⟨x, List.mem_cons_self, init, hx⟩
    · obtain ⟨y, hy, b', hb'⟩ := ih hrest
      exact ⟨y, List.mem_cons_of_mem _ hy, b', hb'⟩

/-- A property every step keeps holds after a `foldlM` that ends with a value. -/
theorem run_foldlM_invariant (P : β → Prop) {l : List α}
    (hstep : ∀ b x b', x ∈ l → P b → (f b x).run = .ok (.ok b') → P b')
    {init b : β} (h : (l.foldlM f init).run = .ok (.ok b)) (hinit : P init) : P b := by
  induction l generalizing init with
  | nil =>
    rw [List.foldlM_nil, ExceptT.run_pure] at h
    simp only [pure, Except.pure, Except.ok.injEq] at h
    exact h ▸ hinit
  | cons x xs ih =>
    rw [List.foldlM_cons, run_bind_eq_ok_ok] at h
    obtain ⟨b₁, hx, hrest⟩ := h
    exact ih (fun b y b' hy => hstep b y b' (List.mem_cons_of_mem _ hy)) hrest
      (hstep init x b₁ List.mem_cons_self hinit hx)

/-- Every element of a `foldlM` that ends with a value passed its step. -/
theorem run_foldlM_forall (Q : α → Prop) (hstep : ∀ b x b', (f b x).run = .ok (.ok b') → Q x)
    {l : List α} {init b : β} (h : (l.foldlM f init).run = .ok (.ok b)) : ∀ x ∈ l, Q x := by
  induction l generalizing init with
  | nil => simp
  | cons x xs ih =>
    rw [List.foldlM_cons, run_bind_eq_ok_ok] at h
    obtain ⟨b₁, hx, hrest⟩ := h
    intro y hy
    rcases List.mem_cons.mp hy with rfl | hy
    · exact hstep init y b₁ hx
    · exact ih hrest y hy

/-- A quantity each step raises by the weight of its element is raised by the
total weight over a `foldlM` that ends with a value. -/
theorem run_foldlM_sum (g : β → Nat) (w : α → Nat)
    (hstep : ∀ b x b', (f b x).run = .ok (.ok b') → g b' = g b + w x)
    {l : List α} {init b : β} (h : (l.foldlM f init).run = .ok (.ok b)) :
    g b = g init + (l.map w).sum := by
  induction l generalizing init with
  | nil =>
    rw [List.foldlM_nil, ExceptT.run_pure] at h
    simp only [pure, Except.pure, Except.ok.injEq] at h
    simp [h]
  | cons x xs ih =>
    rw [List.foldlM_cons, run_bind_eq_ok_ok] at h
    obtain ⟨b₁, hx, hrest⟩ := h
    rw [ih hrest, hstep init x b₁ hx, List.map_cons, List.sum_cons]
    omega

end Fold

section OptionFold

variable {f : β → α → Option β}

/-- A property every step keeps holds after a `foldlM` in `Option` that ends with a value. -/
theorem foldlM_invariant (P : β → Prop) {l : List α}
    (hstep : ∀ b x b', x ∈ l → P b → f b x = some b' → P b')
    {init b : β} (h : l.foldlM f init = some b) (hinit : P init) : P b := by
  induction l generalizing init with
  | nil =>
    rw [List.foldlM_nil, Option.pure_def, Option.some.injEq] at h
    exact h ▸ hinit
  | cons x xs ih =>
    rw [List.foldlM_cons, Option.bind_eq_bind, Option.bind_eq_some_iff] at h
    obtain ⟨b₁, hx, hrest⟩ := h
    exact ih (fun b y b' hy => hstep b y b' (List.mem_cons_of_mem _ hy)) hrest
      (hstep init x b₁ List.mem_cons_self hinit hx)

/-- A `foldlM` in `Option` whose steps never fail does not fail. -/
theorem foldlM_isSome (hstep : ∀ b x, (f b x).isSome) (l : List α) (init : β) :
    (l.foldlM f init).isSome := by
  induction l generalizing init with
  | nil => rfl
  | cons x xs ih =>
    obtain ⟨b₁, hx⟩ := Option.isSome_iff_exists.mp (hstep init x)
    rw [List.foldlM_cons, hx, Option.bind_eq_bind, Option.bind_some]
    exact ih b₁

/-- A `filterMapM` in `Option` whose steps all succeed keeps what `filterMap` keeps. -/
theorem filterMapM_eq_some {γ : Type} {g : α → Option (Option γ)} {k : α → Option γ} {l : List α}
    (h : ∀ x ∈ l, g x = some (k x)) : l.filterMapM g = some (l.filterMap k) := by
  induction l with
  | nil => rfl
  | cons x xs ih =>
    have hrest := ih fun y hy => h y (List.mem_cons_of_mem x hy)
    rw [List.filterMapM_cons, h x List.mem_cons_self, Option.bind_eq_bind, Option.bind_some]
    cases hk : k x with
    | none => simp [hrest, hk]
    | some c => simp [hrest, hk]

/-- A `filterMapM` in `Option` fails exactly when one of its steps does. -/
theorem filterMapM_eq_none_iff {γ : Type} {g : α → Option (Option γ)} {l : List α} :
    l.filterMapM g = none ↔ ∃ x ∈ l, g x = none := by
  induction l with
  | nil => simp [List.filterMapM_nil]
  | cons x xs ih =>
    rw [List.filterMapM_cons]
    cases hx : g x with
    | none => simp [hx]
    | some c =>
      have hne : ¬ g x = none := by simp [hx]
      cases c <;> cases hrest : xs.filterMapM g <;> simp_all

end OptionFold

/-! ### Reading back a closed result

A result of `Option (Except δ α)` whose `α` has no decidable equality cannot be
compared by `decide`; a Boolean test of its value, or the result with the value
forgotten, can, and these two lemmas read such a comparison back. -/

theorem eq_some_ok_of_test {x : Option (Except δ α)} {p : α → Bool}
    (h : x.map (fun r => r.toOption.map p) = some (some true)) : ∃ a, x = some (.ok a) ∧ p a = true := by
  rcases x with _ | (e | a)
  · cases h
  · cases h
  · simp only [Option.map_some, Except.toOption, Option.some.injEq] at h
    exact ⟨a, rfl, h⟩

theorem eq_some_error_of_forget {x : Option (Except δ α)} {e : δ}
    (h : x.map (Except.map fun _ => ()) = some (.error e)) : x = some (.error e) := by
  rcases x with _ | (e' | a)
  · cases h
  · simp only [Option.map_some, Except.map, Option.some.injEq, Except.error.injEq] at h
    rw [h]
  · cases h

end Flow
