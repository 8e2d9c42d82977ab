import Mathlib

/-!
# Depth-first search over an explicit stack with a visited set

The loop `while let Some(x) = stack.pop() { if visited.insert(x) { body } }`, where the
body of a newly visited node updates a state and pushes some nodes.  The stack's top is its
last element.

* `run` — the loop, with `fuel` bounding its iterations;
* `Inv` — what holds at each iteration: every successor of a visited node is visited or on
  the stack, and so is every start, and all of them are reachable from the starts
  (`Inv.skip`, `Inv.visit`);
* `run_spec` — when the pushes of a node do not depend on the state, a finished run has
  visited exactly the nodes reachable from the starts, and its state is the body applied
  once to each of them, in some order without repetition;
* `run_isSome` — the loop finishes once `fuel` exceeds the stack plus the successors of
  every unvisited node of a finite set outside of which no node has successors.
-/

namespace Search

variable {α σ : Type}

/-- The loop: pop the top of the stack; a node not yet visited is marked and passed to
`visit`, which returns the new state and the nodes to push.  `none` when `fuel` runs out. -/
def run [DecidableEq α] (visit : α → σ → σ × List α) :
    Nat → List α → Finset α → σ → Option (Finset α × σ)
  | 0, _, _, _ => none
  | fuel + 1, stack, visited, s =>
    match stack.getLast? with
    | none => some (visited, s)
    | some x =>
      if x ∈ visited then run visit fuel stack.dropLast visited s
      else
        let r := visit x s
        run visit fuel (stack.dropLast ++ r.2) (insert x visited) r.1

/-- `y` is reachable from one of `starts` along `succ`. -/
def Reach (succ : α → List α) (starts : List α) (y : α) : Prop :=
  ∃ x ∈ starts, Relation.ReflTransGen (fun a b => b ∈ succ a) x y

/-- The body applied once to each node of `order`, in turn. -/
def applyAll (visit : α → σ → σ × List α) (order : List α) (s : σ) : σ :=
  order.foldl (fun s x => (visit x s).1) s

/-! ### One iteration -/

/-- Every stack is empty or has a top. -/
theorem stack_cases (stack : List α) : stack = [] ∨ ∃ pre x, stack = pre ++ [x] := by
  rcases stack.eq_nil_or_concat with h | ⟨pre, x, h⟩
  · exact Or.inl h
  · exact Or.inr ⟨pre, x, by rw [h, List.concat_eq_append]⟩

section Step

variable [DecidableEq α] {visit : α → σ → σ × List α} {fuel : Nat} {visited : Finset α} {s : σ}

@[simp] theorem run_nil : run visit (fuel + 1) [] visited s = some (visited, s) := rfl

theorem run_skip {pre : List α} {x : α} (hx : x ∈ visited) :
    run visit (fuel + 1) (pre ++ [x]) visited s = run visit fuel pre visited s := by
  simp [run, hx]

theorem run_visit {pre : List α} {x : α} (hx : x ∉ visited) :
    run visit (fuel + 1) (pre ++ [x]) visited s =
      run visit fuel (pre ++ (visit x s).2) (insert x visited) (visit x s).1 := by
  simp [run, hx]

end Step

/-! ### The invariant -/

section Invariant

variable {succ : α → List α} {starts : List α}

/-- Every successor of a visited node is visited or still on the stack, and so is every
start; all of them are reachable from the starts. -/
structure Inv (succ : α → List α) (starts stack : List α) (visited : Finset α) : Prop where
  closed : ∀ x ∈ visited, ∀ y ∈ succ x, y ∈ visited ∨ y ∈ stack
  covers : ∀ x ∈ starts, x ∈ visited ∨ x ∈ stack
  reach : ∀ y, y ∈ visited ∨ y ∈ stack → Reach succ starts y

theorem inv_start (starts : List α) : Inv succ starts starts ∅ where
  closed := by simp
  covers := fun _ hx => Or.inr hx
  reach := by
    rintro y (hy | hy)
    · simp at hy
    · exact ⟨y, hy, .refl⟩

theorem Reach.tail {y z : α} (hy : Reach succ starts y) (hz : z ∈ succ y) : Reach succ starts z := by
  obtain ⟨x, hx, hxy⟩ := hy
  exact ⟨x, hx, hxy.tail hz⟩

/-- Popping a visited node: it stays covered by the visited set. -/
theorem Inv.skip {pre : List α} {x : α} {visited : Finset α} (h : Inv succ starts (pre ++ [x]) visited)
    (hx : x ∈ visited) : Inv succ starts pre visited := by
  -- a node dropped from the stack is `x`, which is visited
  have hdrop : ∀ y, y ∈ visited ∨ y ∈ pre ++ [x] → y ∈ visited ∨ y ∈ pre := by
    rintro y (hy | hy)
    · exact Or.inl hy
    · rcases List.mem_append.mp hy with hy | hy
      · exact Or.inr hy
      · rw [List.mem_singleton.mp hy]
        exact Or.inl hx
  refine ⟨fun z hz y hy => hdrop y (h.closed z hz y hy), fun y hy => hdrop y (h.covers y hy), ?_⟩
  rintro y (hy | hy)
  · exact h.reach y (Or.inl hy)
  · exact h.reach y (Or.inr (List.mem_append_left _ hy))

/-- Visiting a node: it joins the visited set, and its successors the stack. -/
theorem Inv.visit [DecidableEq α] {pre : List α} {x : α} {visited : Finset α}
    (h : Inv succ starts (pre ++ [x]) visited) :
    Inv succ starts (pre ++ succ x) (insert x visited) := by
  have hmove : ∀ y, y ∈ visited ∨ y ∈ pre ++ [x] → y ∈ insert x visited ∨ y ∈ pre ++ succ x := by
    rintro y (hy | hy)
    · exact Or.inl (Finset.mem_insert_of_mem hy)
    · rcases List.mem_append.mp hy with hy | hy
      · exact Or.inr (List.mem_append_left _ hy)
      · rw [List.mem_singleton.mp hy]
        exact Or.inl (Finset.mem_insert_self x visited)
  have hxreach : Reach succ starts x := h.reach x (Or.inr (by simp))
  refine ⟨?_, fun y hy => hmove y (h.covers y hy), ?_⟩
  · intro z hz y hy
    rcases Finset.mem_insert.mp hz with rfl | hz
    · exact Or.inr (List.mem_append_right _ hy)
    · exact hmove y (h.closed z hz y hy)
  · rintro y (hy | hy)
    · rcases Finset.mem_insert.mp hy with rfl | hy
      · exact hxreach
      · exact h.reach y (Or.inl hy)
    · rcases List.mem_append.mp hy with hy | hy
      · exact h.reach y (Or.inr (List.mem_append_left _ hy))
      · exact hxreach.tail hy

/-- With the stack empty, the visited set is closed under `succ` and holds the starts, so it
is exactly what they reach. -/
theorem Inv.done {visited : Finset α} (h : Inv succ starts [] visited) (y : α) :
    y ∈ visited ↔ Reach succ starts y := by
  constructor
  · intro hy
    exact h.reach y (Or.inl hy)
  · rintro ⟨x, hx, hxy⟩
    induction hxy with
    | refl => simpa using h.covers x hx
    | tail _ hbc ih => simpa using h.closed _ ih _ hbc

end Invariant

/-! ### Whole runs -/

section Runs

variable [DecidableEq α] {visit : α → σ → σ × List α} {succ : α → List α}

/-- A finished run from a state that keeps `Inv`: the final visited set is what the starts
reach, and the state is the body applied once to each node newly visited. -/
theorem run_spec_of_inv (hsucc : ∀ x s, (visit x s).2 = succ x) {starts : List α} :
    ∀ {fuel : Nat} {stack : List α} {visited v' : Finset α} {s s' : σ},
      Inv succ starts stack visited → run visit fuel stack visited s = some (v', s') →
      (∀ y, y ∈ v' ↔ Reach succ starts y) ∧
        ∃ order : List α, order.Nodup ∧ (∀ y, y ∈ order ↔ y ∈ v' ∧ y ∉ visited) ∧
          s' = applyAll visit order s := by
  intro fuel
  induction fuel with
  | zero => intro _ _ _ _ _ _ h; cases h
  | succ fuel ih =>
    intro stack visited v' s s' hinv h
    rcases stack_cases stack with rfl | ⟨pre, x, rfl⟩
    · -- the stack is empty: the run stops with nothing newly visited
      simp only [run_nil, Option.some.injEq, Prod.mk.injEq] at h
      obtain ⟨rfl, rfl⟩ := h
      exact ⟨hinv.done, [], List.nodup_nil, by simp, rfl⟩
    · by_cases hx : x ∈ visited
      · rw [run_skip hx] at h
        exact ih (hinv.skip hx) h
      · rw [run_visit hx] at h
        have hinv' : Inv succ starts (pre ++ (visit x s).2) (insert x visited) := by
          rw [hsucc]
          exact hinv.visit
        obtain ⟨hreach, order, hnd, hmem, hs'⟩ := ih hinv' h
        have hxo : x ∉ order := fun hxo => (hmem x).mp hxo |>.2 (Finset.mem_insert_self x visited)
        refine ⟨hreach, x :: order, List.nodup_cons.mpr ⟨hxo, hnd⟩, ?_, hs'⟩
        intro y
        by_cases hyx : y = x
        · subst hyx
          have hv' : y ∈ v' := (hreach y).mpr (hinv'.reach y (Or.inl (Finset.mem_insert_self y visited)))
          simp [hv', hx]
        · simp [hyx, hmem y, Finset.mem_insert]

/-- **The search from the start nodes.**  When the pushes of a node do not depend on the
state, a finished run visits exactly the nodes reachable from the starts, and its state is
the body applied once to each of them, in some order without repetition. -/
theorem run_spec (hsucc : ∀ x s, (visit x s).2 = succ x) {fuel : Nat} {starts : List α}
    {v' : Finset α} {s s' : σ} (h : run visit fuel starts ∅ s = some (v', s')) :
    (∀ y, y ∈ v' ↔ Reach succ starts y) ∧
      ∃ order : List α, order.Nodup ∧ (∀ y, y ∈ order ↔ Reach succ starts y) ∧
        s' = applyAll visit order s := by
  obtain ⟨hreach, order, hnd, hmem, hs'⟩ := run_spec_of_inv hsucc (inv_start starts) h
  refine ⟨hreach, order, hnd, fun y => ?_, hs'⟩
  rw [hmem y, hreach y]
  simp

/-- Marking `x` visited takes its successors out of the sum over the unvisited nodes of `K`
and puts them on the stack. -/
theorem sum_sdiff_insert {K : Finset α} (hK : ∀ x, succ x ≠ [] → x ∈ K) {visited : Finset α}
    {x : α} (hx : x ∉ visited) :
    (succ x).length + ∑ y ∈ K \ insert x visited, (succ y).length = ∑ y ∈ K \ visited, (succ y).length := by
  rw [Finset.sdiff_insert]
  by_cases hxK : x ∈ K
  · rw [add_comm, Finset.sum_erase_add _ _ (Finset.mem_sdiff.mpr ⟨hxK, hx⟩)]
  · have hnil : succ x = [] := by
      by_contra hne
      exact hxK (hK x hne)
    rw [hnil, Finset.erase_eq_of_notMem (fun h => hxK (Finset.mem_sdiff.mp h).1)]
    simp

/-- **Termination.**  When only the nodes of `K` have successors, each iteration takes one
from the stack plus the successors of the unvisited nodes of `K`, so fuel above that finishes
the run. -/
theorem run_isSome (hsucc : ∀ x s, (visit x s).2 = succ x) (K : Finset α)
    (hK : ∀ x, succ x ≠ [] → x ∈ K) :
    ∀ {fuel : Nat} {stack : List α} {visited : Finset α} {s : σ},
      stack.length + ∑ y ∈ K \ visited, (succ y).length < fuel →
        (run visit fuel stack visited s).isSome := by
  intro fuel
  induction fuel with
  | zero => intro _ _ _ h; omega
  | succ fuel ih =>
    intro stack visited s hfuel
    rcases stack_cases stack with rfl | ⟨pre, x, rfl⟩
    · rfl
    · by_cases hx : x ∈ visited
      · rw [run_skip hx]
        apply ih
        simp only [List.length_append, List.length_singleton] at hfuel
        omega
      · rw [run_visit hx]
        apply ih
        have hsum := sum_sdiff_insert hK hx
        simp only [List.length_append, List.length_singleton] at hfuel
        rw [hsucc, List.length_append]
        omega

end Runs

end Search
