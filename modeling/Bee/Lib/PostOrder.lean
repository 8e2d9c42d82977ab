import Mathlib

/-!
# Depth-first post-order, and the explicit-stack loop that computes it

A walk over a graph given node by node: a node is a `stop` (visited, and no
further), `missing` (the walk fails there), or `expand`ed: its parents first,
in their order, then the node itself, which is applied to an accumulator.

* `visit`, `visitAll` — the recursive depth-first walk: the new visited set and
  the expanded nodes in post-order; `fuel` bounds the depth, and any fuel above
  a rank that parents lower suffices (`visitAll_isSome`);
* `step`, `run` — the loop over an explicit stack whose top is its last
  element: a node with an unvisited parent pushes the first such parent, and
  is met again once that parent is done;
* `visitAll_ends`, `run_visitAll` — the loop refines the recursive walk: from
  the start nodes on its stack it ends with the walk's visited set, and with
  the accumulator that the expanded nodes give, applied in post-order, or with
  the first error `apply` returns on them;
* `Walked`, `visitAll_walked` (from `Walked.expand`, a node output after its
  parents) — what the post-order is: the expanded nodes
  reachable from the start without crossing a `stop`, each once, each after
  its parents.
-/

namespace PostOrder

/-- What the walk finds at a node. -/
inductive Kind (α β : Type)
  | stop
  | expand (parents : List α) (payload : β)
  | missing

variable {α β σ ε : Type} [DecidableEq α] (kind : α → Kind α β)

/-! ### The recursive walk -/

/-- The walk from each node of a list in turn, threading the visited set; the expanded
nodes of each walk are appended. -/
def visitAll (visit : α → Finset α → Option (Except α (Finset α × List α))) :
    List α → Finset α → Option (Except α (Finset α × List α))
  | [], v => some (.ok (v, []))
  | a :: as, v =>
    match visit a v with
    | some (.ok (v₁, out₁)) => (visitAll visit as v₁).map (·.map fun (v₂, out₂) => (v₂, out₁ ++ out₂))
    | r => r

/-- The depth-first walk from `a` with the visited set `v`: the new visited set and the
expanded nodes in post-order, `.error` at a missing node, `none` when `fuel` is below the
depth. -/
def visit : Nat → α → Finset α → Option (Except α (Finset α × List α))
  | 0, _, _ => none
  | fuel + 1, a, v =>
    if a ∈ v then some (.ok (v, []))
    else
      match kind a with
      | .stop => some (.ok (insert a v, []))
      | .missing => some (.error a)
      | .expand parents _ =>
        match visitAll (visit fuel) parents v with
        | some (.ok (v', out)) => some (.ok (if a ∈ v' then (v', out) else (insert a v', out ++ [a])))
        | r => r

/-- `y` is a parent of the expanded node `x`. -/
def Edge (x y : α) : Prop := ∃ parents payload, kind x = .expand parents payload ∧ y ∈ parents

/-- `x` is expanded. -/
def Expanded (x : α) : Prop := ∃ parents payload, kind x = .expand parents payload

/-! ### What the walk computes -/

/-- What a walk from the start nodes `starts`, from the visited set `v` to `v'`, with the
expanded nodes `out`, has done: every start is visited; every new node is reachable from a
start, is not missing, and is in `out` exactly when it is expanded; `out` has no repetition,
and each of its nodes comes after its parents, which are visited. -/
structure Walked (starts : List α) (v v' : Finset α) (out : List α) : Prop where
  subset : v ⊆ v'
  starts_mem : ∀ a ∈ starts, a ∈ v'
  out_mem : ∀ x ∈ out, x ∈ v' ∧ x ∉ v
  nodup : out.Nodup
  parents_mem : ∀ x ∈ out, ∀ y, Edge kind x y → y ∈ v'
  pairwise : out.Pairwise fun x y => ¬ Edge kind x y
  new : ∀ x ∈ v', x ∉ v →
    kind x ≠ .missing ∧ (x ∈ out ↔ Expanded kind x) ∧ ∃ s ∈ starts, Relation.ReflTransGen (Edge kind) s x

/-- The visited nodes are closed: none is missing, and the parents of an expanded one are
visited too.  The loop keeps this, which lets it pop a visited node without looking further. -/
def Closed (v : Finset α) : Prop := ∀ x ∈ v, kind x ≠ .missing ∧ ∀ y, Edge kind x y → y ∈ v

section Walk

variable {kind}

omit [DecidableEq α] in
/-- A successful `visitAll` on a nonempty list: the walk from its head, then from the rest. -/
theorem visitAll_eq_ok_cons {f : α → Finset α → Option (Except α (Finset α × List α))} {a : α}
    {as : List α} {v v₂ : Finset α} {out : List α} (h : visitAll f (a :: as) v = some (.ok (v₂, out))) :
    ∃ v₁ out₁ out₂, f a v = some (.ok (v₁, out₁)) ∧ visitAll f as v₁ = some (.ok (v₂, out₂)) ∧
      out = out₁ ++ out₂ := by
  rw [visitAll] at h
  split at h
  · rename_i v₁ out₁ hf
    obtain ⟨r, hrest, hr⟩ := Option.map_eq_some_iff.mp h
    cases r with
    | error e => cases hr
    | ok p =>
      obtain ⟨v₂', out₂⟩ := p
      simp only [Except.map, Except.ok.injEq, Prod.mk.injEq] at hr
      obtain ⟨rfl, rfl⟩ := hr
      exact ⟨v₁, out₁, out₂, hf, hrest, rfl⟩
  · rename_i r hr
    exact absurd h (hr _ _)

/-- A successful `visit` with fuel: the node was visited, or is a `stop`, or was expanded after
a walk over its parents. -/
theorem visit_eq_ok {fuel : Nat} {a : α} {v v' : Finset α} {out : List α}
    (h : visit kind (fuel + 1) a v = some (.ok (v', out))) :
    (a ∈ v ∧ v' = v ∧ out = []) ∨ (a ∉ v ∧ kind a = .stop ∧ v' = insert a v ∧ out = []) ∨
      (a ∉ v ∧ ∃ parents payload v₁ out₁, kind a = .expand parents payload ∧
        visitAll (visit kind fuel) parents v = some (.ok (v₁, out₁)) ∧
        ((a ∈ v₁ ∧ v' = v₁ ∧ out = out₁) ∨ (a ∉ v₁ ∧ v' = insert a v₁ ∧ out = out₁ ++ [a]))) := by
  rw [visit] at h
  by_cases ha : a ∈ v
  · rw [if_pos ha, Option.some.injEq, Except.ok.injEq, Prod.mk.injEq] at h
    exact .inl ⟨ha, h.1.symm, h.2.symm⟩
  rw [if_neg ha] at h
  split at h
  · rename_i hstop
    rw [Option.some.injEq, Except.ok.injEq, Prod.mk.injEq] at h
    exact .inr (.inl ⟨ha, hstop, h.1.symm, h.2.symm⟩)
  · cases h
  · rename_i parents payload hexpand
    split at h
    · rename_i v₁ out₁ hparents
      refine .inr (.inr ⟨ha, parents, payload, v₁, out₁, hexpand, hparents, ?_⟩)
      rw [Option.some.injEq, Except.ok.injEq] at h
      -- the node may have been reached again below its parents; then it is not added twice
      by_cases ha₁ : a ∈ v₁
      · rw [if_pos ha₁, Prod.mk.injEq] at h
        exact .inl ⟨ha₁, h.1.symm, h.2.symm⟩
      · rw [if_neg ha₁, Prod.mk.injEq] at h
        exact .inr ⟨ha₁, h.1.symm, h.2.symm⟩
    · rename_i r hr
      exact absurd h (hr _ _)

omit [DecidableEq α] in
theorem Walked.nil (v : Finset α) : Walked kind [] v v [] :=
  ⟨subset_rfl, by simp, by simp, List.nodup_nil, by simp, List.Pairwise.nil, fun _ hx hx' => absurd hx hx'⟩

omit [DecidableEq α] in
/-- The walks from a node and then from a list compose. -/
theorem Walked.cons {a : α} {as : List α} {v v₁ v₂ : Finset α} {out₁ out₂ : List α}
    (h₁ : Walked kind [a] v v₁ out₁) (h₂ : Walked kind as v₁ v₂ out₂) :
    Walked kind (a :: as) v v₂ (out₁ ++ out₂) := by
  -- what the first walk outputs is visited before the second starts, which outputs only new nodes
  have hdisjoint : ∀ x ∈ out₁, x ∉ out₂ := fun x hx hx₂ => (h₂.out_mem x hx₂).2 (h₁.out_mem x hx).1
  refine ⟨h₁.subset.trans h₂.subset, ?_, ?_, ?_, ?_, ?_, ?_⟩
  · intro b hb
    rcases List.mem_cons.mp hb with rfl | hb
    · exact h₂.subset (h₁.starts_mem b List.mem_cons_self)
    · exact h₂.starts_mem b hb
  · intro x hx
    rcases List.mem_append.mp hx with hx | hx
    · exact ⟨h₂.subset (h₁.out_mem x hx).1, (h₁.out_mem x hx).2⟩
    · exact ⟨(h₂.out_mem x hx).1, fun hv => (h₂.out_mem x hx).2 (h₁.subset hv)⟩
  · exact List.nodup_append.mpr ⟨h₁.nodup, h₂.nodup, fun x hx y hy hxy => hdisjoint x hx (hxy ▸ hy)⟩
  · intro x hx y hxy
    rcases List.mem_append.mp hx with hx | hx
    · exact h₂.subset (h₁.parents_mem x hx y hxy)
    · exact h₂.parents_mem x hx y hxy
  · refine List.pairwise_append.mpr ⟨h₁.pairwise, h₂.pairwise, fun x hx y hy hxy => ?_⟩
    exact (h₂.out_mem y hy).2 (h₁.parents_mem x hx y hxy)
  · intro x hx hxv
    by_cases hx₁ : x ∈ v₁
    · -- new in the first walk, so not output by the second
      obtain ⟨hmissing, hout, s, hs, hreach⟩ := h₁.new x hx₁ hxv
      have hx₂ : x ∉ out₂ := fun h => (h₂.out_mem x h).2 hx₁
      refine ⟨hmissing, ?_, s, List.mem_cons.mpr (.inl (List.mem_singleton.mp hs)), hreach⟩
      rw [List.mem_append, or_iff_left hx₂]
      exact hout
    · obtain ⟨hmissing, hout, s, hs, hreach⟩ := h₂.new x hx hx₁
      have hx₁' : x ∉ out₁ := fun h => hx₁ (h₁.out_mem x h).1
      refine ⟨hmissing, ?_, s, List.mem_cons_of_mem a hs, hreach⟩
      rw [List.mem_append, or_iff_right hx₁']
      exact hout

omit [DecidableEq α] in
/-- A property of the walk from each node carries over to the walk from a list. -/
theorem visitAll_walked {f : α → Finset α → Option (Except α (Finset α × List α))}
    (hf : ∀ a v v' out, f a v = some (.ok (v', out)) → Walked kind [a] v v' out) :
    ∀ {as : List α} {v v' : Finset α} {out : List α},
      visitAll f as v = some (.ok (v', out)) → Walked kind as v v' out
  | [], v, v', out, h => by
    rw [visitAll, Option.some.injEq, Except.ok.injEq, Prod.mk.injEq] at h
    obtain ⟨rfl, rfl⟩ := h
    exact Walked.nil v
  | a :: as, v, v', out, h => by
    obtain ⟨v₁, out₁, out₂, ha, has, rfl⟩ := visitAll_eq_ok_cons h
    exact (hf a v v₁ out₁ ha).cons (visitAll_walked hf has)

omit [DecidableEq α] in
theorem parents_of_edge {a y : α} {parents : List α} {payload : β}
    (h : kind a = .expand parents payload) (hy : Edge kind a y) : y ∈ parents := by
  obtain ⟨parents', payload', h', hy'⟩ := hy
  rw [h, Kind.expand.injEq] at h'
  rw [h'.1]
  exact hy'

omit [DecidableEq α] in
/-- What the walk over an expanded node's parents visits is reached from the node. -/
theorem Walked.reach_expand {a : α} {parents : List α} {payload : β} {v v₁ : Finset α} {out₁ : List α}
    (hexpand : kind a = .expand parents payload) (hw : Walked kind parents v v₁ out₁) :
    ∀ x ∈ v₁, x ∉ v → ∃ s ∈ [a], Relation.ReflTransGen (Edge kind) s x := by
  intro x hx hxv
  obtain ⟨-, -, s, hs, hsx⟩ := hw.new x hx hxv
  exact ⟨a, List.mem_singleton_self a, .head ⟨parents, payload, hexpand, hs⟩ hsx⟩

/-- An expanded node output after the walk over its parents: the walk from the node. -/
theorem Walked.expand {a : α} {parents : List α} {payload : β} {v v₁ : Finset α} {out₁ : List α}
    (hexpand : kind a = .expand parents payload) (hw : Walked kind parents v v₁ out₁) (ha : a ∉ v)
    (ha₁ : a ∉ v₁) : Walked kind [a] v (insert a v₁) (out₁ ++ [a]) := by
  have hparents_mem : ∀ y, Edge kind a y → y ∈ v₁ :=
    fun y hy => hw.starts_mem y (parents_of_edge hexpand hy)
  refine ⟨hw.subset.trans (Finset.subset_insert a v₁), by simp, ?_, ?_, ?_, ?_, ?_⟩
  · intro x hx
    rcases List.mem_append.mp hx with hx | hx
    · exact ⟨Finset.mem_insert_of_mem (hw.out_mem x hx).1, (hw.out_mem x hx).2⟩
    · obtain rfl := List.mem_singleton.mp hx
      exact ⟨Finset.mem_insert_self x v₁, ha⟩
  · refine List.nodup_append.mpr ⟨hw.nodup, List.nodup_singleton a, ?_⟩
    intro x hx y hy hxy
    obtain rfl := List.mem_singleton.mp hy
    exact ha₁ (hxy ▸ (hw.out_mem x hx).1)
  · intro x hx y hxy
    rcases List.mem_append.mp hx with hx | hx
    · exact Finset.mem_insert_of_mem (hw.parents_mem x hx y hxy)
    · obtain rfl := List.mem_singleton.mp hx
      exact Finset.mem_insert_of_mem (hparents_mem y hxy)
  · -- the node comes last, after everything below it, none of which has it as a parent
    refine List.pairwise_append.mpr ⟨hw.pairwise, List.pairwise_singleton _ a, ?_⟩
    intro x hx y hy hxy
    obtain rfl := List.mem_singleton.mp hy
    exact ha₁ (hw.parents_mem x hx y hxy)
  · intro x hx hxv
    rcases Finset.mem_insert.mp hx with rfl | hx₁
    · refine ⟨by rw [hexpand]; exact nofun, ?_, x, List.mem_singleton_self x, .refl⟩
      exact ⟨fun _ => ⟨parents, payload, hexpand⟩, fun _ => List.mem_append_right _ (List.mem_singleton_self x)⟩
    · obtain ⟨hmissing, hout, -⟩ := hw.new x hx₁ hxv
      have hxa : x ≠ a := fun hxa => ha₁ (hxa ▸ hx₁)
      refine ⟨hmissing, ?_, hw.reach_expand hexpand x hx₁ hxv⟩
      rw [List.mem_append, List.mem_singleton, or_iff_left hxa]
      exact hout

/-- The walk from one node, by the three cases of `visit_eq_ok`. -/
theorem visit_walked : ∀ {fuel : Nat} {a : α} {v v' : Finset α} {out : List α},
    visit kind fuel a v = some (.ok (v', out)) → Walked kind [a] v v' out
  | 0, _, _, _, _, h => by cases h
  | fuel + 1, a, v, v', out, h => by
    rcases visit_eq_ok h with ⟨ha, rfl, rfl⟩ | ⟨ha, hstop, rfl, rfl⟩ |
      ⟨ha, parents, payload, v₁, out₁, hexpand, hparents, hlast⟩
    · -- already visited: nothing new
      refine ⟨subset_rfl, by simpa using ha, by simp, List.nodup_nil, by simp, List.Pairwise.nil,
        fun _ hx hx' => absurd hx hx'⟩
    · -- a `stop`: only the node itself is new
      refine ⟨Finset.subset_insert a v, by simp, by simp, List.nodup_nil, by simp, List.Pairwise.nil, ?_⟩
      intro x hx hxv
      obtain rfl : x = a := (Finset.mem_insert.mp hx).resolve_right hxv
      refine ⟨by rw [hstop]; exact nofun, ?_, x, List.mem_singleton_self x, .refl⟩
      simp only [List.not_mem_nil, false_iff]
      rintro ⟨parents, payload, hexpand⟩
      rw [hstop] at hexpand
      cases hexpand
    · -- expanded: the walk over its parents, then the node
      have hw := visitAll_walked (fun _ _ _ _ h => visit_walked h) hparents
      rcases hlast with ⟨ha₁, rfl, rfl⟩ | ⟨ha₁, rfl, rfl⟩
      · -- met again below its parents: not output twice
        refine ⟨hw.subset, by simpa using ha₁, hw.out_mem, hw.nodup, hw.parents_mem, hw.pairwise, ?_⟩
        intro x hx hxv
        obtain ⟨hmissing, hout, -⟩ := hw.new x hx hxv
        exact ⟨hmissing, hout, hw.reach_expand hexpand x hx hxv⟩
      · exact hw.expand hexpand ha ha₁

omit [DecidableEq α] in
/-- What a walk from `starts` on nothing visited outputs: exactly the expanded nodes reachable
from a start without crossing a `stop` (a `stop` has no edge), each once, each after its
parents. -/
theorem Walked.spec {starts : List α} {v' : Finset α} {out : List α} (hw : Walked kind starts ∅ v' out) :
    out.Nodup ∧ (∀ x, x ∈ out ↔ Expanded kind x ∧ ∃ s ∈ starts, Relation.ReflTransGen (Edge kind) s x) ∧
      out.Pairwise fun x y => ¬ Edge kind x y := by
  refine ⟨hw.nodup, fun x => ⟨fun hx => ?_, fun ⟨hexpanded, s, hs, hsx⟩ => ?_⟩, hw.pairwise⟩
  · obtain ⟨-, hout, hreach⟩ := hw.new x (hw.out_mem x hx).1 (Finset.notMem_empty x)
    exact ⟨hout.mp hx, hreach⟩
  · -- every node reachable through expanded nodes is visited: the expanded ones are output,
    -- and their parents visited
    have hvisited : ∀ y, Relation.ReflTransGen (Edge kind) s y → y ∈ v' := by
      intro y hsy
      induction hsy with
      | refl => exact hw.starts_mem s hs
      | @tail y z _ hyz ih =>
        have hy := (hw.new y ih (Finset.notMem_empty y)).2.1
        have hexpanded_y : Expanded kind y := by
          obtain ⟨parents, payload, hexpand, -⟩ := hyz
          exact ⟨parents, payload, hexpand⟩
        exact hw.parents_mem y (hy.mpr hexpanded_y) z hyz
    exact (hw.new x (hvisited x hsx) (Finset.notMem_empty x)).2.1.mpr hexpanded

omit [DecidableEq α] in
theorem Walked.closed {starts : List α} {v v' : Finset α} {out : List α} (hw : Walked kind starts v v' out)
    (hv : Closed kind v) : Closed kind v' := by
  intro x hx
  by_cases hxv : x ∈ v
  · exact ⟨(hv x hxv).1, fun y hxy => hw.subset ((hv x hxv).2 y hxy)⟩
  · obtain ⟨hmissing, hout, -⟩ := hw.new x hx hxv
    refine ⟨hmissing, fun y hxy => hw.parents_mem x (hout.mpr ?_) y hxy⟩
    obtain ⟨parents, payload, hexpand, -⟩ := hxy
    exact ⟨parents, payload, hexpand⟩

/-! #### The walk ends -/

omit [DecidableEq α] in
theorem visitAll_isSome {f : α → Finset α → Option (Except α (Finset α × List α))} :
    ∀ {as : List α}, (∀ a ∈ as, ∀ v, (f a v).isSome) → ∀ v, (visitAll f as v).isSome
  | [], _, _ => rfl
  | a :: as, h, v => by
    rw [visitAll]
    obtain ⟨r, hr⟩ := Option.isSome_iff_exists.mp (h a List.mem_cons_self v)
    rw [hr]
    cases r with
    | error e => rfl
    | ok p =>
      obtain ⟨v₁, out₁⟩ := p
      rw [Option.isSome_map]
      exact visitAll_isSome (fun b hb => h b (List.mem_cons_of_mem a hb)) v₁

/-- With parents of lower rank, a fuel above a node's rank is enough for its walk. -/
theorem visit_isSome (rank : α → Nat) (hrank : ∀ x y, Edge kind x y → rank y < rank x) :
    ∀ {fuel : Nat} {a : α}, rank a < fuel → ∀ v, (visit kind fuel a v).isSome
  | 0, _, h, _ => absurd h (Nat.not_lt_zero _)
  | fuel + 1, a, h, v => by
    rw [visit]
    split_ifs
    · rfl
    · split
      · rfl
      · rfl
      · rename_i parents payload hexpand
        -- each parent is below the node, so within the remaining fuel
        have hparents : ∀ p ∈ parents, ∀ v, (visit kind fuel p v).isSome := fun p hp =>
          visit_isSome rank hrank (Nat.lt_of_lt_of_le (hrank a p ⟨parents, payload, hexpand, hp⟩) (by omega))
        obtain ⟨r, hr⟩ := Option.isSome_iff_exists.mp (visitAll_isSome hparents v)
        rw [hr]
        split <;> rfl

omit [DecidableEq α] in
/-- An error of `visitAll` is the error of the walk from one of its nodes. -/
theorem visitAll_error {f : α → Finset α → Option (Except α (Finset α × List α))} {e : α} :
    ∀ {as : List α} {v : Finset α}, visitAll f as v = some (.error e) → ∃ a ∈ as, ∃ v₁, f a v₁ = some (.error e)
  | [], _, h => by cases h
  | a :: as, v, h => by
    rw [visitAll] at h
    split at h
    · obtain ⟨r, hrest, hr⟩ := Option.map_eq_some_iff.mp h
      cases r with
      | ok p => cases hr
      | error e' =>
        cases hr
        obtain ⟨b, hb, v₁, hb'⟩ := visitAll_error hrest
        exact ⟨b, List.mem_cons_of_mem a hb, v₁, hb'⟩
    · exact ⟨a, List.mem_cons_self, v, h⟩

/-- The walk fails only at a missing node reachable from where it starts. -/
theorem visit_error : ∀ {fuel : Nat} {a : α} {v : Finset α} {e : α},
    visit kind fuel a v = some (.error e) → kind e = .missing ∧ Relation.ReflTransGen (Edge kind) a e
  | 0, _, _, _, h => by cases h
  | fuel + 1, a, v, e, h => by
    rw [visit] at h
    by_cases ha : a ∈ v
    · rw [if_pos ha] at h
      cases h
    rw [if_neg ha] at h
    split at h
    · cases h
    · rename_i hmissing
      cases h
      exact ⟨hmissing, .refl⟩
    · rename_i parents payload hexpand
      split at h
      · cases h
      · obtain ⟨p, hp, v₁, hp'⟩ := visitAll_error h
        obtain ⟨hmissing, hreach⟩ := visit_error hp'
        exact ⟨hmissing, .head ⟨parents, payload, hexpand, hp⟩ hreach⟩

/-- On a graph whose parents have lower ranks, and where no node reachable from the starts is
missing, the walk from the starts succeeds with enough fuel. -/
theorem exists_visitAll_eq_ok (rank : α → Nat) (hrank : ∀ x y, Edge kind x y → rank y < rank x)
    {starts : List α} (hmissing : ∀ x, (∃ s ∈ starts, Relation.ReflTransGen (Edge kind) s x) → kind x ≠ .missing)
    (v : Finset α) : ∃ fuel v' out, visitAll (visit kind fuel) starts v = some (.ok (v', out)) := by
  -- a fuel above the rank of every start
  have hfuel : ∀ a ∈ starts, rank a < (starts.map rank).sum + 1 := fun a ha =>
    Nat.lt_succ_of_le (List.le_sum_of_mem (List.mem_map_of_mem ha))
  obtain ⟨r, hr⟩ := Option.isSome_iff_exists.mp
    (visitAll_isSome (fun a ha => visit_isSome rank hrank (hfuel a ha)) v)
  cases r with
  | ok p => exact ⟨_, p.1, p.2, hr⟩
  | error e =>
    obtain ⟨a, ha, v₁, he⟩ := visitAll_error hr
    obtain ⟨he, hreach⟩ := visit_error he
    exact absurd he (hmissing e ⟨a, ha, hreach⟩)

end Walk

/-! ### The loop -/

/-- The state of the loop: the stack, its top last, the visited nodes and the accumulator. -/
structure State (α σ : Type) where
  stack : List α
  visited : Finset α
  acc : σ

section Loop

variable (apply : α → β → σ → Except ε σ) (missing : α → ε)

/-- One iteration: `none` once the stack is empty.  A `stop` is popped as visited; an
expanded node pushes its first unvisited parent, or, with all of them visited, is
applied once and popped. -/
def step (t : State α σ) : Option (Except ε (State α σ)) :=
  match t.stack.getLast? with
  | none => none
  | some a => some <|
    match kind a with
    | .stop => .ok ⟨t.stack.dropLast, insert a t.visited, t.acc⟩
    | .expand parents payload =>
      match parents.find? (· ∉ t.visited) with
      | some p => .ok ⟨t.stack ++ [p], t.visited, t.acc⟩
      | none =>
        if a ∉ t.visited then (apply a payload t.acc).map fun acc => ⟨t.stack.dropLast, insert a t.visited, acc⟩
        else .ok ⟨t.stack.dropLast, t.visited, t.acc⟩
    | .missing => .error (missing a)

/-- The loop for at most `fuel` iterations: its accumulator once the stack is empty, or its
error. -/
def run : Nat → State α σ → Option (Except ε σ)
  | 0, _ => none
  | fuel + 1, t =>
    match step kind apply missing t with
    | none => some (.ok t.acc)
    | some (.error e) => some (.error e)
    | some (.ok t') => run fuel t'

/-- The loop goes from one state to another by iterations that succeed. -/
def Reaches : State α σ → State α σ → Prop :=
  Relation.ReflTransGen fun t t' => step kind apply missing t = some (.ok t')

/-- A node applied with its payload; a node that is not expanded leaves the accumulator. -/
def applyAt (a : α) (acc : σ) : Except ε σ :=
  match kind a with
  | .expand _ payload => apply a payload acc
  | _ => .ok acc

/-- The nodes of `out` applied in turn, stopping at the first error. -/
def applyAll (out : List α) (acc : σ) : Except ε σ :=
  out.foldlM (fun acc x => applyAt kind apply x acc) acc

/-- The loop from `t` reaches the stack `stack` and the visited set `visited` with the
accumulator of `r`, or fails with the error of `r`. -/
def Ends (t : State α σ) (stack : List α) (visited : Finset α) : Except ε σ → Prop
  | .ok acc => Reaches kind apply missing t ⟨stack, visited, acc⟩
  | .error e => ∃ t', Reaches kind apply missing t t' ∧ step kind apply missing t' = some (.error e)

variable {kind apply missing}

/-! #### One iteration on the node at the top -/

section Top

variable {S : List α} {a : α} {v : Finset α} {acc : σ}

theorem step_stop (h : kind a = .stop) :
    step kind apply missing ⟨S ++ [a], v, acc⟩ = some (.ok ⟨S, insert a v, acc⟩) := by
  simp only [step, List.getLast?_concat, List.dropLast_concat, h]

theorem step_push {parents : List α} {payload : β} {p : α} (h : kind a = .expand parents payload)
    (hp : parents.find? (· ∉ v) = some p) :
    step kind apply missing ⟨S ++ [a], v, acc⟩ = some (.ok ⟨S ++ [a] ++ [p], v, acc⟩) := by
  simp only [step, List.getLast?_concat, h, hp]

theorem step_apply {parents : List α} {payload : β} (h : kind a = .expand parents payload)
    (hp : parents.find? (· ∉ v) = none) (ha : a ∉ v) :
    step kind apply missing ⟨S ++ [a], v, acc⟩ =
      some ((apply a payload acc).map fun acc' => ⟨S, insert a v, acc'⟩) := by
  simp only [step, List.getLast?_concat, List.dropLast_concat, h, hp, ha, not_false_eq_true, if_true]

theorem step_skip {parents : List α} {payload : β} (h : kind a = .expand parents payload)
    (hp : parents.find? (· ∉ v) = none) (ha : a ∈ v) :
    step kind apply missing ⟨S ++ [a], v, acc⟩ = some (.ok ⟨S, v, acc⟩) := by
  simp only [step, List.getLast?_concat, List.dropLast_concat, h, hp, ha, not_true_eq_false, if_false]

end Top

/-! #### Runs of the loop -/

section Runs

variable {t t' : State α σ} {S S' : List α} {v v' : Finset α}

theorem Ends.of_reaches {r : Except ε σ} (h : Reaches kind apply missing t t') (h' : Ends kind apply missing t' S v r) :
    Ends kind apply missing t S v r := by
  cases r with
  | ok acc => exact h.trans h'
  | error e =>
    obtain ⟨t'', hreach, hstep⟩ := h'
    exact ⟨t'', h.trans hreach, hstep⟩

theorem Ends.of_step {r : Except ε σ} (h : step kind apply missing t = some (.ok t'))
    (h' : Ends kind apply missing t' S v r) : Ends kind apply missing t S v r :=
  Ends.of_reaches (Relation.ReflTransGen.single h) h'

theorem Ends.refl (acc : σ) : Ends kind apply missing ⟨S, v, acc⟩ S v (.ok acc) :=
  Relation.ReflTransGen.refl

theorem Ends.of_step_error {e : ε} (h : step kind apply missing t = some (.error e)) :
    Ends kind apply missing t S v (.error e) :=
  ⟨t, Relation.ReflTransGen.refl, h⟩

/-- A run that ends in one place and continues from there ends where the continuation does;
an error ends both. -/
theorem Ends.bind {x : Except ε σ} {f : σ → Except ε σ} (h : Ends kind apply missing t S v x)
    (hf : ∀ acc, x = .ok acc → Ends kind apply missing ⟨S, v, acc⟩ S' v' (f acc)) :
    Ends kind apply missing t S' v' (x >>= f) := by
  cases x with
  | ok acc => exact Ends.of_reaches h (hf acc rfl)
  | error e => exact h

theorem run_succ_of_step {n : Nat} (h : step kind apply missing t = some (.ok t')) :
    run kind apply missing (n + 1) t = run kind apply missing n t' := by
  rw [run, h]

/-- A run of `k` iterations can be replayed by `run` with `k` more fuel. -/
theorem run_of_reaches (h : Reaches kind apply missing t t') :
    ∃ k, ∀ n, run kind apply missing (n + k) t = run kind apply missing n t' := by
  induction h using Relation.ReflTransGen.head_induction_on with
  | refl => exact ⟨0, fun n => rfl⟩
  | head hstep _ ih =>
    obtain ⟨k, hk⟩ := ih
    refine ⟨k + 1, fun n => ?_⟩
    rw [← Nat.add_assoc, run_succ_of_step hstep, hk]

/-- With an empty stack the loop stops at once. -/
theorem run_empty (n : Nat) (v : Finset α) (acc : σ) :
    run kind apply missing (n + 1) ⟨[], v, acc⟩ = some (.ok acc) := rfl

/-- A loop that ends with an empty stack is a `run` with enough fuel, and with any more. -/
theorem run_of_ends {r : Except ε σ} (h : Ends kind apply missing t [] v r) :
    ∃ n, ∀ m, n ≤ m → run kind apply missing m t = some r := by
  cases r with
  | ok acc =>
    obtain ⟨k, hk⟩ := run_of_reaches h
    refine ⟨k + 1, fun m hm => ?_⟩
    obtain ⟨n, rfl⟩ := Nat.exists_eq_add_of_le' hm
    rw [show n + (k + 1) = (n + 1) + k by omega, hk, run_empty]
  | error e =>
    obtain ⟨t', hreach, hstep⟩ := h
    obtain ⟨k, hk⟩ := run_of_reaches hreach
    refine ⟨k + 1, fun m hm => ?_⟩
    obtain ⟨n, rfl⟩ := Nat.exists_eq_add_of_le' hm
    rw [show n + (k + 1) = (n + 1) + k by omega, hk, run, hstep]

end Runs

/-! #### The loop refines the walk -/

section Refine

omit [DecidableEq α] in
theorem applyAll_append (out₁ out₂ : List α) (acc : σ) :
    applyAll kind apply (out₁ ++ out₂) acc =
      applyAll kind apply out₁ acc >>= applyAll kind apply out₂ := by
  simp only [applyAll, List.foldlM_append]
  rfl

omit [DecidableEq α] in
theorem applyAll_singleton (a : α) (acc : σ) :
    applyAll kind apply [a] acc = applyAt kind apply a acc := by
  simp only [applyAll, List.foldlM_cons, List.foldlM_nil, bind_pure]

omit [DecidableEq α] in
theorem applyAt_expand {a : α} {parents : List α} {payload : β} (h : kind a = .expand parents payload)
    (acc : σ) : applyAt kind apply a acc = apply a payload acc := by
  rw [applyAt, h]

omit [DecidableEq α] in
/-- A list that each application extends by its node is extended, by `applyAll` over
expanded nodes, by all of them in turn. -/
theorem applyAll_extends (f : σ → List α)
    (hf : ∀ a parents payload acc acc', kind a = .expand parents payload →
      apply a payload acc = .ok acc' → f acc' = f acc ++ [a]) :
    ∀ {out : List α} {acc acc' : σ}, (∀ x ∈ out, Expanded kind x) →
      applyAll kind apply out acc = .ok acc' → f acc' = f acc ++ out
  | [], acc, acc', _, h => by
    cases h
    rw [List.append_nil]
  | a :: out, acc, acc', hout, h => by
    obtain ⟨parents, payload, hexpand⟩ := hout a List.mem_cons_self
    rw [← List.singleton_append, applyAll_append, applyAll_singleton, applyAt_expand hexpand] at h
    cases happly : apply a payload acc with
    | error e =>
      rw [happly] at h
      exact nomatch h
    | ok acc₁ =>
      rw [happly] at h
      have hrest : f acc' = f acc₁ ++ out :=
        applyAll_extends f hf (fun x hx => hout x (List.mem_cons_of_mem a hx)) h
      rw [hrest, hf a parents payload acc acc₁ hexpand happly, List.append_assoc, List.singleton_append]

/-- An iteration that applies a node ends where the application does. -/
theorem Ends.of_step_map {t : State α σ} {S : List α} {v : Finset α} {x : Except ε σ}
    (h : step kind apply missing t = some (x.map fun acc => ⟨S, v, acc⟩)) :
    Ends kind apply missing t S v x := by
  cases x with
  | ok acc => exact Ends.of_step h (Ends.refl acc)
  | error e => exact Ends.of_step_error h

/-- A walk from a visited node finds nothing new. -/
theorem visit_eq_ok_of_mem {fuel : Nat} {a : α} {v v' : Finset α} {out : List α}
    (h : visit kind fuel a v = some (.ok (v', out))) (ha : a ∈ v) : v' = v ∧ out = [] := by
  cases fuel with
  | zero => cases h
  | succ fuel =>
    rw [visit, if_pos ha, Option.some.injEq, Except.ok.injEq, Prod.mk.injEq] at h
    exact ⟨h.1.symm, h.2.symm⟩

/-- The first parent not visited, after parents that all are. -/
theorem find_unvisited {pre rest : List α} {p : α} {v : Finset α} (hpre : ∀ q ∈ pre, q ∈ v)
    (hp : p ∉ v) : (pre ++ p :: rest).find? (· ∉ v) = some p := by
  rw [List.find?_append, List.find?_eq_none.mpr (by simpa using hpre), Option.none_or]
  simp [hp]

/-- With the node on top, the loop walks its parents as `visitAll` does, from the first
parent not yet visited: it pushes that parent and, by `ih`, comes back once its walk is done. -/
theorem parents_ends {fuel : Nat}
    (ih : ∀ {S : List α} {a : α} {v v' : Finset α} {out : List α} {acc : σ},
      visit kind fuel a v = some (.ok (v', out)) → Closed kind v →
      Ends kind apply missing ⟨S ++ [a], v, acc⟩ S v' (applyAll kind apply out acc))
    {S : List α} {a : α} {parents : List α} {payload : β}
    (hexpand : kind a = .expand parents payload) :
    ∀ (rest pre : List α) {v v₁ : Finset α} {out : List α} {acc : σ}, parents = pre ++ rest →
      (∀ p ∈ pre, p ∈ v) → Closed kind v →
      visitAll (visit kind fuel) rest v = some (.ok (v₁, out)) →
      Ends kind apply missing ⟨S ++ [a], v, acc⟩ (S ++ [a]) v₁ (applyAll kind apply out acc)
  | [], pre, v, v₁, out, acc, _, _, _, h => by
    simp only [visitAll, Option.some.injEq, Except.ok.injEq, Prod.mk.injEq] at h
    obtain ⟨rfl, rfl⟩ := h
    exact Ends.refl acc
  | p :: rest, pre, v, v₁, out, acc, hsplit, hpre, hv, h => by
    obtain ⟨v₂, out₂, out₃, hp, hrest, rfl⟩ := visitAll_eq_ok_cons h
    have hw := visit_walked hp
    have hv₂ : Closed kind v₂ := hw.closed hv
    -- the parents before the next are visited, and so is the next after its walk
    have hpre₂ : ∀ q ∈ pre ++ [p], q ∈ v₂ := by
      intro q hq
      rcases List.mem_append.mp hq with hq | hq
      · exact hw.subset (hpre q hq)
      · exact hw.starts_mem q hq
    have hnext : ∀ acc' : σ, Ends kind apply missing ⟨S ++ [a], v₂, acc'⟩ (S ++ [a]) v₁
        (applyAll kind apply out₃ acc') := fun acc' =>
      parents_ends ih hexpand rest (pre ++ [p]) (by simpa using hsplit) hpre₂ hv₂ hrest
    rw [applyAll_append]
    by_cases hpv : p ∈ v
    · -- visited already: the loop does not push it
      obtain ⟨rfl, rfl⟩ := visit_eq_ok_of_mem hp hpv
      exact hnext acc
    · have hpush : step kind apply missing ⟨S ++ [a], v, acc⟩ =
          some (.ok ⟨S ++ [a] ++ [p], v, acc⟩) :=
        step_push hexpand (hsplit ▸ find_unvisited hpre hpv)
      exact Ends.of_step hpush (Ends.bind (ih hp hv) fun acc' _ => hnext acc')

/-- The loop with a node on top ends as the walk from that node does: with the walk's
visited set, and the walk's nodes applied in post-order. -/
theorem visit_ends : ∀ {fuel : Nat} {S : List α} {a : α} {v v' : Finset α} {out : List α}
    {acc : σ}, visit kind fuel a v = some (.ok (v', out)) → Closed kind v →
      Ends kind apply missing ⟨S ++ [a], v, acc⟩ S v' (applyAll kind apply out acc)
  | 0, _, _, _, _, _, _, h, _ => by cases h
  | fuel + 1, S, a, v, v', out, acc, h, hv => by
    rcases visit_eq_ok h with ⟨ha, rfl, rfl⟩ | ⟨ha, hstop, rfl, rfl⟩ |
      ⟨ha, parents, payload, v₁, out₁, hexpand, hparents, hlast⟩
    · -- visited already: popped, and by `Closed` its parents are visited too
      cases hkind : kind a with
      | stop =>
        have hstep : step kind apply missing ⟨S ++ [a], v', acc⟩ =
            some (.ok ⟨S, insert a v', acc⟩) :=
          step_stop hkind
        rw [Finset.insert_eq_of_mem ha] at hstep
        exact Ends.of_step hstep (Ends.refl acc)
      | missing => exact absurd hkind (hv a ha).1
      | expand parents payload =>
        have hnone : parents.find? (· ∉ v') = none := List.find?_eq_none.mpr fun p hp => by
          simpa using (hv a ha).2 p ⟨parents, payload, hkind, hp⟩
        exact Ends.of_step (step_skip hkind hnone ha) (Ends.refl acc)
    · exact Ends.of_step (step_stop hstop) (Ends.refl acc)
    · -- the parents' walks, then the node
      have hw := visitAll_walked (fun _ _ _ _ h => visit_walked h) hparents
      have hnone : parents.find? (· ∉ v₁) = none := List.find?_eq_none.mpr fun p hp => by
        simpa using hw.starts_mem p hp
      have hparents_ends : Ends kind apply missing ⟨S ++ [a], v, acc⟩ (S ++ [a]) v₁
          (applyAll kind apply out₁ acc) :=
        parents_ends (fun h hv => visit_ends h hv) hexpand parents [] rfl (fun _ h => nomatch h) hv
          hparents
      rcases hlast with ⟨ha₁, rfl, rfl⟩ | ⟨ha₁, rfl, rfl⟩
      · -- met again below its parents: popped without applying it twice
        have hends := Ends.bind hparents_ends (f := pure)
          fun acc' _ => Ends.of_step (step_skip hexpand hnone ha₁) (Ends.refl acc')
        rwa [bind_pure] at hends
      · rw [applyAll_append]
        refine Ends.bind hparents_ends fun acc' _ => ?_
        rw [applyAll_singleton, applyAt_expand hexpand]
        exact Ends.of_step_map (step_apply hexpand hnone ha₁)

/-- The loop with the start nodes on the stack, the first on top, ends as the walk from
them does. -/
theorem visitAll_ends {fuel : Nat} : ∀ {starts S : List α} {v v' : Finset α} {out : List α}
    {acc : σ}, visitAll (visit kind fuel) starts v = some (.ok (v', out)) → Closed kind v →
      Ends kind apply missing ⟨S ++ starts.reverse, v, acc⟩ S v' (applyAll kind apply out acc)
  | [], S, v, v', out, acc, h, _ => by
    simp only [visitAll, Option.some.injEq, Except.ok.injEq, Prod.mk.injEq] at h
    obtain ⟨rfl, rfl⟩ := h
    rw [List.reverse_nil, List.append_nil]
    exact Ends.refl acc
  | a :: as, S, v, v', out, acc, h, hv => by
    obtain ⟨v₁, out₁, out₂, ha, has, rfl⟩ := visitAll_eq_ok_cons h
    have hv₁ : Closed kind v₁ := (visit_walked ha).closed hv
    rw [List.reverse_cons, ← List.append_assoc, applyAll_append]
    exact Ends.bind (visit_ends ha hv) fun acc' _ => visitAll_ends has hv₁

/-- From the start nodes, the first on top, and nothing visited, `run` with enough fuel
returns the walk's nodes applied in post-order, or the first error they give. -/
theorem run_visitAll {fuel : Nat} {starts : List α} {v' : Finset α} {out : List α}
    (h : visitAll (visit kind fuel) starts ∅ = some (.ok (v', out))) (acc : σ) :
    ∃ n, ∀ m, n ≤ m →
      run kind apply missing m ⟨starts.reverse, ∅, acc⟩ = some (applyAll kind apply out acc) := by
  have hends : Ends kind apply missing ⟨[] ++ starts.reverse, ∅, acc⟩ [] v'
      (applyAll kind apply out acc) :=
    visitAll_ends h (fun _ h => nomatch h)
  rw [List.nil_append] at hends
  exact run_of_ends hends

end Refine

end Loop

end PostOrder
