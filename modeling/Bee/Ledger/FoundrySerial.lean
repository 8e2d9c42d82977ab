import Bee.Ledger.Balanced

namespace Bee

open AssocMap

/-!
# bee-block — the serial numbers of created foundries

An alias output counts in `foundry_counter` the foundries it has created; a
foundry's id is built from its alias, its serial number and its token scheme
kind.  `AliasOutput::transition` asks the foundries a state transition of an
alias creates (outputs of the essence controlled by the alias, whose chain is
not consumed) to carry, in output order, the serials after the consumed
counter, and the new counter to count them; `FoundryOutput::creation` asks the
serial of a created foundry to lie between the two counters of its alias.

* `checkCreatedFoundries_eq_ok` — the loop of `transition` accepts exactly the
  serials `counter + 1, counter + 2, …` in `u32` arithmetic;
* `FoundryId.build_injective` — a foundry id determines the alias and the serial;
* `createdFoundry_serial_bounds`, `createdFoundries_serials` — in a transaction
  `semantic_validation` accepts, the creation check puts every serial above the
  consumed counter, so none of the `u32` additions wraps: the serials are
  `counter + 1, …, counter + k` and the new counter is `counter + k`;
* `foundry_creation_of_accepted` — a created foundry's alias is state
  transitioned in the same transaction;
* `foundry_serial_allocation` — the counter is read from the alias output a
  transaction consumes, and a transaction that keeps two outputs of one alias
  (of which `output_chains` checks the last) leaves a stale counter in the
  ledger: a later transaction that spends it creates a foundry with a serial
  already used, and the ledger then holds two foundries of one id.
-/

/-! ### Foundry ids -/

/-- A foundry id determines the controlling alias and the serial number. -/
theorem FoundryId.build_injective {a a' : AliasId} {s s' : UInt32} {k k' : UInt8}
    (h : FoundryId.build a s k = FoundryId.build a' s' k') : a = a' ∧ s = s' := by
  have hl : a.toList ++ (Word.leBytes 4 s.toNat ++ [k]) = a'.toList ++ (Word.leBytes 4 s'.toNat ++ [k']) := by
    have h' := congrArg Bytes.toList h
    simp only [FoundryId.build, List.append_assoc, List.cons_append, List.nil_append] at h'
    exact (List.cons.inj h').2
  -- the alias takes the first 32 bytes, the serial the next four
  obtain ⟨ha, hrest⟩ := List.append_inj hl (by rw [a.length_eq, a'.length_eq])
  obtain ⟨hs, -⟩ := List.append_inj hrest (by simp)
  have hs' := congrArg Word.leNat hs
  rw [Word.leNat_leBytes _ _ (by have := s.toNat_lt; omega),
    Word.leNat_leBytes _ _ (by have := s'.toNat_lt; omega)] at hs'
  refine ⟨?_, UInt32.toNat_inj.mp hs'⟩
  cases a
  cases a'
  cases ha
  rfl

variable (c : Crypto)

theorem ChainId.orFromOutputId_foundry (id : FoundryId) (outputId : OutputId) :
    (ChainId.foundry id).orFromOutputId c outputId = .foundry id := by
  unfold ChainId.orFromOutputId
  split <;> rfl

/-- Only a foundry output resolves to a foundry chain. -/
theorem Output.eq_foundry_of_chainId {o : Output} {chainId : ChainId} {outputId : OutputId}
    {id : FoundryId} (ho : o.chainId = some chainId) (h : chainId.orFromOutputId c outputId = .foundry id) :
    ∃ g, o = .foundry g ∧ g.id = id := by
  cases o with
  | treasury _ => cases ho
  | basic _ => cases ho
  | «alias» a =>
    cases ho
    unfold ChainId.orFromOutputId at h
    split at h <;> cases h
  | foundry g =>
    cases ho
    rw [FoundryOutput.chainId, ChainId.orFromOutputId_foundry] at h
    cases h
    exact ⟨g, rfl, rfl⟩
  | nft n =>
    cases ho
    unfold ChainId.orFromOutputId at h
    split at h <;> cases h

/-- A foundry among the outputs has its chain in `output_chains`, held by a foundry of the
same id (the last output of that chain). -/
theorem exists_foundry_lookup_chainsOf {outputs : List (OutputId × Output)} {outputId : OutputId}
    {f : FoundryOutput} (hf : (outputId, .foundry f) ∈ outputs) :
    ∃ g, (chainsOf c outputs).lookup (.foundry f.id) = some (.foundry g) ∧ g.id = f.id := by
  have hmem : (ChainId.foundry f.id, Output.foundry f) ∈
      outputs.filterMap fun p => p.2.chainId.map fun chainId => (chainId.orFromOutputId c p.1, p.2) := by
    refine List.mem_filterMap.mpr ⟨_, hf, ?_⟩
    simp only [Output.chainId, FoundryOutput.chainId, Option.map_some, ChainId.orFromOutputId_foundry]
  obtain ⟨v, hv, hvmem⟩ := exists_lookup_collect (List.mem_map_of_mem (f := Prod.fst) hmem)
  obtain ⟨⟨outputId', o⟩, -, ho⟩ := List.mem_filterMap.mp hvmem
  obtain ⟨chainId, hchain, hpair⟩ := Option.map_eq_some_iff.mp ho
  obtain ⟨hresolved, rfl⟩ := Prod.mk.inj hpair
  obtain ⟨g, rfl, hid⟩ := Output.eq_foundry_of_chainId c hchain hresolved
  exact ⟨g, hv, hid⟩

/-! ### What the final checks of `semantic_validation` ask of chains -/

section Checks

variable {ctx : ValidationContext}

/-- No conflict at the end of `semantic_validation`: every chain transition and creation is valid. -/
theorem ValidationContext.chainsValid_of_finalConflict (h : ctx.finalConflict = .none) :
    ctx.transitionsValid = true ∧ ctx.creationsValid = true := by
  unfold ValidationContext.finalConflict at h
  split_ifs at h with h₁ h₂ h₃ h₄ h₅ h₆
  simp only [Bool.not_eq_true', Bool.not_eq_false] at h₅ h₆
  exact ⟨h₅, h₆⟩

/-- A consumed alias that `output_chains` continues as an alias passes `AliasOutput::transition`. -/
theorem ValidationContext.transition_of_transitionsValid (hvalid : ctx.transitionsValid = true)
    {chainId : ChainId} {current next : AliasOutput} (hin : ctx.inputChains.lookup chainId = some (.alias current))
    (hout : ctx.outputChains.lookup chainId = some (.alias next)) : current.transition next ctx = .ok () := by
  have hentry := List.all_eq_true.mp hvalid _ (AList.mem_lookup_iff.mp hin)
  rw [hout] at hentry
  exact Flow.eq_ok_of_isOk hentry

/-- A chain of `output_chains` that no input holds passes its `creation`. -/
theorem ValidationContext.creation_of_creationsValid (hvalid : ctx.creationsValid = true)
    {chainId : ChainId} {o : Output} (hout : ctx.outputChains.lookup chainId = some o)
    (hin : ctx.inputChains.lookup chainId = none) : Output.verifyStateTransition none (some o) ctx = .ok () := by
  have hentry := List.all_eq_true.mp hvalid _ (AList.mem_lookup_iff.mp hout)
  simp only [hin, Option.isSome_none, Bool.false_or] at hentry
  exact Flow.eq_ok_of_isOk hentry

/-- `FoundryOutput::creation` accepts a serial number above the counter of the consumed alias
and at most the counter of its next state. -/
theorem FoundryOutput.creation_eq_ok {g : FoundryOutput} (h : g.creation ctx = .ok ()) :
    ∃ inputAlias outputAlias, ctx.inputChains.lookup (.alias g.aliasAddress) = some (.alias inputAlias) ∧
      ctx.outputChains.lookup (.alias g.aliasAddress) = some (.alias outputAlias) ∧
      inputAlias.foundryCounter < g.serialNumber ∧ g.serialNumber ≤ outputAlias.foundryCounter := by
  unfold FoundryOutput.creation at h
  dsimp only at h
  split at h
  next inputAlias outputAlias hin hout =>
    -- the serial check comes first; the token checks after it do not matter here
    by_cases hserial : inputAlias.foundryCounter ≥ g.serialNumber ∨ g.serialNumber > outputAlias.foundryCounter
    · rw [if_pos hserial] at h
      cases h
    · obtain ⟨hlow, hhigh⟩ := not_or.mp hserial
      exact ⟨inputAlias, outputAlias, hin, hout, UInt32.not_le.mp hlow, UInt32.not_lt.mp hhigh⟩
  · cases h

/-- `AliasOutput::transition` accepts a state transition whose created foundries count up from
the counter to the new one, or a governance transition that keeps the counter. -/
theorem AliasOutput.transition_eq_ok {current next : AliasOutput} (h : current.transition next ctx = .ok ()) :
    (next.stateIndex = current.stateIndex + 1 ∧ ∃ count,
        checkCreatedFoundries current.foundryCounter (next.createdFoundries ctx) 0 = .ok count ∧
        current.foundryCounter + count = next.foundryCounter) ∨
      (next.stateIndex = current.stateIndex ∧ current.foundryCounter = next.foundryCounter) := by
  unfold AliasOutput.transition at h
  split_ifs at h with himm hstate hrights hgovernance hfields
  · -- the state transition: the loop, then the count
    obtain ⟨count, hcheck, hcount⟩ := Flow.bind_eq_ok.mp h
    refine Or.inl ⟨hstate, count, hcheck, ?_⟩
    by_contra hne
    rw [if_pos hne] at hcount
    cases hcount
  · exact Or.inr ⟨hgovernance, not_not.mp (not_or.mp (not_or.mp (not_or.mp hfields).2).2).2⟩

end Checks

/-! ### The count of created foundries -/

/-- The loop of `AliasOutput::transition` over the created foundries, started at `k`, accepts
exactly the serials `counter + (k + 1), counter + (k + 2), …` (in `u32` arithmetic), and
returns the count. -/
theorem checkCreatedFoundries_eq_ok {foundryCounter count : UInt32} :
    ∀ {fs : List FoundryOutput} {k : Nat},
      checkCreatedFoundries foundryCounter fs (UInt32.ofNat k) = .ok count →
      fs.map (·.serialNumber) = (List.range' (k + 1) fs.length).map (foundryCounter + UInt32.ofNat ·) ∧
        count = UInt32.ofNat (k + fs.length)
  | [], k, h => by
    rw [checkCreatedFoundries, Except.ok.injEq] at h
    exact ⟨rfl, h.symm⟩
  | f :: rest, k, h => by
    have hk : UInt32.ofNat k + 1 = UInt32.ofNat (k + 1) := by
      rw [UInt32.ofNat_add]
      rfl
    rw [checkCreatedFoundries, hk] at h
    by_cases hserial : f.serialNumber ≠ foundryCounter + UInt32.ofNat (k + 1)
    · rw [if_pos hserial] at h
      cases h
    · rw [if_neg hserial] at h
      obtain ⟨hrest, hcount⟩ := checkCreatedFoundries_eq_ok h
      refine ⟨?_, ?_⟩
      · rw [List.map_cons, hrest, List.length_cons, List.range'_succ, List.map_cons, not_not.mp hserial]
      · rw [hcount, List.length_cons, Nat.add_right_comm, Nat.add_assoc]

/-- A `u32` sum above its first summand did not wrap. -/
theorem toNat_add_ofNat_of_lt {counter : UInt32} {i : Nat} (hi : i < 2 ^ 32)
    (h : counter < counter + UInt32.ofNat i) : (counter + UInt32.ofNat i).toNat = counter.toNat + i := by
  have hcounter := counter.toNat_lt
  rw [UInt32.lt_iff_toNat_lt, UInt32.toNat_add, UInt32.toNat_ofNat'] at h
  rw [UInt32.toNat_add, UInt32.toNat_ofNat']
  omega

/-- Serials `counter + 1, …, counter + n` that each lie above `counter` are, as numbers,
`counter + 1, …, counter + n`, and so is the new counter `counter + n`. -/
theorem serials_toNat {fs : List FoundryOutput} {counter next : UInt32} (hlen : fs.length < 2 ^ 32)
    (hserials : fs.map (·.serialNumber) = (List.range' 1 fs.length).map (counter + UInt32.ofNat ·))
    (habove : ∀ f ∈ fs, counter < f.serialNumber) (hnext : counter + UInt32.ofNat fs.length = next) :
    fs.map (·.serialNumber.toNat) = List.range' (counter.toNat + 1) fs.length ∧
      next.toNat = counter.toNat + fs.length := by
  -- each `counter + i` is the serial of one of the foundries, so it does not wrap
  have hnowrap : ∀ i ∈ List.range' 1 fs.length, (counter + UInt32.ofNat i).toNat = counter.toNat + i := by
    intro i hi
    have hmem : counter + UInt32.ofNat i ∈ fs.map (·.serialNumber) := by
      rw [hserials]
      exact List.mem_map_of_mem hi
    obtain ⟨f, hf, hfi⟩ := List.mem_map.mp hmem
    have hlt := habove f hf
    rw [hfi] at hlt
    have hbound := List.mem_range'_1.mp hi
    exact toNat_add_ofNat_of_lt (by omega) hlt
  constructor
  · calc fs.map (·.serialNumber.toNat)
        = (fs.map (·.serialNumber)).map UInt32.toNat := by rw [List.map_map]; rfl
      _ = (List.range' 1 fs.length).map (fun i => (counter + UInt32.ofNat i).toNat) := by
        rw [hserials, List.map_map]; rfl
      _ = (List.range' 1 fs.length).map (counter.toNat + ·) := List.map_congr_left hnowrap
      _ = List.range' (counter.toNat + 1) fs.length := by rw [List.map_add_range']
  · rw [← hnext]
    -- with no foundry the counter is kept; otherwise the last serial is the new counter
    rcases Nat.eq_zero_or_pos fs.length with hzero | hpos
    · rw [hzero, Nat.add_zero]
      have hzero' : UInt32.ofNat 0 = 0 := rfl
      rw [hzero', UInt32.add_zero]
    · exact hnowrap fs.length (List.mem_range'_1.mpr ⟨hpos, by omega⟩)

/-! ### Accepted transactions -/

/-- The foundries an alias transition creates depend only on the essence and the consumed chains. -/
theorem AliasOutput.createdFoundries_congr (next : AliasOutput) {ctx ctx' : ValidationContext}
    (hessence : ctx'.essence = ctx.essence) (hinputs : ctx'.inputChains = ctx.inputChains) :
    next.createdFoundries ctx' = next.createdFoundries ctx := by
  unfold AliasOutput.createdFoundries
  rw [hessence, hinputs]

/-- In a context whose creations pass, every foundry an alias state transition creates has a
serial above the consumed alias's counter and at most the new one. -/
theorem createdFoundry_serial_bounds {ctx : ValidationContext} (hvalid : ctx.creationsValid = true)
    (hchains : ∀ f, Output.foundry f ∈ ctx.essence.outputs →
      ∃ g, ctx.outputChains.lookup (.foundry f.id) = some (.foundry g) ∧ g.id = f.id)
    {A : AliasId} {current next : AliasOutput}
    (hin : ctx.inputChains.lookup (.alias A) = some (.alias current))
    (hout : ctx.outputChains.lookup (.alias A) = some (.alias next)) (hA : next.aliasId = A) :
    ∀ f ∈ next.createdFoundries ctx, current.foundryCounter < f.serialNumber ∧ f.serialNumber ≤ next.foundryCounter := by
  intro f hf
  obtain ⟨o, ho, hfo⟩ := List.mem_filterMap.mp hf
  cases o with
  | foundry f' =>
    -- a foundry output of the essence, controlled by `A`, whose chain no input holds
    dsimp only at hfo
    split_ifs at hfo with hcond
    cases hfo
    obtain ⟨haddress, hnew⟩ := hcond
    obtain ⟨g, hg, hid⟩ := hchains f ho
    obtain ⟨hgaddress, hgserial⟩ := FoundryId.build_injective hid
    have hnone : ctx.inputChains.lookup (.foundry f.id) = none := Option.isNone_iff_eq_none.mp hnew
    -- its chain is created, so `FoundryOutput::creation` compares it with `A`'s two counters
    obtain ⟨inputAlias, outputAlias, hia, hoa, hlow, hhigh⟩ :=
      FoundryOutput.creation_eq_ok (ctx.creation_of_creationsValid hvalid hg hnone)
    rw [hgaddress, haddress, hA, hin, Option.some.injEq, Output.alias.injEq] at hia
    rw [hgaddress, haddress, hA, hout, Option.some.injEq, Output.alias.injEq] at hoa
    rw [← hia, ← hoa, hgserial] at *
    exact ⟨hlow, hhigh⟩
  | treasury _ => cases hfo
  | basic _ => cases hfo
  | «alias» _ => cases hfo
  | nft _ => cases hfo

/-- What `semantic_validation` accepting a transaction says of the chains: on a context with
the essence and the chains of `ValidationContext::new`, every transition and creation passes. -/
theorem TransactionPayload.chainsValid {t : TransactionPayload} {inputs : List (OutputId × Output)}
    {milestoneTimestamp : UInt32} (h : t.semanticValidation c inputs milestoneTimestamp = .ok .none) :
    ∃ ctx : ValidationContext, ctx.essence = t.essence ∧ ctx.inputChains = chainsOf c inputs ∧
      ctx.outputChains = chainsOf c (t.essence.outputsWithIds (t.id c)) ∧
      ctx.transitionsValid = true ∧ ctx.creationsValid = true := by
  obtain ⟨ctx, hframe, hfinal⟩ := semanticValidation_final c h
  obtain ⟨htrans, hcreations⟩ := ctx.chainsValid_of_finalConflict hfinal
  exact ⟨ctx, hframe.essence, hframe.inputChains, hframe.outputChains, htrans, hcreations⟩

/-- Every foundry among the outputs of a transaction has its chain among the output chains. -/
theorem exists_foundry_lookup_outputChains (t : TransactionPayload) {f : FoundryOutput}
    (hf : Output.foundry f ∈ t.essence.outputs) :
    ∃ g, (chainsOf c (t.essence.outputsWithIds (t.id c))).lookup (.foundry f.id) = some (.foundry g) ∧
      g.id = f.id := by
  rw [← RegularTransactionEssence.outputsWithIds_map_snd t.essence (t.id c)] at hf
  obtain ⟨⟨outputId, o⟩, hmem, rfl⟩ := List.mem_map.mp hf
  exact exists_foundry_lookup_chainsOf c hmem

section Accepted

variable {t : TransactionPayload} {inputs : List (OutputId × Output)} {milestoneTimestamp : UInt32}

/-- In a transaction `semantic_validation` accepts, the foundries a state transition of an
alias creates carry, in output order, the serials after the consumed counter, and the new
counter counts them, with no `u32` wrap. -/
theorem createdFoundries_serials (h : t.semanticValidation c inputs milestoneTimestamp = .ok .none)
    {A : AliasId} {current next : AliasOutput}
    (hin : (chainsOf c inputs).lookup (.alias A) = some (.alias current))
    (hout : (chainsOf c (t.essence.outputsWithIds (t.id c))).lookup (.alias A) = some (.alias next))
    (hA : next.aliasId = A) (hstate : next.stateIndex = current.stateIndex + 1) :
    let created := next.createdFoundries (.new c (t.id c) t.essence inputs t.unlocks milestoneTimestamp)
    created.map (·.serialNumber.toNat) = List.range' (current.foundryCounter.toNat + 1) created.length ∧
      next.foundryCounter.toNat = current.foundryCounter.toNat + created.length := by
  intro created
  obtain ⟨ctx, hessence, hinputs, houtputs, htrans, hcreations⟩ := t.chainsValid c h
  have hcreated : next.createdFoundries ctx = created := next.createdFoundries_congr hessence hinputs
  rw [← hinputs] at hin
  rw [← houtputs] at hout
  have hchains : ∀ f, Output.foundry f ∈ ctx.essence.outputs →
      ∃ g, ctx.outputChains.lookup (.foundry f.id) = some (.foundry g) ∧ g.id = f.id := by
    intro f hf
    rw [houtputs]
    exact exists_foundry_lookup_outputChains c t (hessence ▸ hf)
  have hbounds := createdFoundry_serial_bounds hcreations hchains hin hout hA
  -- at most one created foundry per output
  have hlen : (next.createdFoundries ctx).length < 2 ^ 32 := by
    have hle : (next.createdFoundries ctx).length ≤ ctx.essence.outputs.length :=
      List.length_filterMap_le _ _
    have hmax := t.essence.outputs_length.2
    rw [← hessence] at hmax
    unfold INPUT_COUNT_MAX at hmax
    omega
  rw [← hcreated]
  rcases AliasOutput.transition_eq_ok (ctx.transition_of_transitionsValid htrans hin hout) with
    ⟨-, count, hcheck, hcount⟩ | ⟨hsame, -⟩
  · obtain ⟨hserials, rfl⟩ := checkCreatedFoundries_eq_ok (k := 0) hcheck
    rw [Nat.zero_add] at hserials hcount
    exact serials_toNat hlen hserials (fun f hf => (hbounds f hf).1) hcount
  · -- a governance transition keeps the state index, which this one moves
    rw [hstate] at hsame
    exact absurd hsame (by simp)

/-- In a transaction `semantic_validation` accepts, a foundry whose chain no input holds is
created by a state transition of its alias, with a serial between the alias's two counters. -/
theorem foundry_creation_of_accepted (h : t.semanticValidation c inputs milestoneTimestamp = .ok .none)
    {f : FoundryOutput} (hf : Output.foundry f ∈ t.essence.outputs)
    (hnew : (chainsOf c inputs).lookup (.foundry f.id) = none) :
    ∃ current next, (chainsOf c inputs).lookup (.alias f.aliasAddress) = some (.alias current) ∧
      (chainsOf c (t.essence.outputsWithIds (t.id c))).lookup (.alias f.aliasAddress) = some (.alias next) ∧
      next.stateIndex = current.stateIndex + 1 ∧
      current.foundryCounter < f.serialNumber ∧ f.serialNumber ≤ next.foundryCounter := by
  obtain ⟨ctx, -, hinputs, houtputs, htrans, hcreations⟩ := t.chainsValid c h
  obtain ⟨g, hg, hid⟩ := exists_foundry_lookup_outputChains c t hf
  obtain ⟨hgaddress, hgserial⟩ := FoundryId.build_injective hid
  rw [← houtputs] at hg
  rw [← hinputs] at hnew
  obtain ⟨current, next, hin, hout, hlow, hhigh⟩ :=
    FoundryOutput.creation_eq_ok (ctx.creation_of_creationsValid hcreations hg hnew)
  rw [hgaddress] at hin hout
  rw [hgserial] at hlow hhigh
  refine ⟨current, next, hinputs ▸ hin, houtputs ▸ hout, ?_, hlow, hhigh⟩
  -- a governance transition keeps the counter, which the serial lies strictly above
  rcases AliasOutput.transition_eq_ok (ctx.transition_of_transitionsValid htrans hin hout) with
    ⟨hstate, -⟩ | ⟨-, hsame⟩
  · exact hstate
  · rw [hsame] at hlow
    exact absurd (UInt32.lt_of_lt_of_le hlow hhigh) (UInt32.lt_irrefl _)

end Accepted

/-! ### A stale alias counter -/

namespace Utxo

/-- The alias `5…5` with an amount, a state index and a foundry counter. -/
def aliasWith (amount : UInt64) (stateIndex foundryCounter : UInt32) : AliasOutput :=
  { controllingAlias stateIndex with amount, foundryCounter }

/-- A ledger holding the alias `5…5`, which has created no foundry yet. -/
def serialLedger : Utxo := collect [(.ofIndex (.replicate 32 7) 0, .alias (aliasWith 4 1 0))]

/-- The 100 tokens the foundries of the run mint are within their maximum supply. -/
theorem minted_le_maximumSupply : 100 ≤ 1000 := by decide

/-- A state transition of the alias that creates its first foundry (serial 1) and keeps two
outputs of the alias: one with the counter 0 it had, and the last, checked one, with 1. -/
def staleAlias : TransactionPayload :=
  { nftDuplicate with
    essence :=
      { nftDuplicate.essence with
        inputsCommitment := InputsCommitment.new .truncating [.alias (aliasWith 4 1 0)]
        outputs := [.alias (aliasWith 2 2 0), .alias (aliasWith 1 2 1), .foundry (mintingFoundry 1 100 minted_le_maximumSupply)]
        outputs_length := by decide } }

/-- A state transition of the stale output of the alias, which creates a foundry with the
serial 1 again. -/
def reuseSerial : TransactionPayload where
  essence :=
    { networkId := 0
      inputs := [.utxo (.ofIndex (staleAlias.id .truncating) 0)]
      inputsCommitment := InputsCommitment.new .truncating [.alias (aliasWith 2 2 0)]
      outputs := [.alias (aliasWith 1 3 1), .foundry (mintingFoundry 1 100 minted_le_maximumSupply)]
      payload := none
      inputs_length := by decide
      outputs_length := by decide
      inputs_verified := by decide }
  unlocks := signatureUnlocks
  unlocks_length := rfl

end Utxo

theorem foundry_serial_allocation :
    (∀ (c : Crypto) (t : TransactionPayload) (inputs : List (OutputId × Output)) (milestoneTimestamp : UInt32),
      t.semanticValidation c inputs milestoneTimestamp = .ok .none →
      ∀ (A : AliasId) (current next : AliasOutput),
        (chainsOf c inputs).lookup (.alias A) = some (.alias current) →
        (chainsOf c (t.essence.outputsWithIds (t.id c))).lookup (.alias A) = some (.alias next) →
        next.aliasId = A → next.stateIndex = current.stateIndex + 1 →
        let created := next.createdFoundries (.new c (t.id c) t.essence inputs t.unlocks milestoneTimestamp)
        created.map (·.serialNumber.toNat) = List.range' (current.foundryCounter.toNat + 1) created.length ∧
          next.foundryCounter.toNat = current.foundryCounter.toNat + created.length) ∧
    (∀ (c : Crypto) (t : TransactionPayload) (inputs : List (OutputId × Output)) (milestoneTimestamp : UInt32),
      t.semanticValidation c inputs milestoneTimestamp = .ok .none →
      ∀ f : FoundryOutput, Output.foundry f ∈ t.essence.outputs → (chainsOf c inputs).lookup (.foundry f.id) = none →
        ∃ current next, (chainsOf c inputs).lookup (.alias f.aliasAddress) = some (.alias current) ∧
          (chainsOf c (t.essence.outputsWithIds (t.id c))).lookup (.alias f.aliasAddress) = some (.alias next) ∧
          next.stateIndex = current.stateIndex + 1 ∧
          current.foundryCounter < f.serialNumber ∧ f.serialNumber ≤ next.foundryCounter) ∧
    (Utxo.serialLedger.ChainsUnique .truncating ∧ Utxo.serialLedger.foundries = [] ∧
      Utxo.serialLedger.accepts .truncating Utxo.staleAlias 0 = true ∧
      (Utxo.serialLedger.applyTransaction .truncating Utxo.staleAlias).accepts .truncating Utxo.reuseSerial 0 = true ∧
      ¬ (((Utxo.serialLedger.applyTransaction .truncating Utxo.staleAlias).applyTransaction .truncating
        Utxo.reuseSerial).foundries.map (·.id)).Nodup) := by
  refine ⟨fun c t inputs milestoneTimestamp h A current next hin hout hA hstate =>
      createdFoundries_serials c h hin hout hA hstate,
    fun c t inputs milestoneTimestamp h f hf hnew => foundry_creation_of_accepted c h hf hnew, ?_⟩
  -- the run: both transactions are accepted, and two foundries of the alias share an id
  decide +kernel

end Bee
