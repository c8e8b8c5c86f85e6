import Blq.Proof.OrphanDrain
import Blq.Spec.Pruning

/-!
# Rewriting the canonical chain

`rebuildCanonicalChain` and `rollbackNode` remove the canonical rows first and replay a chain
after that. Whether a rewrite is all or nothing depends on nothing but that replay: there is no
way back to the rows that were removed.

* `AllOrNothing`: success leaves the requested chain with its accounts, an error the old one.
* `rewrite_all_or_nothing_iff`: a rebuild is all or nothing exactly when the replacement replays
  on an empty database or there was nothing to lose; a rollback exactly when it is refused at
  once or the shortened chain replays.
* `failed_rewrite_loses_chain`: the rollback of a database with a pruned body empties it.
-/

namespace Blq

open Word Result

variable {s : SledStorage} {chain replacement : List Block}

/-- **All or nothing**: the requested chain after a success, the old one after an error. -/
def AllOrNothing (O : Oracle) (R : Revm) (rewrite : StoreM Unit) (s : SledStorage)
    (requested : List Block) : Prop :=
  match rewrite s with
  | .ok _ s' => Holds O R s' requested
  | .error _ s' => s'.canonicalView = s.canonicalView

theorem length_canonicalBlocks_le (s : SledStorage) : s.canonicalBlocks.length ≤ 2 ^ 64 := by
  unfold SledStorage.canonicalBlocks
  rw [List.length_insertionSort, List.length_map]
  have hnodup : (s.blocks.toList.map fun p => p.1.toNat).Nodup := by
    rw [List.nodup_iff_pairwise_ne, List.pairwise_map]
    refine (Map.pairwise_key_ne s.blocks).imp fun hne heq => hne (BitVec.eq_of_toNat_eq heq)
  have hsub : (s.blocks.toList.map fun p => p.1.toNat).toFinset ⊆ Finset.range (2 ^ 64) := by
    intro n hn
    rw [List.mem_toFinset, List.mem_map] at hn
    obtain ⟨p, -, rfl⟩ := hn
    exact Finset.mem_range.mpr p.1.isLt
  have hcard := Finset.card_le_card hsub
  rwa [List.toFinset_card_of_nodup hnodup, List.length_map, Finset.card_range] at hcard

variable {O : Oracle} {R : Revm} {config : NodeConfig}

theorem replay_clear_error (hlen : chain.length ≤ 2 ^ 64)
    (h : validateReplacementInIsolation O R config chain ≠ .ok ()) (s : SledStorage) :
    ∃ e s', replayCanonicalChain O R config chain s.clearCanonicalState = .error e s' ∧
      s'.clearCanonicalState = s.clearCanonicalState := by
  cases hrun : replayCanonicalChain O R config chain {} with
  | ok u s₀ => exact absurd (isolation_iff.mpr ⟨s₀, hrun⟩) h
  | error e s₀ =>
    exact ⟨e, s.graft s₀, (framesAt_replayCanonicalChain stored_empty hlen s).of_error hrun, rfl⟩

/-! ## Rebuilding -/

theorem rebuild_of_error (previous : List Block) {s s₁ : SledStorage} {e : NodeError}
    (hs₁ : replayCanonicalChain O R config replacement s.clearCanonicalState = .error e s₁)
    (hclear : s₁.clearCanonicalState = s.clearCanonicalState) :
    rebuildCanonicalChain O R config replacement previous s =
      (attempt (replayCanonicalChain O R config previous) >>= fun outcome =>
        match outcome with
        | .ok _ => pure ()
        | .error rollbackError => throw (.bail ("candidate reorg failed: " ++ e.message ++
            "; rollback failed: " ++ rollbackError.message))) s.clearCanonicalState := by
  show (attempt (replayCanonicalChain O R config replacement) >>= _) s.clearCanonicalState = _
  rw [attempt_bind_of_error hs₁, ← hclear]
  rfl

theorem rebuild_of_failed (hlen : replacement.length ≤ 2 ^ 64)
    (h : validateReplacementInIsolation O R config replacement ≠ .ok ()) (previous : List Block)
    (s : SledStorage) :
    (∃ s', rebuildCanonicalChain O R config replacement previous s = .ok () s' ∧
      replayCanonicalChain O R config previous s.clearCanonicalState = .ok () s') ∨
    ∃ e e' s', rebuildCanonicalChain O R config replacement previous s = .error e s' ∧
      replayCanonicalChain O R config previous s.clearCanonicalState = .error e' s' := by
  obtain ⟨e, s₁, hs₁, hclear⟩ := replay_clear_error hlen h s
  have hrun := rebuild_of_error previous hs₁ hclear
  cases hprevious : replayCanonicalChain O R config previous s.clearCanonicalState with
  | ok u s' =>
    refine .inl ⟨s', ?_, rfl⟩
    rw [hrun, attempt_bind_of_ok hprevious]
    rfl
  | error e' s' =>
    rw [hrun, attempt_bind_of_error hprevious]
    exact .inr ⟨_, e', s', rfl, rfl⟩

/-- A replacement that does not replay is never installed, and the old chain is not there as it
was, unless nothing was there. -/
theorem rebuild_of_failed_iff (hlen : replacement.length ≤ 2 ^ 64)
    (hgenesis : ∀ b ∈ s.canonicalBlocks, b.header.number = 0 → b.transactions = [])
    (h : validateReplacementInIsolation O R config replacement ≠ .ok ()) :
    AllOrNothing O R (rebuildCanonicalChain O R config replacement s.canonicalBlocks) s
        replacement ↔
      s.canonicalView = ({} : SledStorage).canonicalView := by
  have hempty : s.canonicalView = ({} : SledStorage).canonicalView → s.canonicalBlocks = [] :=
    fun hview => canonicalBlocks_of_view hview
  have hprevious := length_canonicalBlocks_le s
  unfold AllOrNothing
  rcases rebuild_of_failed hlen h s.canonicalBlocks s with
    ⟨s', hrun, hreplay⟩ | ⟨e, e', s', hrun, hreplay⟩
  · -- the old chain is back and the caller is told that the new one is there
    rw [hrun]
    obtain ⟨hstored, -⟩ := stored_of_replay (stored_clear s) hprevious hreplay
    constructor
    · rintro ⟨hblocks, -⟩
      rw [canonicalBlocks_of_stored hstored] at hblocks
      obtain ⟨e, s₁, hs₁, -⟩ := replay_clear_error hlen h s
      rw [← hblocks, hreplay] at hs₁
      cases hs₁
    · intro hview
      rw [hempty hview] at hreplay
      cases hreplay
  · rw [hrun]
    rcases stored_of_replay_error (stored_clear s) hprevious hgenesis hreplay with
      ⟨-, rfl⟩ | ⟨done, hne, hstored⟩
    · exact eq_comm
    · constructor
      · intro hview
        have hblocks := canonicalBlocks_of_view hview
        rw [canonicalBlocks_of_stored hstored] at hblocks
        exact absurd hblocks hne
      · intro hview
        rw [hempty hview] at hreplay hne
        change (.error _ s.clearCanonicalState : EStateM.Result NodeError SledStorage Unit) =
          .error e' s' at hreplay
        obtain ⟨-, rfl⟩ := EStateM.Result.error.inj hreplay
        exact absurd ((canonicalBlocks_of_stored hstored).symm.trans
          (canonicalBlocks_of_stored (stored_clear (O := O) s))) hne

/-! ## Rolling back -/

def RollbackRefused (s : SledStorage) (height : U64) : Prop :=
  ∀ current, s.canonicalBlocks.getLast? = some current →
    height.toNat ≥ current.header.number.toNat

theorem rollback_of_refused {height : U64} (h : RollbackRefused s height) (requested : List Block) :
    AllOrNothing O R (rollbackNode O R config height) s requested := by
  have hrun : ∃ e, rollbackNode O R config height s = .error e s := by
    unfold rollbackNode
    rw [get_bind_apply]
    cases hlast : s.canonicalBlocks.getLast? with
    | none => exact ⟨_, rfl⟩
    | some current =>
      dsimp only
      rw [if_pos (h current hlast)]
      exact ⟨_, rfl⟩
  obtain ⟨e, hrun⟩ := hrun
  unfold AllOrNothing
  rw [hrun]

theorem rollbackNode_eq (O : Oracle) (R : Revm) (config : NodeConfig) {height : U64}
    (h : ¬ RollbackRefused s height) :
    s.canonicalBlocks ≠ [] ∧ rollbackNode O R config height s =
      (attempt (replayCanonicalChain O R config (rollbackReplacement s height)) >>= fun outcome =>
        match outcome with
        | .ok _ => pure ()
        | .error err => do
          modify SledStorage.clearCanonicalState
          throw err) s.clearCanonicalState := by
  unfold RollbackRefused at h
  push Not at h
  obtain ⟨current, hlast, hbelow⟩ := h
  have hne : s.canonicalBlocks ≠ [] := by
    intro hnil
    rw [hnil] at hlast
    cases hlast
  have hsome : ¬ (rollbackReplacement s height).isEmpty = true := by
    rw [List.isEmpty_iff, rollbackReplacement, List.take_eq_nil_iff]
    rintro (hzero | hnil)
    · omega
    · exact hne hnil
  refine ⟨hne, ?_⟩
  unfold rollbackNode
  rw [get_bind_apply, hlast]
  dsimp only
  rw [if_neg (by omega), if_neg hsome]
  rfl

/-- **When a rewrite is all or nothing.** The genesis block that is stored has no transactions. -/
theorem rewrite_all_or_nothing_iff (O : Oracle) (R : Revm) (config : NodeConfig) (s : SledStorage)
    (hgenesis : ∀ b ∈ s.canonicalBlocks, b.header.number = 0 → b.transactions = [])
    (replacement : List Block) (hlen : replacement.length ≤ 2 ^ 64) (height : U64) :
    (AllOrNothing O R (rebuildCanonicalChain O R config replacement s.canonicalBlocks) s
        replacement ↔
      validateReplacementInIsolation O R config replacement = .ok () ∨
        s.canonicalView = ({} : SledStorage).canonicalView) ∧
    (AllOrNothing O R (rollbackNode O R config height) s (rollbackReplacement s height) ↔
      RollbackRefused s height ∨
        validateReplacementInIsolation O R config (rollbackReplacement s height) = .ok ()) := by
  constructor
  · by_cases hvalid : validateReplacementInIsolation O R config replacement = .ok ()
    · obtain ⟨s', hrun, hholds, -⟩ := rebuild_of_isolation hlen hvalid s.canonicalBlocks s
      unfold AllOrNothing
      rw [hrun]
      exact ⟨fun _ => .inl hvalid, fun _ => hholds⟩
    · rw [rebuild_of_failed_iff hlen hgenesis hvalid]
      exact ⟨.inr, fun h => h.resolve_left hvalid⟩
  · by_cases hrefused : RollbackRefused s height
    · exact ⟨fun _ => .inl hrefused, fun _ => rollback_of_refused hrefused _⟩
    · obtain ⟨hne, hrun⟩ := rollbackNode_eq O R config hrefused
      have hshort : (rollbackReplacement s height).length ≤ 2 ^ 64 := by
        rw [rollbackReplacement, List.length_take]
        exact (Nat.min_le_right _ _).trans (length_canonicalBlocks_le s)
      unfold AllOrNothing
      rw [hrun]
      by_cases hvalid :
          validateReplacementInIsolation O R config (rollbackReplacement s height) = .ok ()
      · obtain ⟨s', hs', hholds, -⟩ := replay_clear_of_isolation hshort hvalid s
        rw [attempt_bind_of_ok hs']
        exact ⟨fun _ => .inr hvalid, fun _ => hholds⟩
      · -- the old rows are gone
        obtain ⟨e, s', hs', hclear⟩ := replay_clear_error hshort hvalid s
        rw [attempt_bind_of_error hs']
        constructor
        · intro hview
          change s'.clearCanonicalState.canonicalView = s.canonicalView at hview
          exact absurd (canonicalBlocks_of_view hview).symm hne
        · rintro (hrefused' | hvalid')
          · exact absurd hrefused' hrefused
          · exact absurd hvalid' hvalid

/-! ## A chain that is lost -/

def shortChainBlocks : List Block := [genesisBlock nonceOracle, firstBlock, secondBlock]

def chainStore : SledStorage :=
  finalState (replayCanonicalChain nonceOracle noContracts plainConfig shortChainBlocks) {}

def prunedStore : SledStorage :=
  chainStore.pruneOldBlocks (fun asked => if asked = 0 then 901 else 900) 1000 0

def wrongChain : List Block := [genesisBlock nonceOracle, firstBlock, wrongSecondBlock]

/-- The chain a rollback leaves, if it reports an error. -/
def unrolledChain (height : U64) (s : SledStorage) : Option (List Block) :=
  match rollbackNode nonceOracle noContracts plainConfig height s with
  | .ok _ _ => none
  | .error _ s' => some s'.canonicalBlocks

theorem of_unrolledChain {height : U64} (h : unrolledChain height s = some chain)
    (hne : chain ≠ s.canonicalBlocks) (requested : List Block) :
    ¬ AllOrNothing nonceOracle noContracts
      (rollbackNode nonceOracle noContracts plainConfig height) s requested := by
  intro hall
  unfold unrolledChain at h
  unfold AllOrNothing at hall
  split at h
  · cases h
  · next e s' hrun =>
    rw [hrun] at hall
    exact hne ((Option.some.inj h).symm.trans (canonicalBlocks_of_view hall))

/-- **The rollback of a pruned database empties it.** The blocks up to the height are counted from
the stored ones, so the block behind the pruned one is replayed on top of the genesis block. -/
theorem failed_rewrite_loses_chain :
    prunedStore.canonicalBlocks = [genesisBlock nonceOracle, secondBlock] ∧
      unrolledChain 1 prunedStore = some [] ∧
      ¬ AllOrNothing nonceOracle noContracts (rollbackNode nonceOracle noContracts plainConfig 1)
        prunedStore (rollbackReplacement prunedStore 1) := by
  have hunrolled : unrolledChain 1 prunedStore = some [] := by decide +kernel
  have hbefore : prunedStore.canonicalBlocks = [genesisBlock nonceOracle, secondBlock] := by
    decide +kernel
  refine ⟨hbefore, hunrolled, ?_⟩
  exact of_unrolledChain hunrolled (by rw [hbefore]; exact (List.cons_ne_nil _ _).symm) _

theorem rewrite_all_or_nothing_chainStore :
    AllOrNothing nonceOracle noContracts (rollbackNode nonceOracle noContracts plainConfig 1)
      chainStore (rollbackReplacement chainStore 1) := by
  have hgenesis : ∀ b ∈ chainStore.canonicalBlocks, b.header.number = 0 → b.transactions = [] := by
    decide +kernel
  have hreplays : validateReplacementInIsolation nonceOracle noContracts plainConfig
      (rollbackReplacement chainStore 1) = .ok () := by
    decide +kernel
  have hiff := rewrite_all_or_nothing_iff nonceOracle noContracts plainConfig chainStore hgenesis
    wrongChain (by decide) 1
  rw [hiff.2]
  exact .inr hreplays

end Blq
