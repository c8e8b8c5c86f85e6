import Blq.Proof.CandidatePool
import Blq.Spec.Pruning

/-!
# Fork choice after bodies were removed

Fork choice sums the work of the canonical chain over its bodies, from genesis to the tip, for
every block of another branch; a publication reads the bodies it takes back. Pruning removes
bodies between the floor and the tip, so it takes away what both of them read.

* `missing_pruneOldBlocks`, `pruneOldBlocks_eq_self`: pruning removes the lowest body above the
  floor, or it changes nothing.
* `queueOutcome_of_missing`: with one canonical body gone no block is queued any more.
* `prune_keeps_fork_choice_iff`: so fork choice survives pruning exactly if nothing was pruned.
* `pruned_node_refuses_branch`: a node that would switch to a branch fails on it after pruning.
-/

namespace Blq

open Word Result

variable {O : Oracle} {config : NodeConfig} {s : SledStorage} {b : Block}

/-! ## What is removed -/

variable {k floor : U64} {usage : ℕ → U64}

theorem getElem?_removeBody {number : U64} (h : s.blocks[k]? = none) :
    (s.removeBody number).blocks[k]? = none := by
  unfold SledStorage.removeBody
  rw [Map.getElem?_erase_eq]
  split
  · rfl
  · exact h

theorem pruneBodies_rec {P : SledStorage → Prop} {target : U64}
    (hremove : ∀ s number, P s → P (s.removeBody number)) (numbers : List U64) (asked : ℕ) (h : P s) :
    P (SledStorage.pruneBodies usage target asked numbers s) := by
  induction numbers generalizing asked s with
  | nil => exact h
  | cons number rest ih =>
    unfold SledStorage.pruneBodies
    split
    · exact h
    · split
      · exact ih _ h
      · exact ih _ (hremove s number h)

theorem chain_pruneBodies (usage : ℕ → U64) (target : U64) (numbers : List U64) (asked : ℕ) :
    (SledStorage.pruneBodies usage target asked numbers s).headers = s.headers ∧
      (SledStorage.pruneBodies usage target asked numbers s).bestNumber = s.bestNumber :=
  pruneBodies_rec (P := fun s' => s'.headers = s.headers ∧ s'.bestNumber = s.bestNumber)
    (fun _ _ h => h) numbers asked ⟨rfl, rfl⟩

theorem bestHeader_pruneOldBlocks (usage : ℕ → U64) (maxBytes floor : U64) :
    (s.pruneOldBlocks usage maxBytes floor).bestHeader = s.bestHeader := by
  obtain ⟨hheaders, hbest⟩ := chain_pruneBodies (s := s) usage (SledStorage.pruneTarget maxBytes)
    (s.prunableNumbers floor) 0
  unfold SledStorage.bestHeader SledStorage.getBestNumber SledStorage.headerByNumber
    SledStorage.pruneOldBlocks
  rw [hheaders, hbest]

theorem mem_prunableNumbers :
    k ∈ s.prunableNumbers floor ↔ (∃ block, s.blocks[k]? = some block) ∧ floor.toNat < k.toNat := by
  unfold SledStorage.prunableNumbers
  simp only [List.mem_filter, List.mem_map, Prod.exists, exists_and_right, exists_eq_right,
    Map.mem_toList_iff, decide_eq_true_eq, gt_iff_lt]

theorem pruneOldBlocks_eq_self {maxBytes : U64}
    (h : (usage 0).toNat ≤ (SledStorage.pruneTarget maxBytes).toNat ∨
      s.prunableNumbers floor = []) : s.pruneOldBlocks usage maxBytes floor = s := by
  unfold SledStorage.pruneOldBlocks
  cases hnumbers : s.prunableNumbers floor with
  | nil => rfl
  | cons number rest =>
    rcases h with hused | hempty
    · unfold SledStorage.pruneBodies
      rw [if_pos hused]
    · rw [hnumbers] at hempty
      exact absurd hempty (List.cons_ne_nil _ _)

/-- **Above the target the lowest body over the floor goes.** -/
theorem missing_pruneOldBlocks {maxBytes number : U64} {rest : List U64}
    (hused : (SledStorage.pruneTarget maxBytes).toNat < (usage 0).toNat)
    (hnumbers : s.prunableNumbers floor = number :: rest) :
    (s.pruneOldBlocks usage maxBytes floor).blocks[number]? = none := by
  obtain ⟨⟨block, hblock⟩, -⟩ := mem_prunableNumbers.mp
    (show number ∈ s.prunableNumbers floor by simp [hnumbers])
  unfold SledStorage.pruneOldBlocks
  rw [hnumbers]
  unfold SledStorage.pruneBodies
  rw [if_neg (Nat.not_le.mpr hused), blockByNumber_eq_ok.mpr hblock]
  refine pruneBodies_rec (P := fun s => s.blocks[number]? = none) (fun _ _ => getElem?_removeBody)
    rest 1 ?_
  unfold SledStorage.removeBody
  rw [Map.getElem?_erase_eq, if_pos rfl]

/-! ## What fork choice reads -/

theorem canonicalWork_of_missing {height : U64} (hk : k.toNat ≤ height.toNat)
    (hmissing : s.blocks[k]? = none) (work : U128) :
    canonicalWorkThroughNodeStorage s height ≠ .ok work := by
  intro h
  obtain ⟨block, hblock⟩ := bodies_of_work h k hk
  rw [hmissing] at hblock
  exact absurd hblock (by simp)

/-- What becomes of a block: `queue_competing_block_pending` returns nothing both for an orphan
and for a block it has queued. -/
inductive QueueOutcome where
  | rejected (error : NodeError)
  | orphaned
  | queued (work : U128)
  | replaces (work : U128) (branch : CandidateBranch)

def queueOutcome (O : Oracle) (config : NodeConfig) (s : SledStorage) (block : Block) :
    QueueOutcome :=
  match storeCompetingBlock O config block s with
  | .error e _ => .rejected e
  | .ok none _ => .orphaned
  | .ok (some work) _ =>
    match queueCompetingBlockPending O config block s with
    | .error e _ => .rejected e
    | .ok none _ => .queued work
    | .ok (some branch) _ => .replaces work branch

/-- The block was taken in and compared with the chain. -/
def QueueOutcome.Compared : QueueOutcome → Prop
  | .queued _ | .replaces _ _ => True
  | .rejected _ | .orphaned => False

/-- **A block is compared with the chain only if all its bodies are there.** -/
theorem queueOutcome_of_missing {tip : BlockHeader} (hbest : s.bestHeader = .ok tip)
    (hk : k.toNat ≤ tip.number.toNat) (hmissing : s.blocks[k]? = none) :
    ¬(queueOutcome O config s b).Compared := by
  unfold queueOutcome
  cases hstored : storeCompetingBlock O config b s with
  | error e s₁ => exact id
  | ok stored s₁ =>
    cases stored with
    | none => exact id
    | some work =>
      obtain rfl := storeCompetingBlock_eq_some hstored
      -- the work of the canonical chain is read for every block that was stored
      cases hqueued : queueCompetingBlockPending O config b s with
      | error e s₂ => exact id
      | ok result s₂ =>
        unfold queueCompetingBlockPending at hqueued
        rw [bind_apply_of_ok hstored] at hqueued
        dsimp only at hqueued
        have hbest' : (s.withCandidate O b work).bestHeader = .ok tip := hbest
        rw [readStore_bind_of_ok hbest'] at hqueued
        cases hwork : canonicalWorkThroughNodeStorage (s.withCandidate O b work) tip.number with
        | ok currentWork => exact absurd hwork (canonicalWork_of_missing hk hmissing currentWork)
        | error e =>
          rw [bind_apply_of_error (readStore_apply_of_error hwork)] at hqueued
          exact absurd hqueued (by simp)

/-! ## Before and after pruning -/

/-- The block meets the same outcome in both stores, and what could be published for its branch
still can. -/
structure SameForkChoice (O : Oracle) (config : NodeConfig) (s s' : SledStorage) (block : Block) :
    Prop where
  outcome : queueOutcome O config s' block = queueOutcome O config s block
  publishes : ∀ branch ancestor native evm totals,
    candidateBranchFromStorage O s block = .ok branch →
    (∃ r, s.publishCanonicalSuffix O ancestor branch.suffix native evm totals = .ok r) →
    ∃ r, s'.publishCanonicalSuffix O ancestor branch.suffix native evm totals = .ok r

/-- **Fork choice survives pruning exactly if nothing was pruned**: the disk is below the target,
or the floor is not below the tip. Otherwise no block of another branch is queued any more. -/
theorem prune_keeps_fork_choice_iff (usage : ℕ → U64) (maxBytes : U64) (retain : Bool)
    (manifest : Option GenerationManifest) {tip : BlockHeader} (hbest : s.bestHeader = .ok tip)
    (hbodies : ∀ (k : U64) block, s.blocks[k]? = some block → k.toNat ≤ tip.number.toNat)
    (hcompared : (queueOutcome O config s b).Compared) :
    SameForkChoice O config s (s.pruneOldBlocks usage maxBytes (pruneFloor retain manifest)) b ↔
      (usage 0).toNat ≤ (SledStorage.pruneTarget maxBytes).toNat ∨
        tip.number.toNat ≤ (pruneFloor retain manifest).toNat := by
  generalize pruneFloor retain manifest = floor
  constructor
  · intro hsame
    by_contra hpruned
    push Not at hpruned
    obtain ⟨hused, hfloor⟩ := hpruned
    -- the block was compared with the chain, so the body right above the floor is there
    have hnext : floor + 1 ∈ s.prunableNumbers floor := by
      have hsum : (floor + 1).toNat = floor.toNat + 1 := by
        have := tip.number.isLt
        bv_omega
      refine mem_prunableNumbers.mpr ⟨?_, by omega⟩
      cases hbody : s.blocks[floor + 1]? with
      | some block => exact ⟨block, rfl⟩
      | none => exact absurd hcompared (queueOutcome_of_missing hbest (by omega) hbody)
    obtain ⟨number, rest, hnumbers⟩ := List.exists_cons_of_ne_nil (List.ne_nil_of_mem hnext)
    obtain ⟨⟨block, hblock⟩, -⟩ := mem_prunableNumbers.mp
      (show number ∈ s.prunableNumbers floor by simp [hnumbers])
    have hmissing := missing_pruneOldBlocks hused hnumbers
    have hbest' : (s.pruneOldBlocks usage maxBytes floor).bestHeader = .ok tip :=
      (bestHeader_pruneOldBlocks usage maxBytes floor).trans hbest
    rw [← hsame.outcome] at hcompared
    exact queueOutcome_of_missing hbest' (hbodies number block hblock) hmissing hcompared
  · intro hcondition
    have hself : s.pruneOldBlocks usage maxBytes floor = s := by
      refine pruneOldBlocks_eq_self (hcondition.imp_right fun htip => ?_)
      refine List.eq_nil_iff_forall_not_mem.mpr fun k hk => ?_
      obtain ⟨⟨block, hblock⟩, habove⟩ := mem_prunableNumbers.mp hk
      have hle := hbodies k block hblock
      omega
    rw [hself]
    exact ⟨rfl, fun _ _ _ _ _ _ h => h⟩

/-! ## A chain of two blocks -/

def heldManifest : GenerationManifest where
  generationId := 1
  status := .active
  canonicalHeight := firstBlock.header.number
  canonicalHash := firstBlock.header.hash nonceOracle
  stateRoot := firstBlock.header.stateRoot
  profileFingerprint := ""
  finalizedHeight := finalizedHeight firstBlock.header.number
  replayCheckpoint := some firstBlock.header.number

def prunedAt (used : U64) (s : SledStorage) : SledStorage :=
  s.pruneOldBlocks (fun _ => used) 1000 (pruneFloor true (some heldManifest))

def publishOnGenesis (s : SledStorage) (branch : CandidateBranch) : Except StorageError SledStorage :=
  s.publishCanonicalSuffix nonceOracle (genesisHeader nonceOracle) branch.suffix ∅ ∅ (1, 0, 0)

/-- The node switches to the branch of the harder block, and after pruning it does not. -/
def refusesAfterPruning (s : SledStorage) : Bool :=
  match queueCompetingBlockPending nonceOracle plainConfig fastBlock s,
    queueCompetingBlockPending nonceOracle plainConfig fastBlock (prunedAt 1000 s) with
  | .ok (some branch) _, .error (.storage .notFound) _ =>
    decide (branch.commonHeight = pruneFloor true (some heldManifest)) &&
      (publishOnGenesis s branch).isOk && !(publishOnGenesis (prunedAt 1000 s) branch).isOk
  | _, _ => false

theorem Held.bodies_le (h : Held s) (k : U64) (block : Block) (hblock : s.blocks[k]? = some block) :
    k.toNat ≤ firstBlock.header.number.toNat := by
  rw [← Map.mem_toList_iff, h.blocks] at hblock
  simp only [List.mem_cons, List.not_mem_nil, or_false, Prod.mk.injEq] at hblock
  have hnumber : firstBlock.header.number = 1 := rfl
  rw [hnumber]
  rcases hblock with ⟨rfl, -⟩ | ⟨rfl, -⟩ <;> decide

/-- **A node that has pruned refuses a better branch**: it forks at the finalized height, the node
would switch to it, and after the body of the tip was removed neither its work can be compared nor
can it be published. -/
theorem pruned_node_refuses_branch :
    Reachable nonceOracle noContracts plainConfig heldNode ∧
    ∃ branch s₁ s₂,
      queueCompetingBlockPending nonceOracle plainConfig fastBlock heldNode.storage =
        .ok (some branch) s₁ ∧
      branch.commonHeight = pruneFloor true (some heldManifest) ∧
      queueCompetingBlockPending nonceOracle plainConfig fastBlock
        (prunedAt 1000 heldNode.storage) = .error (.storage .notFound) s₂ ∧
      (publishOnGenesis heldNode.storage branch).isOk = true ∧
      (publishOnGenesis (prunedAt 1000 heldNode.storage) branch).isOk = false := by
  refine ⟨heldNode_reachable, ?_⟩
  have h : refusesAfterPruning heldNode.storage = true := by decide +kernel
  unfold refusesAfterPruning at h
  split at h
  next branch s₁ s₂ hqueued hrefused =>
    simp only [Bool.and_eq_true, decide_eq_true_eq, Bool.not_eq_true'] at h
    exact ⟨branch, s₁, s₂, hqueued, h.1.1, hrefused, h.1.2, h.2⟩
  next => exact absurd h Bool.false_ne_true

/-- With 900 bytes in use the quota is kept, and nothing changes. -/
theorem prune_keeps_fork_choice_heldNode :
    SameForkChoice nonceOracle plainConfig heldNode.storage (prunedAt 900 heldNode.storage)
      fastBlock := by
  have hkept : ∀ s : SledStorage, Held s →
      (queueOutcome nonceOracle plainConfig s fastBlock matches .replaces _ _) = true →
      SameForkChoice nonceOracle plainConfig s (prunedAt 900 s) fastBlock := by
    intro s hheld hreplaces
    refine (prune_keeps_fork_choice_iff (fun _ => 900) 1000 true (some heldManifest)
      hheld.bestHeader hheld.bodies_le ?_).mpr (.inl (by decide))
    cases hcase : queueOutcome nonceOracle plainConfig s fastBlock with
    | replaces work branch => exact trivial
    | _ => simp [hcase] at hreplaces
  obtain ⟨hbest, hheaders, hblocks, hspool, -⟩ := heldNode_storage
  exact hkept _ ⟨hbest, hheaders, hblocks, hspool⟩ (by decide +kernel)

end Blq
