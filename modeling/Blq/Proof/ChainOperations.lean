import Blq.Proof.Manifest

/-!
# The manifest after an operation on the chain

A generation whose manifest passes its check is changed by an operation that reports success: a
block is inserted, a suffix published, the chain rebuilt or rolled back; or a new generation is
recovered from it. The operations refresh the manifest and the publication record, but only a
publication writes the replay checkpoint.

* `verifies_after_iff`: the check passes afterwards exactly if the checkpoint's block is on the chain
  the operation leaves; it never passes on a recovered generation.
* `rollback_below_checkpoint`: a rollback below the checkpoint, and a recovered generation.
-/

namespace Blq

open Word Result

/-- The operations that change or create the canonical chain of a generation. -/
inductive ChainOperation where
  | insertBlock (block : Block)
  | publishSuffix (ancestor : BlockHeader) (replacement : List Block) (native : NativeAccounts)
      (evm : EvmStateSnapshot) (totals : U64 × U128 × U128)
  | rebuildCanonicalChain (replacement previous : List Block)
  | rollbackNode (height : U64)
  | recoverSnapshot (generationId height available reserve : U64)

def outcome (x : DiskM Unit) (g : Generation) : Except NodeError Generation :=
  match x ⟨g, []⟩ with
  | .ok _ d => .ok d.current
  | .error e _ => .error e

namespace ChainOperation

/-- The generation the operation has changed or created. -/
def run (O : Oracle) (R : Revm) (config : NodeConfig) :
    ChainOperation → Generation → Except NodeError Generation
  | insertBlock block => outcome (Generation.insertBlock O R block)
  | publishSuffix ancestor replacement native evm totals =>
    outcome (Generation.publishSuffix O ancestor replacement native evm totals)
  | rebuildCanonicalChain replacement previous =>
    outcome (Generation.rebuildCanonicalChain O R config replacement previous)
  | rollbackNode height => outcome (Generation.rollbackNode O R config height)
  | recoverSnapshot generationId height available reserve => fun g =>
    g.recoverSnapshot O R config generationId height available reserve

def Fits : ChainOperation → Prop
  | rebuildCanonicalChain replacement previous =>
    replacement.length ≤ 2 ^ 64 ∧ previous.length ≤ 2 ^ 64
  | _ => True

end ChainOperation

/-- The chain has the checkpoint's block at its height. -/
def ReplayCheckpoint.OnChain (O : Oracle) (c : ReplayCheckpoint) (chain : List Block) : Prop :=
  ∃ b, chain[c.height.toNat]? = some b ∧ b.header.hash O = c.blockHash ∧
    b.header.stateRoot = c.stateRoot

def Replays (O : Oracle) (R : Revm) (config : NodeConfig) (chain : List Block) : Prop :=
  validateReplacementInIsolation O R config chain = .ok () ∧ ∀ b ∈ chain, Generation.HasReceipts b

/-- **The operation leaves the checkpoint's block where it is.** An inserted block is above it or is
the block itself; the chain that is replayed has it. A recovered generation names a checkpoint that
is not there. -/
def ChainOperation.LeavesCheckpoint (O : Oracle) (R : Revm) (config : NodeConfig)
    (g : Generation) : ChainOperation → Prop
  | insertBlock block => ∀ c, g.checkpoint = some c →
    c.height.toNat < block.header.number.toNat ∨ c.height = block.header.number ∧
      block.header.hash O = c.blockHash ∧ block.header.stateRoot = c.stateRoot
  | publishSuffix _ _ _ _ _ => True
  | rebuildCanonicalChain replacement previous => ∀ c, g.checkpoint = some c →
    (Replays O R config replacement → c.OnChain O replacement) ∧
      (¬Replays O R config replacement → c.OnChain O previous)
  | rollbackNode height => ∀ c, g.checkpoint = some c →
    c.OnChain O (rollbackReplacement g.store height)
  | recoverSnapshot _ _ _ _ => False

namespace Generation

variable {O : Oracle} {R : Revm} {config : NodeConfig} {g : Generation} {d : Durable Generation}
  {chain : List Block}

theorem outcome_eq_ok {x : DiskM Unit} {g' : Generation} (h : outcome x g = .ok g') :
    ∃ d, x ⟨g, []⟩ = .ok () d ∧ d.current = g' := by
  unfold outcome at h
  split at h
  · next d hrun => exact ⟨d, hrun, Except.ok.inj h⟩
  · cases h

/-! ## Insertion -/

theorem leavesCheckpoint_iff {m : GenerationManifest} {best : BlockHeader}
    (hm : VerifiedBy O g m best) {block : Block} {s : SledStorage}
    (hheaders : s.headers = g.store.headers.insert block.header.number block.header) :
    (∀ c, g.checkpoint = some c → c.height.toNat ≤ block.header.number.toNat ∧
      CheckpointStored O s c) ↔
      (ChainOperation.insertBlock block).LeavesCheckpoint O R config g := by
  refine forall₂_congr fun c hc => ?_
  obtain ⟨-, header, hheader, hhash, hroot⟩ := hm.stored c hc
  unfold CheckpointStored
  rw [hheaders]
  by_cases hheight : block.header.number = c.height
  · simp only [Map.getElem?_insert_eq, hheight, if_true, Option.some.injEq, exists_eq_left', le_refl,
      lt_irrefl, true_and, false_or]
  · have hne : block.header.number.toNat ≠ c.height.toNat := fun h => hheight (BitVec.eq_of_toNat_eq h)
    simp only [Map.getElem?_insert_eq, if_neg hheight, hheader, Option.some.injEq, exists_eq_left',
      hhash, hroot, and_self, and_true, Ne.symm hheight, false_and, or_false]
    omega

theorem verifies_insertBlock_iff (hverified : Verifies O g) {block : Block}
    (hrun : insertBlock O R block ⟨g, []⟩ = .ok () d) :
    Verifies O d.current ↔ (ChainOperation.insertBlock block).LeavesCheckpoint O R config g := by
  obtain ⟨-, hinsert, htip, hfiles⟩ := insertBlock_ok hrun
  have hheaders : (database d).headers = g.store.headers.insert block.header.number block.header :=
    congrArg ChainView.headers (insertBlock_view hinsert)
  obtain ⟨m, best, hm⟩ := verifies_iff.mp hverified
  rw [verifies_withTip_iff hverified hfiles htip]
  exact leavesCheckpoint_iff hm hheaders

/-! ## Publication -/

theorem verifies_publishSuffix {ancestor : BlockHeader} {replacement : List Block}
    {native : NativeAccounts} {evm : EvmStateSnapshot} {totals : U64 × U128 × U128}
    (hrun : publishSuffix O ancestor replacement native evm totals ⟨g, []⟩ = .ok () d) :
    Verifies O d.current := by
  unfold publishSuffix at hrun
  rw [onDisk_bind_apply] at hrun
  cases hm : g.manifest with
  | none =>
    simp only [hm] at hrun
    cases hrun
  | some m =>
    simp only [hm] at hrun
    cases hlast : replacement.getLast? with
    | none =>
      simp only [hlast] at hrun
      cases hrun
    | some tip =>
      simp only [hlast] at hrun
      rcases publish_cases O ancestor replacement native evm totals _ ⟨g, []⟩ with
        ⟨e, herr⟩ | ⟨previous, -, hcheck, ⟨e, herr⟩ | ⟨batch, hbatch, hok⟩⟩
      · rw [herr] at hrun
        cases hrun
      · rw [herr] at hrun
        cases hrun
      · rw [hok] at hrun
        obtain ⟨-, rfl⟩ := EStateM.Result.ok.inj hrun
        obtain ⟨tip', hlast', hdescribes, hcheckpoint⟩ := checkSuffix_eq_ok hcheck
        obtain ⟨hstore, -⟩ := suffixBatch_eq_ok hbatch
        refine verifies_finished (bestHeader_of_publish hlast' hstore)
          (headers_of_publish hlast' hstore) hdescribes hcheckpoint ?_
        rintro (h | h | h) <;> cases h

/-! ## Replays -/

/-- **After a replay the check depends on whether the checkpoint's block was replayed.** -/
theorem verifies_replayed_iff (hverified : Verifies O g) (hlen : chain.length ≤ 2 ^ 64)
    {d' : Durable Generation} (hrefreshed : RefreshedFrom O g d.current)
    (hempty : Stored O (database d) []) (hrun : replayCanonicalChain O R config chain d = .ok () d') :
    Verifies O d'.current ↔ ∀ c, g.checkpoint = some c → c.OnChain O chain := by
  obtain ⟨-, hstore, last, hlast, hfiles⟩ := replay_ok hrun
  obtain ⟨hstored, -⟩ := stored_of_replay hempty hlen hstore
  rw [verifies_withTip_iff hverified (hfiles.trans (hrefreshed.withTip _)) (hstored.bestHeader hlast)]
  refine forall₂_congr fun c _ => ?_
  unfold CheckpointStored ReplayCheckpoint.OnChain
  rw [show d'.current.store.headers[c.height]? = _ from hstored.headers c.height]
  constructor
  · rintro ⟨-, header, hheader, hmatch⟩
    obtain ⟨b, hb, rfl⟩ := Option.map_eq_some_iff.mp hheader
    exact ⟨b, hb, hmatch⟩
  · rintro ⟨b, hb, hmatch⟩
    have hlast := hstored.last_number hlast
    obtain ⟨hindex, -⟩ := List.getElem?_eq_some_iff.mp hb
    exact ⟨by omega, b.header, by rw [hb]; rfl, hmatch⟩

theorem replays_of_replay (hlen : chain.length ≤ 2 ^ 64) {past : List Generation}
    {d' : Durable Generation} {s : SledStorage} (hclear : g.store = s.clearCanonicalState)
    (hrun : replayCanonicalChain O R config chain ⟨g, past⟩ = .ok () d') :
    Replays O R config chain := by
  obtain ⟨hreceipts, hstore, -⟩ := replay_ok hrun
  refine ⟨?_, hreceipts⟩
  by_contra hinvalid
  obtain ⟨e, s', herr, -⟩ := replay_clear_error hlen hinvalid s
  change Blq.replayCanonicalChain O R config chain g.store = _ at hstore
  rw [hclear, herr] at hstore
  cases hstore

theorem exists_replay_of_replays (hlen : chain.length ≤ 2 ^ 64) (h : Replays O R config chain)
    (g : Generation) (past : List Generation) {s : SledStorage}
    (hclear : g.store = s.clearCanonicalState) :
    ∃ d', replayCanonicalChain O R config chain ⟨g, past⟩ = .ok () d' := by
  obtain ⟨s', hs', -⟩ := replay_clear_of_isolation hlen h.1 s
  exact exists_replay_ok h.2 (d := ⟨g, past⟩) (by rw [show database ⟨g, past⟩ = _ from hclear, hs'])

def cleared (g : Generation) : Generation :=
  { g with store := g.store.clearCanonicalState, transactions := ∅, receipts := ∅ }

theorem verifies_rebuild_iff (hverified : Verifies O g) {replacement previous : List Block}
    (hlen : replacement.length ≤ 2 ^ 64) (hlen' : previous.length ≤ 2 ^ 64)
    (hrun : rebuildCanonicalChain O R config replacement previous ⟨g, []⟩ = .ok () d) :
    Verifies O d.current ↔
      (ChainOperation.rebuildCanonicalChain replacement previous).LeavesCheckpoint O R config g := by
  change (attempt (replayCanonicalChain O R config replacement) >>= _) ⟨cleared g, [g]⟩ = _ at hrun
  have hfirst : RefreshedFrom O g (cleared g) := .inl rfl
  cases hreplay : replayCanonicalChain O R config replacement ⟨cleared g, [g]⟩ with
  | ok u d₁ =>
    rw [attempt_bind_of_ok hreplay] at hrun
    change (.ok () d₁ : EStateM.Result NodeError (Durable Generation) Unit) = .ok () d at hrun
    obtain ⟨-, rfl⟩ := EStateM.Result.ok.inj hrun
    have hreplays := replays_of_replay hlen rfl hreplay
    rw [verifies_replayed_iff hverified hlen hfirst (stored_clear _) hreplay]
    refine forall₂_congr fun c _ => ?_
    exact ⟨fun h => ⟨fun _ => h, fun hnot => absurd hreplays hnot⟩, fun h => h.1 hreplays⟩
  | error e d₁ =>
    have hnot : ¬Replays O R config replacement := by
      intro hreplays
      obtain ⟨d', hok⟩ := exists_replay_of_replays hlen hreplays (cleared g) [g] rfl
      rw [hreplay] at hok
      cases hok
    have hfiles : RefreshedFrom O g (cleared d₁.current) :=
      ((keeps_replayCanonicalChain hfirst replacement).of_error hreplay).congr rfl
    rw [attempt_bind_of_error hreplay] at hrun
    change (attempt (replayCanonicalChain O R config previous) >>= _)
      ⟨cleared d₁.current, d₁.past ++ [d₁.current]⟩ = _ at hrun
    cases hreplay' : replayCanonicalChain O R config previous
        ⟨cleared d₁.current, d₁.past ++ [d₁.current]⟩ with
    | error e' d₂ =>
      rw [attempt_bind_of_error hreplay'] at hrun
      cases hrun
    | ok u d₂ =>
      rw [attempt_bind_of_ok hreplay'] at hrun
      change (.ok () d₂ : EStateM.Result NodeError (Durable Generation) Unit) = .ok () d at hrun
      obtain ⟨-, rfl⟩ := EStateM.Result.ok.inj hrun
      rw [verifies_replayed_iff (d := ⟨cleared d₁.current, d₁.past ++ [d₁.current]⟩) hverified hlen'
        hfiles (stored_clear _) hreplay']
      refine forall₂_congr fun c _ => ?_
      exact ⟨fun h => ⟨fun hreplays => absurd hreplays hnot, fun _ => h⟩, fun h => h.2 hnot⟩

theorem verifies_rollback_iff (hverified : Verifies O g) {height : U64}
    (hrun : rollbackNode O R config height ⟨g, []⟩ = .ok () d) :
    Verifies O d.current ↔ (ChainOperation.rollbackNode height).LeavesCheckpoint O R config g := by
  unfold rollbackNode at hrun
  rw [onDisk_bind_apply] at hrun
  cases hlast : g.store.canonicalBlocks.getLast? with
  | none =>
    simp only [hlast] at hrun
    cases hrun
  | some current =>
    simp only [hlast] at hrun
    by_cases hheight : height.toNat ≥ current.header.number.toNat
    · rw [if_pos hheight] at hrun
      cases hrun
    · rw [if_neg hheight] at hrun
      by_cases hempty : (rollbackReplacement g.store height).isEmpty = true
      · rw [if_pos hempty] at hrun
        cases hrun
      · rw [if_neg hempty] at hrun
        have hlen : (rollbackReplacement g.store height).length ≤ 2 ^ 64 := by
          rw [rollbackReplacement, List.length_take]
          exact (Nat.min_le_right _ _).trans (length_canonicalBlocks_le g.store)
        change (attempt (replayCanonicalChain O R config _) >>= _) ⟨cleared g, [g]⟩ = _ at hrun
        cases hreplay : replayCanonicalChain O R config (rollbackReplacement g.store height)
            ⟨cleared g, [g]⟩ with
        | error e d₁ =>
          rw [attempt_bind_of_error hreplay] at hrun
          cases hrun
        | ok u d₁ =>
          rw [attempt_bind_of_ok hreplay] at hrun
          change (.ok () d₁ : EStateM.Result NodeError (Durable Generation) Unit) = .ok () d at hrun
          obtain ⟨-, rfl⟩ := EStateM.Result.ok.inj hrun
          exact verifies_replayed_iff hverified hlen (.inl rfl) (stored_clear _) hreplay

/-! ## A recovered generation -/

/-- A recovered generation names a checkpoint that it does not have. -/
theorem not_verifies_recovered {active g' : Generation} {generationId height available reserve : U64}
    (h : active.recoverSnapshot O R config generationId height available reserve = .ok g') :
    ¬Verifies O g' := by
  unfold recoverSnapshot at h
  cases htarget : active.store.canonicalBlocks[height.toNat]? with
  | none =>
    simp only [htarget] at h
    cases h
  | some target =>
    simp only [htarget, throw_bind, ite_throw_eq_ok] at h
    obtain ⟨-, h⟩ := h
    split at h
    · next d hrun =>
      obtain rfl := pure_eq_ok.mp h
      -- the new directory has no file before the manifest is written
      have hreplay : Keeps (fun d => RefreshedFrom O {} d.current)
          (replayCanonicalChain O R config (active.store.canonicalBlocks.take (height.toNat + 1)))
          ⟨{}, []⟩ fun _ _ => True := keeps_replayCanonicalChain (.inl rfl) _
      unfold recoverInto at hrun
      obtain ⟨_, d₁, hopen, hrun₁⟩ := run_bind_eq_ok.mp hrun
      change (.ok () ⟨{}, []⟩ : EStateM.Result NodeError (Durable Generation) Unit) = .ok () d₁ at hopen
      obtain ⟨-, rfl⟩ := EStateM.Result.ok.inj hopen
      obtain ⟨_, d₂, hchain, hrun₂⟩ := run_bind_eq_ok.mp hrun₁
      have hfiles : d₂.current.files = ({} : Generation).files := by
        rcases (hreplay.of_ok hchain).1 with hsame | ⟨tip, htip⟩
        · exact hsame
        · exact htip
      have hcheckpoint : d₂.current.checkpoint = none := congrArg (fun fs : Files => fs.2.2.1) hfiles
      obtain ⟨best, d₃, hbest, hrun₃⟩ := run_bind_eq_ok.mp hrun₂
      obtain ⟨-, rfl⟩ := readDatabase_eq_ok hbest
      obtain ⟨-, hrun₄⟩ := run_ite_throw_eq_ok.mp hrun₃
      obtain ⟨block, d₄, hblock, hrun₅⟩ := run_bind_eq_ok.mp hrun₄
      obtain ⟨-, rfl⟩ := readDatabase_eq_ok hblock
      obtain ⟨-, hrun₆⟩ := run_ite_throw_eq_ok.mp hrun₅
      obtain ⟨-, rfl⟩ := EStateM.Result.ok.inj hrun₆
      intro hverifies
      obtain ⟨m, tip, hm⟩ := verifies_iff.mp hverifies
      have hmanifest := Option.some.inj hm.manifest
      have hnamed := hm.named
      unfold CheckpointNamed at hnamed
      rw [← hmanifest] at hnamed
      dsimp only at hnamed
      rw [hcheckpoint] at hnamed
      cases hnamed
    · exact absurd h throw_ne_ok

/-! ## Every operation -/

/-- **The check passes after an operation exactly if the checkpoint's block is on the chain it
leaves.** -/
theorem verifies_after_iff (O : Oracle) (R : Revm) (config : NodeConfig) (op : ChainOperation)
    (hfits : op.Fits) (g g' : Generation) (hverified : Verifies O g)
    (hrun : op.run O R config g = .ok g') :
    Verifies O g' ↔ op.LeavesCheckpoint O R config g := by
  cases op with
  | insertBlock block =>
    obtain ⟨d, hd, rfl⟩ := outcome_eq_ok hrun
    exact verifies_insertBlock_iff hverified hd
  | publishSuffix ancestor replacement native evm totals =>
    obtain ⟨d, hd, rfl⟩ := outcome_eq_ok hrun
    exact ⟨fun _ => trivial, fun _ => verifies_publishSuffix hd⟩
  | rebuildCanonicalChain replacement previous =>
    obtain ⟨d, hd, rfl⟩ := outcome_eq_ok hrun
    exact verifies_rebuild_iff hverified hfits.1 hfits.2 hd
  | rollbackNode height =>
    obtain ⟨d, hd, rfl⟩ := outcome_eq_ok hrun
    exact verifies_rollback_iff hverified hd
  | recoverSnapshot generationId height available reserve =>
    exact ⟨fun h => not_verifies_recovered hrun h, fun h => h.elim⟩

/-! ## A generation with its checkpoint at the tip -/

def tipManifest : GenerationManifest where
  generationId := 1
  status := .active
  canonicalHeight := secondBlock.header.number
  canonicalHash := secondBlock.header.hash nonceOracle
  stateRoot := secondBlock.header.stateRoot
  profileFingerprint := ""
  finalizedHeight := 0
  replayCheckpoint := some secondBlock.header.number

def thirdBlock : Block := childOf secondBlock.header 4

def publishedChain : Generation := finished nonceOracle { store := chainStore } tipManifest

theorem verifies_publishedChain : Verifies nonceOracle publishedChain := by
  have hfinished : ∀ s : SledStorage, s.bestHeader = .ok secondBlock.header →
      s.headers[secondBlock.header.number]? = some secondBlock.header →
      Verifies nonceOracle (finished nonceOracle { store := s } tipManifest) := by
    intro s htip hstored
    exact verifies_finished htip hstored ⟨rfl, rfl, rfl⟩ rfl (by decide)
  exact hfinished chainStore (by decide +kernel) (by decide +kernel)

def verifiesAfter (op : ChainOperation) (g : Generation) : Option Bool :=
  match op.run nonceOracle noContracts plainConfig g with
  | .error _ => none
  | .ok g' =>
    match verifyGenerationManifest nonceOracle ⟨g', []⟩ with
    | .ok _ _ => some true
    | .error _ _ => some false

theorem of_verifiesAfter {op : ChainOperation} (h : verifiesAfter op g = some false) :
    ∃ g', op.run nonceOracle noContracts plainConfig g = .ok g' ∧ ¬Verifies nonceOracle g' := by
  unfold verifiesAfter at h
  split at h
  · cases h
  · next g' hrun =>
    refine ⟨g', hrun, ?_⟩
    rintro ⟨m, d, hok⟩
    rw [hok] at h
    cases h

/-- **A rollback below the checkpoint and a recovered generation fail the check**, though both report
success. -/
theorem rollback_below_checkpoint : Verifies nonceOracle publishedChain ∧
    (∃ g', (ChainOperation.rollbackNode 1).run nonceOracle noContracts plainConfig publishedChain =
      .ok g' ∧ ¬Verifies nonceOracle g') ∧
    ∃ g', (ChainOperation.recoverSnapshot 2 1 (maxValue 64) 0).run nonceOracle noContracts
      plainConfig publishedChain = .ok g' ∧ ¬Verifies nonceOracle g' := by
  refine ⟨verifies_publishedChain, of_verifiesAfter ?_, of_verifiesAfter ?_⟩
  · decide +kernel
  · decide +kernel

theorem verifies_after_rollback : ∃ g',
    (ChainOperation.rollbackNode 1).run nonceOracle noContracts plainConfig publishedChain = .ok g' ∧
      (Verifies nonceOracle g' ↔ (ChainOperation.rollbackNode 1).LeavesCheckpoint nonceOracle
        noContracts plainConfig publishedChain) := by
  obtain ⟨g', hrun, -⟩ := of_verifiesAfter (show verifiesAfter (.rollbackNode 1) publishedChain =
    some false by decide +kernel)
  exact ⟨g', hrun, verifies_after_iff nonceOracle noContracts plainConfig (.rollbackNode 1) trivial
    publishedChain g' verifies_publishedChain hrun⟩

end Generation

end Blq
