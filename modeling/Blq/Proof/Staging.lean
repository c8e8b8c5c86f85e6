import Blq.Proof.ChainLinks
import Blq.Proof.Pruning
import Blq.Spec.Staging

/-!
# Publication between other threads

The replay of a branch runs without the storage lock. What happens meanwhile cannot be seen from
the store that was captured, so the publication compares again under the lock, and since a chain
is determined by its tip, comparing the tip is enough: a tip that has changed and changed back
stands on the chain it stood on before.

* `ChainLinked.afterSection`: no section of any thread breaks the links of the chain.
* `captured_of_run`: what the staging thread captured is what it compares with.
* `run_of_replayCandidate`: the replay under one lock is the run in which no other thread moves.
* `published_onto_captured_tip`: where a branch is published, over every interleaving.
-/

namespace Blq

open Word Result Relation

variable {O : Oracle} {R : Revm} {config : NodeConfig} {branch : CandidateBranch}

/-! ## The other threads keep the chain linked -/

section Sections

variable {s s' : SledStorage}

theorem ChainLinked.pruneOldBlocks (h : ChainLinked O s) (usage : ℕ → U64)
    (maxBytes minimumBodyHeight : U64) :
    ChainLinked O (s.pruneOldBlocks usage maxBytes minimumBodyHeight) := by
  obtain ⟨hheaders, hbest⟩ := chain_pruneBodies (s := s) usage (SledStorage.pruneTarget maxBytes)
    (s.prunableNumbers minimumBodyHeight) 0
  refine ⟨pruneBodies_rec (P := fun s => Numbered s.blocks s.headers)
    (fun _ number hs => hs.eraseBlock number) _ 0 h.numbered, fun n hn => ?_⟩
  have hthrough := h.through n (hbest.symm.trans hn)
  rw [← hheaders] at hthrough
  exact hthrough

theorem keeps_extendTip {H : Host} {block : Block} (h : ChainLinked O s) :
    Keeps (ChainLinked O) (extendTip O R config H block) s fun _ _ => True := by
  unfold extendTip
  refine keeps_readStore_bind h fun parent hparent => ?_
  refine keeps_ite (fun hext => ?_) fun _ => keeps_pure h trivial
  refine keeps_get_bind (keeps_runExcept_bind h fun _ _ => keeps_runExcept_bind h fun _ _ => ?_)
  exact (keeps_insertBlock chainInvariant_chainLinked.toDrainInvariant h trivial
    (.inr ⟨parent, hparent, hext⟩)).trivial

/-- **No section of any thread breaks the links.** -/
theorem ChainLinked.afterSection (h : ChainLinked O s) (step : LockSection) :
    ChainLinked O (step.after O R config s) := by
  have hI : ChainInvariant O (fun _ => True) (ChainLinked O) := chainInvariant_chainLinked
  suffices hkeeps : Keeps (ChainLinked O) (step.run O R config) s fun _ _ => True from hkeeps.final
  cases step with
  | extension H block => exact keeps_extendTip h
  | orphan block =>
    refine keeps_writeStore h fun s' hs' => ⟨hI.storeOrphan s s' block h trivial hs', trivial⟩
  | queue block =>
    refine (keeps_queueCompetingBlockPending hI.toDrainInvariant h fun _ => trivial).bind fun _ s' h' _ => ?_
    exact keeps_pure h' trivial
  | promotion block =>
    refine (keeps_queueCompetingBlock hI.toDrainInvariant h fun _ => trivial).bind fun _ s' h' _ => ?_
    exact keeps_pure h' trivial
  | drain => exact keeps_drainPasses hI.toDrainInvariant _ h
  | directExtension branch =>
    refine (keeps_commitDirectCandidateExtension hI h fun _ _ _ => trivial).bind
      fun _ s' h' _ => ?_
    exact keeps_pure h' trivial
  | recoveryBatch H blocks => exact keeps_importDirectRecoveryBatches hI 0 h fun _ _ => trivial
  | publication H branch replayed => exact keeps_publishCandidate hI h fun _ _ => trivial
  | clearCandidates => exact keeps_modify (hI.clearCandidates s h) trivial
  | quarantine hash reason => exact keeps_modify (hI.quarantine s hash reason h) trivial
  | spool bodies => exact keeps_modify (h.congr rfl rfl rfl) trivial
  | prune usage maxBytes floor =>
    exact keeps_modify (h.pruneOldBlocks usage maxBytes floor) trivial

theorem ChainLinked.sections (h : ChainLinked O s) (hrun : ReflTransGen (SectionStep O R config) s s') :
    ChainLinked O s' := by
  induction hrun with
  | refl => exact h
  | tail _ hstep ih =>
    obtain ⟨step, rfl⟩ := hstep
    exact ih.afterSection step

theorem chainLinked_genesis {genesis : BlockHeader} (hnumber : genesis.number = 0)
    (hstart : initializeGenesisForConfig O R genesis {} = .ok () s) : ChainLinked O s := by
  have hempty : ChainLinked O {} := ⟨⟨by simp, by simp⟩, by rintro n ⟨⟩⟩
  exact chainInvariant_chainLinked.view _ _ (hempty.insertBlock (.inl ⟨rfl, hnumber⟩))
    (chainView_of_insertBlock hstart)

end Sections

/-! ## The staging thread -/

section Staging

variable {H : Host} {captured : CapturedReplay} {phase phase' : StagingPhase} {s s' : SledStorage}

/-- The thread still has what it captured. -/
def StagingPhase.Carries (branch : CandidateBranch) (captured : CapturedReplay) :
    StagingPhase → Prop
  | .replaying captured' _ _ => captured' = captured
  | .replayed result => result.ancestor = captured.publicationAncestor ∧
      result.activeTip = captured.activeTip ∧
      branch.suffix.getLast?.map Block.header = some result.tip

variable {overlay : ExecutionReplayOverlay} {result : ReplayedBranch}

/-- **One step of any thread**: the links of the chain stay, and so does what was captured. -/
theorem StagingStep.keeps (hstep : StagingStep O R config branch (s, phase) (s', phase'))
    (h : ChainLinked O s) (hcarries : phase.Carries branch captured) :
    ChainLinked O s' ∧ phase'.Carries branch captured := by
  cases hstep with
  | other _ _ step => exact ⟨h.afterSection step, hcarries⟩
  | body => exact ⟨h, hcarries⟩
  | finish _ _ _ _ _ hfinish =>
    obtain rfl : _ = captured := hcarries
    exact ⟨h, finishReplay_eq_ok hfinish⟩

/-- **Any number of them.** -/
theorem captured_of_run
    (hrun : ReflTransGen (StagingStep O R config branch) (s, phase) (s', phase'))
    (h : ChainLinked O s) (hcarries : phase.Carries branch captured) :
    ChainLinked O s' ∧ phase'.Carries branch captured := by
  generalize hend : (s', phase') = last at hrun
  induction hrun generalizing s' phase' with
  | refl =>
    obtain ⟨rfl, rfl⟩ := Prod.mk.inj hend
    exact ⟨h, hcarries⟩
  | @tail middle _ _ hstep ih =>
    subst hend
    obtain ⟨hlinked, hphase⟩ := ih rfl
    exact hstep.keeps hlinked hphase

theorem carries_of_beginReplay (h : beginReplay O branch captured = .ok phase) :
    phase.Carries branch captured := by
  obtain ⟨overlay, -, hphase⟩ := bind_eq_ok.mp h
  obtain rfl := pure_eq_ok.mp hphase
  rfl

/-! ## The publication -/

/-- The last block of the branch outranks the tip of the database, by the works of the headers. -/
def BranchOutranks (O : Oracle) (branch : CandidateBranch) (s : SledStorage) (tip : BlockHeader) :
    Prop :=
  ∃ ancestorWork currentWork last,
    canonicalWorkThroughStorage s branch.commonHeight = .ok ancestorWork ∧
    canonicalWorkThroughStorage s tip.number = .ok currentWork ∧
    branch.suffix.getLast? = some last ∧
    Tip.Outranks ⟨branch.suffix.foldl (fun work block => addWork work block.header) ancestorWork,
      last.header.number, last.header.hash O⟩ ⟨currentWork, tip.number, tip.hash O⟩

theorem publishCandidate_eq_ok (hlast : branch.suffix.getLast?.map Block.header = some result.tip)
    (h : publishCandidate O H branch result s = .ok () s') :
    s.bestHeader = .ok result.activeTip ∧ BranchOutranks O branch s result.activeTip ∧
      ∃ stored, s.headers[result.ancestor.number]? = some stored ∧
        stored.hash O = result.ancestor.hash O := by
  obtain ⟨last, hget, hheader⟩ := Option.map_eq_some_iff.mp hlast
  have hkeeps : Keeps (fun _ => True) (publishCandidate O H branch result) s fun _ _ =>
      s.bestHeader = .ok result.activeTip ∧ BranchOutranks O branch s result.activeTip ∧
        ∃ stored, s.headers[result.ancestor.number]? = some stored ∧
          stored.hash O = result.ancestor.hash O := by
    unfold publishCandidate
    refine keeps_readStore_bind trivial fun current hcurrent => ?_
    refine keeps_ite_throw trivial fun hsame => ?_
    obtain rfl : current = result.activeTip := not_not.mp hsame
    refine keeps_readStore_bind trivial fun ancestorWork hancestor => ?_
    refine keeps_readStore_bind trivial fun currentWork hwork => ?_
    refine keeps_ite_throw trivial fun hreplaces => ?_
    refine keeps_ite_throw trivial fun _ => ?_
    have houtranks : BranchOutranks O branch s result.activeTip := by
      refine ⟨ancestorWork, currentWork, last, hancestor, hwork, hget, ?_⟩
      rw [hheader]
      exact publicationReplaces_iff.mp (by simpa using hreplaces)
    -- the supply totals change no header, so the batch checks the ancestor in the same chain
    refine (((keeps_suffixSupplyTotals _ _ _).mono fun _ _ hview _ => hview).imp
      fun _ _ => trivial).bind fun totals s₁ _ hview => ?_
    refine (keeps_writeStore (Q := fun _ _ => ∃ stored, s.headers[result.ancestor.number]? =
      some stored ∧ stored.hash O = result.ancestor.hash O) trivial fun s₂ hs₂ => ?_).bind
      fun _ s₂ _ hstored => keeps_modify trivial ⟨hcurrent, houtranks, hstored⟩
    obtain ⟨_, _, _, hpublished⟩ := publishCanonicalSuffix_eq_ok hs₂
    obtain ⟨stored, hstored, hhash⟩ := hpublished.stored
    have hheaders : s₁.headers = s.headers := congrArg ChainView.headers hview
    exact ⟨trivial, stored, hheaders ▸ headerByNumber_eq_ok.mp hstored, hhash⟩
  exact (hkeeps.of_ok h).2

theorem tip_of_commitDirect (h : commitDirectCandidateExtension O R config branch s = .ok true s') :
    ∃ tip, s.bestHeader = .ok tip ∧ tip.number = branch.commonHeight ∧
      tip.hash O = branch.commonHash := by
  unfold commitDirectCandidateExtension at h
  split at h
  next => exact absurd h (by rintro ⟨⟩)
  next =>
    rw [get_bind_apply] at h
    cases hbest : s.bestHeader with
    | error e =>
      rw [bind_apply_of_error (readStore_apply_of_error hbest)] at h
      exact absurd h (by rintro ⟨⟩)
    | ok tip =>
      rw [readStore_bind_of_ok hbest] at h
      split at h
      next => exact absurd h (by rintro ⟨⟩)
      next hsame =>
        push Not at hsame
        exact ⟨tip, rfl, hsame.1, hsame.2⟩

/-- **Where a branch is published**: `captured` is the database when the thread took its context, `s`
the one it publishes on. -/
structure PublishedOnto (O : Oracle) (branch : CandidateBranch) (captured s : SledStorage)
    (tip : BlockHeader) : Prop where
  /-- the tip is the captured one -/
  best : s.bestHeader = .ok tip
  capturedBest : captured.bestHeader = .ok tip
  /-- the ancestor is still on the chain -/
  ancestor : ∃ stored, s.headers[branch.commonHeight]? = some stored ∧
    stored.hash O = branch.commonHash
  /-- the branch starts at the tip, and nothing is replaced, or it outranks the tip -/
  outranks : tip.number = branch.commonHeight ∧ tip.hash O = branch.commonHash ∨
    BranchOutranks O branch s tip
  /-- the chain is the captured one, so no block of it was committed in between -/
  kept : (∀ k : U64, k.toNat ≤ tip.number.toNat → s.headers[k]? = captured.headers[k]?) ∨
    HeadersCollide O captured s ∨ tip.number = BitVec.allOnes 64

theorem publishedOnto_of_staged {H' : Host} {before : SledStorage} (hbefore : ChainLinked O before)
    (hcapture : captureReplay O H before branch = .ok captured)
    (hbegin : beginReplay O branch captured = .ok phase)
    (hrun : ReflTransGen (StagingStep O R config branch) (before, phase) (s, .replayed result))
    (hpublish : publishCandidate O H' branch result s = .ok () s') :
    PublishedOnto O branch before s captured.activeTip := by
  obtain ⟨hstored, hhash, -, -, -, hbest⟩ := captures_of_captureReplay hcapture
  obtain ⟨hlinked, hancestor, htip, hlast⟩ :=
    captured_of_run hrun hbefore (carries_of_beginReplay hbegin)
  obtain ⟨hbest', houtranks, stored, hget, hsame⟩ := publishCandidate_eq_ok hlast hpublish
  have hnumber : captured.publicationAncestor.number = branch.commonHeight :=
    hbefore.numbered.header _ _ (headerByNumber_eq_ok.mp hstored)
  rw [htip] at hbest' houtranks
  rw [hancestor, hnumber] at hget
  rw [hancestor, hhash] at hsame
  refine ⟨hbest', hbest, ⟨stored, hget, hsame⟩, .inr houtranks, ?_⟩
  -- the same tip on two linked chains
  by_cases hcollide : HeadersCollide O before s
  · exact .inr (.inl hcollide)
  by_cases hheight : captured.activeTip.number.toNat + 1 < 2 ^ 64
  · exact .inl fun k hk => headers_eq_of_tip hbefore hlinked hbest hbest' hheight hcollide k hk
  · refine .inr (.inr (BitVec.eq_of_toNat_eq ?_))
    have hbound := captured.activeTip.number.isLt
    rw [BitVec.toNat_allOnes]
    omega

/-- **A branch is published only onto the chain that was captured, and only if it outranks its tip.**
The node starts from a genesis block; before the capture, and between any two steps of the staging
thread, other threads have the lock as often as they like. -/
theorem published_onto_captured_tip {genesis : BlockHeader} {start before s s' : SledStorage}
    (hnumber : genesis.number = 0)
    (hstart : initializeGenesisForConfig O R genesis {} = .ok () start)
    (hothers : ReflTransGen (SectionStep O R config) start before)
    (hpublished : Published O R config branch before s s') :
    ∃ tip, PublishedOnto O branch before s tip := by
  have hbefore : ChainLinked O before := (chainLinked_genesis hnumber hstart).sections hothers
  cases hpublished with
  | direct _ _ hdirect =>
    obtain ⟨tip, hbest, hheight, hhash⟩ := tip_of_commitDirect hdirect
    have hstored := (hbefore.tip hbest).2
    rw [hheight] at hstored
    exact ⟨tip, hbest, hbest, ⟨tip, hstored, hhash⟩, .inl ⟨hheight, hhash⟩, .inl fun _ _ => rfl⟩
  | staged H H' captured phase result _ _ _ hcapture hbegin hrun hpublish =>
    exact ⟨_, publishedOnto_of_staged hbefore hcapture hbegin hrun hpublish⟩

/-! ## The replay under one lock -/

theorem run_of_bodies {heights : List U64} {overlay' : ExecutionReplayOverlay}
    (h : heights.foldlM (replayBody O R config H s captured) overlay = .ok overlay') :
    ReflTransGen (StagingStep O R config branch) (s, .replaying captured overlay heights)
      (s, .replaying captured overlay' []) := by
  induction heights generalizing overlay with
  | nil =>
    obtain rfl := pure_eq_ok.mp h
    exact .refl
  | cons number rest ih =>
    rw [List.foldlM_cons, bind_eq_ok] at h
    obtain ⟨next, hnext, hrest⟩ := h
    exact .head (.body s H captured overlay next number rest hnext) (ih hrest)

/-- **`replayCandidate` is the run in which no other thread has the lock.** -/
theorem run_of_replayCandidate (h : replayCandidate O R config H s branch = .ok result) :
    ∃ captured phase, captureReplay O H s branch = .ok captured ∧
      beginReplay O branch captured = .ok phase ∧
      ReflTransGen (StagingStep O R config branch) (s, phase) (s, .replayed result) := by
  simp only [replayCandidate, bind_eq_ok] at h
  obtain ⟨captured, hcapture, first, hfirst, overlay, hbodies, hfinish⟩ := h
  refine ⟨captured, _, hcapture, ?_, (run_of_bodies hbodies).tail (.finish s H _ _ _ hfinish)⟩
  simp only [beginReplay, bind_eq_ok, pure_eq_ok]
  exact ⟨first, hfirst, rfl⟩

end Staging

/-! ## A run with another thread in between -/

def forkedStore : SledStorage :=
  (LockSection.extension snapshotHost firstBlock).after nonceOracle noContracts plainConfig
    startNode.storage

def forkedStoreLater : SledStorage :=
  (LockSection.orphan wrongSecondBlock).after nonceOracle noContracts plainConfig forkedStore

def fastBranch : CandidateBranch := ⟨0, 0, [fastBlock]⟩

def publishesLater (branch : CandidateBranch) (before s : SledStorage) : Bool :=
  match replayCandidate nonceOracle noContracts plainConfig snapshotHost before branch with
  | .ok result => (publishCandidate nonceOracle snapshotHost branch result s matches .ok _ _)
  | .error _ => false

theorem of_publishesLater {before : SledStorage} {step : LockSection}
    (h : publishesLater branch before
      (step.after nonceOracle noContracts plainConfig before) = true) :
    ∃ s', Published nonceOracle noContracts plainConfig branch before
      (step.after nonceOracle noContracts plainConfig before) s' := by
  unfold publishesLater at h
  split at h
  next result hreplay =>
    obtain ⟨captured, phase, hcapture, hbegin, hrun⟩ := run_of_replayCandidate hreplay
    have hlater := hrun.tail (.other before (.replayed result) step)
    cases hpublish : publishCandidate nonceOracle snapshotHost branch result
        (step.after nonceOracle noContracts plainConfig before) with
    | ok _ s' => exact ⟨s', .staged _ _ captured phase result _ _ _ hcapture hbegin hlater hpublish⟩
    | error e _ =>
      rw [hpublish] at h
      exact absurd h Bool.false_ne_true
  next => exact absurd h Bool.false_ne_true

theorem published_onto_captured_tip_fastBranch :
    ∃ s' tip, Published nonceOracle noContracts plainConfig fastBranch forkedStore forkedStoreLater s' ∧
      PublishedOnto nonceOracle fastBranch forkedStore forkedStoreLater tip := by
  obtain ⟨s', hpublished⟩ : ∃ s', Published nonceOracle noContracts plainConfig fastBranch forkedStore
      forkedStoreLater s' := of_publishesLater (by decide +kernel)
  have hstart : initializeGenesisForConfig nonceOracle noContracts (genesisHeader nonceOracle) {} =
      .ok () startNode.storage := eq_ok_finalState (by decide +kernel)
  obtain ⟨tip, honto⟩ := published_onto_captured_tip rfl hstart
    (.single ⟨.extension snapshotHost firstBlock, rfl⟩) hpublished
  exact ⟨s', tip, hpublished, honto⟩

end Blq
