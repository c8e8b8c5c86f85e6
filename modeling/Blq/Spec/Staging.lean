import Blq.Spec.Import
import Blq.Spec.Pruning
import Mathlib.Logic.Relation

/-!
# A publication between other threads (`stage_and_publish_candidate`)

A branch that does not start at the tip is published in three parts: its context is captured under
the storage lock, the replay runs without it and takes it for one canonical body at a time, and the
result is published under the lock again. In between other threads take the lock; `LockSection` is
what each of them does while it holds it. `replayCandidate` is the same replay with the lock held
throughout.
-/

namespace Blq

open Word Result

variable (O : Oracle) (R : Revm) (config : NodeConfig) (H : Host)

/-! ## The staging thread -/

/-- Where the thread is after the capture: the heights of the canonical bodies it still has to read,
or the accounts it wants to publish. -/
inductive StagingPhase where
  | replaying (captured : CapturedReplay) (overlay : ExecutionReplayOverlay) (heights : List U64)
  | replayed (result : ReplayedBranch)

def beginReplay (branch : CandidateBranch) (captured : CapturedReplay) :
    Except NodeError StagingPhase := do
  let overlay ← ExecutionReplayOverlay.fromSnapshot O captured.snapshot captured.replayParent
    captured.replayHistory
  pure (.replaying captured overlay
    (SledStorage.heights (saturatingAdd overlay.parent.number 1) branch.commonHeight))

/-! ## The other threads -/

/-- A block on top of the tip, as the network and the miners' handlers insert it. -/
def extendTip (block : Block) : StoreM Unit := do
  let parent ← readStore SledStorage.bestHeader
  if extendsHeader O parent block then
    let s ← get
    runExcept (validateExtension O R config s parent block)
    runExcept (H.storageCap s)
    insertBlock O R block

/-- What a thread does while it holds the storage lock. -/
inductive LockSection where
  | extension (H : Host) (block : Block)
  | orphan (block : Block)
  | queue (block : Block)
  | promotion (block : Block)
  | drain
  | directExtension (branch : CandidateBranch)
  | recoveryBatch (H : Host) (blocks : List Block)
  | publication (H : Host) (branch : CandidateBranch) (replayed : ReplayedBranch)
  | clearCandidates
  | quarantine (hash : Hash256) (reason : String)
  | spool (bodies : Map Hash256 (Block × U128))
  | prune (usage : ℕ → U64) (maxBytes minimumBodyHeight : U64)

def LockSection.run : LockSection → StoreM Unit
  | .extension H block => extendTip O R config H block
  | .orphan block => writeStore fun s => s.storeOrphanBlock O block
  | .queue block => do let _ ← queueCompetingBlockPending O config block
  | .promotion block => do let _ ← queueCompetingBlock O R config block
  | .drain => drainOrphanBlocks O R config
  | .directExtension branch => do let _ ← commitDirectCandidateExtension O R config branch
  | .recoveryBatch H blocks => importDirectRecoveryBatches O R config H 0 blocks
  | .publication H branch replayed => publishCandidate O H branch replayed
  | .clearCandidates => modify SledStorage.clearCandidateBlocks
  | .quarantine hash reason => modify fun s => s.quarantineCandidateTip hash reason
  | .spool bodies => modify fun s => { s with recoverySpool := bodies }
  | .prune usage maxBytes minimumBodyHeight =>
    modify fun s => s.pruneOldBlocks usage maxBytes minimumBodyHeight

/-- The database after a section, whether it succeeded or not. -/
def LockSection.after (step : LockSection) (s : SledStorage) : SledStorage :=
  finalState (step.run O R config) s

/-- Some thread had the lock. -/
def SectionStep (s s' : SledStorage) : Prop := ∃ step : LockSection, step.after O R config s = s'

/-- One step of the staging thread, or a section of another one. -/
inductive StagingStep (branch : CandidateBranch) :
    SledStorage × StagingPhase → SledStorage × StagingPhase → Prop
  | other (s : SledStorage) (phase : StagingPhase) (step : LockSection) :
      StagingStep branch (s, phase) (step.after O R config s, phase)
  | body (s : SledStorage) (H : Host) (captured : CapturedReplay)
      (overlay overlay' : ExecutionReplayOverlay) (number : U64) (rest : List U64) :
      replayBody O R config H s captured overlay number = .ok overlay' →
      StagingStep branch (s, .replaying captured overlay (number :: rest))
        (s, .replaying captured overlay' rest)
  | finish (s : SledStorage) (H : Host) (captured : CapturedReplay)
      (overlay : ExecutionReplayOverlay) (result : ReplayedBranch) :
      finishReplay O R config H branch captured overlay = .ok result →
      StagingStep branch (s, .replaying captured overlay []) (s, .replayed result)

/-- A branch that was published: the database when the thread took its context, when it took the lock
to publish, and when it released it. A branch on top of the tip is committed under one lock. -/
inductive Published (branch : CandidateBranch) : SledStorage → SledStorage → SledStorage → Prop
  | direct (s s' : SledStorage) : commitDirectCandidateExtension O R config branch s = .ok true s' →
      Published branch s s s'
  | staged (H H' : Host) (captured : CapturedReplay) (phase : StagingPhase) (result : ReplayedBranch)
      (before s s' : SledStorage) :
      captureReplay O H before branch = .ok captured → beginReplay O branch captured = .ok phase →
      Relation.ReflTransGen (StagingStep O R config branch) (before, phase) (s, .replayed result) →
      publishCandidate O H' branch result s = .ok () s' → Published branch before s s'

end Blq
