import Blq.Proof.DifficultyWindow
import Blq.Proof.Promotion

/-!
# The bounded candidate pool

A block of another branch is queued once its header is sealed under the target it declares
itself. Whether that target is the required one is found out by the replay, and a branch that
fails it leaves its blocks in the pool.

* `promoted_of_room`, `deliver_of_full`: a valid block of a heavier branch becomes the tip if the
  pool has room for it, and leaves no trace otherwise.
* `promoted_after_mistargeted_iff`: after any number of blocks with a wrong target this is still
  what decides.
* `deliver_of_not_replayed`: a branch that outranks the chain and does not replay stays in the pool.
* `flood_blocks_valid_block`: blocks with a wrong target fill the pool and keep a valid one out.
-/

namespace Blq

open Word Result

/-- The block is not on top of the tip and sealed under the target it declares, but that is not
the target required at its height. -/
structure Mistargeted (O : Oracle) (config : NodeConfig) (s : SledStorage) (b : Block) : Prop where
  competing : ∃ tip, s.bestHeader = .ok tip ∧ ¬extendsHeader O tip b = true
  wrong : ∃ parent target, s.blockByHash O b.header.parentHash = .ok parent ∧
    validateHeaderForStorage O s parent.header b.header = .ok () ∧
    expectedDifficultyTargetWithLookup config parent.header b.header (difficultyHeaderByHash O s) =
      .ok target ∧ b.header.difficultyTarget ≠ target

/-- The node is handed such blocks; the recoveries they start may end in between. -/
inductive MistargetedRun (O : Oracle) (R : Revm) (config : NodeConfig) :
    Node → List Block → Node → Prop
  | done (n : Node) : MistargetedRun O R config n [] n
  | deliver {n n' : Node} (H : Host) {b : Block} {blocks : List Block} :
      Mistargeted O config n.storage b →
      MistargetedRun O R config (n.deliver O R config H b) blocks n' →
      MistargetedRun O R config n (b :: blocks) n'
  | recover {n n' : Node} (H : Host) {blocks : List Block} :
      MistargetedRun O R config (n.finishRecovery O R config H) blocks n' →
      MistargetedRun O R config n blocks n'

/-- A valid block whose branch leaves the chain below its tip and has more work, both by what the
pool records for it and by what the branch adds to its ancestor. -/
structure Rival (O : Oracle) (R : Revm) (config : NodeConfig) (H : Host) (s : SledStorage)
    (b : Block) (tip : BlockHeader) (work currentWork : U128) : Prop where
  timely : validateLiveTimestampAdmission H b.header = .ok ()
  authorised : Authorised O config b
  new : ¬Known O s (b.header.hash O)
  fits : O.jsonLen b ≤ SledStorage.maxCandidateBytes
  best : s.bestHeader = .ok tip
  present : ¬b.header.number.toNat > (saturatingAdd tip.number 1).toNat
  competing : ¬extendsHeader O tip b = true
  attached : ∃ parent, s.blockByHash O b.header.parentHash = .ok parent ∧
    validateHeaderForStorage O s parent.header b.header = .ok () ∧
    competingWork s parent.header b.header = .ok work
  current : canonicalWorkThroughNodeStorage s tip.number = .ok currentWork
  heavier : currentWork.toNat < work.toNat
  valid : ∃ branch replayed ancestorWork,
    candidateBranchFromStorage O (s.withCandidate O b work) b = .ok branch ∧
    replayCandidate O R config H (s.withCandidate O b work) branch = .ok replayed ∧
    branch.commonHeight.toNat < tip.number.toNat ∧
    canonicalWorkThroughNodeStorage s branch.commonHeight = .ok ancestorWork ∧
    currentWork.toNat <
      (branch.suffix.foldl (fun work block => addWork work block.header) ancestorWork).toNat
  manifest : H.hasManifest = true

variable {branch : CandidateBranch} {i : ℕ}

section Runs

variable {O : Oracle} {R : Revm} {config : NodeConfig} {H : Host} {n n' : Node} {b : Block}
  {tip : BlockHeader} {work currentWork : U128} {s : SledStorage}

theorem Reachable.mistargeted {blocks : List Block} (hn : Reachable O R config n)
    (hrun : MistargetedRun O R config n blocks n') : Reachable O R config n' := by
  induction hrun with
  | done n => exact hn
  | deliver H _ _ ih => exact ih (.deliver _ H _ hn)
  | recover H _ ih => exact ih (.recover _ H hn)

theorem MistargetedRun.concat {blocks : List Block} (hrun : MistargetedRun O R config n blocks n')
    (hb : Mistargeted O config n'.storage b) (H : Host) :
    MistargetedRun O R config n (blocks ++ [b]) (n'.deliver O R config H b) := by
  induction hrun with
  | done n => exact .deliver H hb (.done _)
  | deliver H' hb' _ ih => exact .deliver H' hb' (ih hb)
  | recover H' _ ih => exact .recover H' (ih hb)

/-! ## What becomes of a branch -/

theorem importBranch_of_published
    (h : stageAndPublishCandidate O R config H branch n.storage = .ok () s) :
    ∃ n', importBranch O R config H b branch n = .ok () n' ∧ n'.storage = s := by
  unfold importBranch
  rw [attempt_bind_of_ok (onStorage_apply_of_ok h)]
  unfold cleanMempool
  dsimp only
  split
  · exact ⟨_, rfl, rfl⟩
  · exact ⟨_, rfl, rfl⟩

theorem importBranch_of_failed {e : NodeError}
    (h : stageAndPublishCandidate O R config H branch n.storage = .error e s) :
    importBranch O R config H b branch n = .ok () (n.withStorage s) := by
  unfold importBranch
  rw [attempt_bind_of_error (onStorage_apply_of_error h)]
  rfl

theorem stageAndPublishCandidate_of_not_replayed (hbest : s.bestHeader = .ok tip)
    (hfork : branch.commonHeight ≠ tip.number)
    (hreplay : ∀ replayed, replayCandidate O R config H s branch ≠ .ok replayed) :
    ∃ e, stageAndPublishCandidate O R config H branch s = .error e s := by
  unfold stageAndPublishCandidate
  rw [bind_apply_of_ok (commitDirectCandidateExtension_of_fork hbest hfork),
    if_neg Bool.false_ne_true, get_bind_apply]
  cases hcase : replayCandidate O R config H s branch with
  | ok replayed => exact absurd hcase (hreplay replayed)
  | error e => exact ⟨e, rfl⟩

/-! ## A branch that does not replay -/

/-- **A block whose branch outranks the chain and does not replay stays in the pool.** -/
theorem deliver_of_not_replayed (htimely : validateLiveTimestampAdmission H b.header = .ok ())
    (hauth : Authorised O config b) (hnew : ¬Known O n.storage (b.header.hash O))
    (hbest : n.storage.bestHeader = .ok tip)
    (hpresent : ¬b.header.number.toNat > (saturatingAdd tip.number 1).toNat)
    (hext : ¬extendsHeader O tip b = true) (hattaches : Attaches O n.storage b.header work)
    (hfits : O.jsonLen b ≤ SledStorage.maxCandidateBytes)
    (hcurrent : canonicalWorkThroughNodeStorage n.storage tip.number = .ok currentWork)
    (hheavier : currentWork.toNat < work.toNat)
    (hfail : ∀ branch, candidateBranchFromStorage O (n.storage.withCandidate O b work) b = .ok branch →
      branch.commonHeight ≠ tip.number ∧ ∀ replayed,
        replayCandidate O R config H (n.storage.withCandidate O b work) branch ≠ .ok replayed) :
    n.deliver O R config H b = n.withStorage (n.storage.withCandidate O b work) := by
  have hqueue := queueCompetingBlockPending_of_attaches hauth hattaches hfits hbest hcurrent
    (queueReplaces_iff.mpr (.inl hheavier))
  have hoff := importNetworkBlock_beside (R := R) htimely hauth hnew hbest hpresent
  cases hbranch : candidateBranchFromStorage O (n.storage.withCandidate O b work) b with
  | error e =>
    rw [hbranch] at hqueue
    exact deliver_of_error ((hoff hext).trans (bind_apply_of_error (onStorage_apply_of_error hqueue)))
  | ok branch =>
    rw [hbranch] at hqueue
    obtain ⟨hfork, hreplay⟩ := hfail branch hbranch
    obtain ⟨e, he⟩ := stageAndPublishCandidate_of_not_replayed (R := R)
      (s := n.storage.withCandidate O b work) hbest hfork hreplay
    have hrun := (hoff hext).trans (bind_apply_of_ok (onStorage_apply_of_ok hqueue))
    exact deliver_of_ok (hrun.trans
      (importBranch_of_failed (n := n.withStorage (n.storage.withCandidate O b work)) he))

/-! ## A valid block -/

theorem Rival.not_candidate (h : Rival O R config H n.storage b tip work currentWork) :
    ¬n.storage.candidates.contains (b.header.hash O) = true := by
  intro hcontains
  refine h.new (known_of_candidate ?_)
  rwa [Std.ExtTreeMap.isSome_getElem?_eq_contains]

/-- **A full pool refuses the block**, and the node is as before. -/
theorem deliver_of_full (h : Rival O R config H n.storage b tip work currentWork)
    (hfull : ¬n.storage.candidates.size < SledStorage.maxCandidates) :
    n.deliver O R config H b = n := by
  obtain ⟨parent, hparent, hheader, hwork⟩ := h.attached
  obtain ⟨e, hstore⟩ : ∃ e, n.storage.storeCandidateBlock O b work = .error e := by
    cases hcase : n.storage.storeCandidateBlock O b work with
    | error e => exact ⟨e, rfl⟩
    | ok s =>
      obtain ⟨-, hroom, -⟩ := storeCandidateBlock_ok_iff.mp hcase
      rcases hroom with hcontains | hroom
      · exact absurd hcontains h.not_candidate
      · exact absurd hroom hfull
  have hqueue : queueCompetingBlockPending O config b n.storage =
      .error (.storage e) n.storage := by
    refine bind_apply_of_error ?_
    unfold storeCompetingBlock
    rw [runExcept_bind_of_ok h.authorised, get_bind_apply, hparent]
    dsimp only
    rw [runExcept_bind_of_ok hheader,
      readStore_bind_of_ok hwork]
    exact bind_apply_of_error (writeStore_apply_of_error hstore)
  have hoff := importNetworkBlock_beside (R := R) h.timely h.authorised h.new h.best h.present
  exact deliver_of_error
    ((hoff h.competing).trans (bind_apply_of_error (onStorage_apply_of_error hqueue)))

/-- **With room in the pool the block becomes the tip.** -/
theorem promoted_of_room (hs : Consistent O n.storage)
    (h : Rival O R config H n.storage b tip work currentWork)
    (hroom : n.storage.candidates.size < SledStorage.maxCandidates) :
    Promoted (n.deliver O R config H b).storage b := by
  obtain ⟨branch, replayed, ancestorWork, hbranch, hreplay, hfork, hancestor, hheavier⟩ := h.valid
  have hattaches : Attaches O n.storage b.header work := ⟨h.attached, .inr hroom⟩
  have hqueue := queueCompetingBlockPending_of_attaches h.authorised hattaches h.fits h.best h.current
    (queueReplaces_iff.mpr (.inl h.heavier))
  rw [hbranch] at hqueue
  -- the chain is the same with the block among the candidates
  have hnew : NotCanonical O (n.storage.withCandidate O b work) (b.header.hash O) := by
    intro k block hblock heq
    refine h.new (known_iff.mpr (.inl ⟨k, block.header, ?_, heq⟩))
    rw [hs.chain.header k]
    exact congrArg (Option.map Block.header) hblock
  obtain ⟨s', hpublish, hpromoted⟩ := stageAndPublishCandidate_of_replayed
    (s := n.storage.withCandidate O b work) hs.chain h.best hfork hancestor h.current
    (getLast?_of_candidateBranch hnew hbranch)
    (publicationReplaces_iff.mpr (Tip.outranks_iff.mpr (.inl hheavier))) h.manifest hreplay
  obtain ⟨n', hn', hstorage⟩ := importBranch_of_published (b := b)
    (n := n.withStorage (n.storage.withCandidate O b work)) hpublish
  have hoff := importNetworkBlock_beside (R := R) h.timely h.authorised h.new h.best h.present
  have hrun := (hoff h.competing).trans (bind_apply_of_ok (onStorage_apply_of_ok hqueue))
  rw [deliver_of_ok (hrun.trans hn'), hstorage]
  exact hpromoted

/-- **After blocks with a wrong target a valid block of a heavier branch becomes the tip exactly
when they have left room for it in the pool.** -/
theorem promoted_after_mistargeted_iff {blocks : List Block} (hn : Reachable O R config n)
    (hrun : MistargetedRun O R config n blocks n')
    (hb : Rival O R config H n'.storage b tip work currentWork) :
    Promoted (n'.deliver O R config H b).storage b ↔
      n'.storage.candidates.size < SledStorage.maxCandidates := by
  constructor
  · intro hpromoted
    by_contra hfull
    rw [deliver_of_full hb hfull] at hpromoted
    exact hb.new (known_of_bestHeader hpromoted.1)
  · exact promoted_of_room (hn.mistargeted hrun).consistent hb

end Runs

/-! ## A flood of blocks with a wrong target -/

theorem hash_nonceOracle (header : BlockHeader) :
    header.hash nonceOracle = BitVec.ofNat 256 header.nonce.toNat := by
  have hlength : (beBytes header.nonce).length = 8 := by simp [beBytes]
  have hbytes : header.canonicalBytes.drop (header.canonicalBytes.length - 8) =
      beBytes header.nonce := by
    unfold BlockHeader.canonicalBytes
    rw [List.length_append, hlength, Nat.add_sub_cancel, List.drop_left]
  show BitVec.ofNat 256 (ofBeBytes (header.canonicalBytes.drop _)) = _
  rw [hbytes, ofBeBytes_beBytes rfl]

def heldNode : Node := startNode.deliver nonceOracle noContracts plainConfig snapshotHost firstBlock

/-- A rival of the first block under a harder target than the required one. -/
def mistargetedBlock (i : ℕ) : Block where
  header := { (childOf (genesisHeader nonceOracle) (BitVec.ofNat 64 (i + 10))).header with
    difficultyTarget := genesisDifficultyTarget >>> 1 }
  transactions := []
  receipts := []

/-- A rival of the first block after ten seconds, hence with a harder target and more work. -/
def fastBlock : Block where
  header := { (childOf (genesisHeader nonceOracle) 3).header with
    timestampSeconds := genesisTimestampSeconds + 10
    difficultyTarget := nextBlockDifficultyTarget genesisDifficultyTarget 10 }
  transactions := []
  receipts := []

structure Held (s : SledStorage) : Prop where
  best : s.bestNumber = some 1
  headers : s.headers.toList = [(0, genesisHeader nonceOracle), (1, firstBlock.header)]
  blocks : s.blocks.toList = [(0, genesisBlock nonceOracle), (1, firstBlock)]
  spool : s.recoverySpool = ∅

theorem heldNode_storage : heldNode.storage.bestNumber = some 1 ∧
    heldNode.storage.headers.toList = [(0, genesisHeader nonceOracle), (1, firstBlock.header)] ∧
    heldNode.storage.blocks.toList = [(0, genesisBlock nonceOracle), (1, firstBlock)] ∧
    heldNode.storage.recoverySpool = ∅ ∧ heldNode.storage.candidates = ∅ ∧
    heldNode.storage.candidateWorks = ∅ := by
  decide +kernel

theorem flood_values : (genesisHeader nonceOracle).hash nonceOracle = 0 ∧
    firstBlock.header.hash nonceOracle = 1 ∧
    (addWork 0 (genesisBlock nonceOracle).header = 16 ∧ addWork 16 firstBlock.header = 32 ∧
      addWork 16 (mistargetedBlock 0).header = 49) ∧
    genesisDifficultyTarget >>> 1 ≠ genesisDifficultyTarget ∧
    nextBlockDifficultyTarget genesisDifficultyTarget
      (maxWord (saturatingSub (genesisTimestampSeconds + 30) genesisTimestampSeconds) 1) =
        genesisDifficultyTarget ∧
    validateHeaderWithGenesis nonceOracle (genesisBlock nonceOracle).header
      (mistargetedBlock 0).header 0 = .ok () := by
  decide +kernel

section Held

variable {s : SledStorage}

theorem Held.withCandidate (h : Held s) (b : Block) (work : U128) :
    Held (s.withCandidate nonceOracle b work) := ⟨h.best, h.headers, h.blocks, h.spool⟩

theorem Held.genesisHeader (h : Held s) : s.headers[(0 : U64)]? = some (genesisHeader nonceOracle) := by
  rw [← Map.mem_toList_iff, h.headers]
  simp

theorem Held.block (h : Held s) : s.blocks[(0 : U64)]? = some (genesisBlock nonceOracle) ∧
    s.blocks[(1 : U64)]? = some firstBlock := by
  rw [← Map.mem_toList_iff, ← Map.mem_toList_iff, h.blocks]
  simp

theorem Held.bestHeader (h : Held s) : s.bestHeader = .ok firstBlock.header := by
  refine bestHeader_eq_ok.mpr ⟨1, h.best, ?_⟩
  rw [← Map.mem_toList_iff, h.headers]
  simp

theorem Held.genesis (h : Held s) : s.blockByHash nonceOracle 0 = .ok (genesisBlock nonceOracle) := by
  have hfind : (([(0, genesisBlock nonceOracle), (1, firstBlock)].map fun p : U64 × Block =>
      p.2).insertionSort fun a b => a.header.number.toNat ≤ b.header.number.toNat).find?
        (fun block => block.header.hash nonceOracle = 0) = some (genesisBlock nonceOracle) := by
    decide +kernel
  unfold SledStorage.blockByHash SledStorage.canonicalBlocks
  rw [h.blocks, hfind]
  rfl

theorem Held.work (h : Held s) : canonicalWorkThroughNodeStorage s 0 = .ok 16 ∧
    canonicalWorkThroughNodeStorage s 1 = .ok 32 := by
  obtain ⟨hzero, hone⟩ := h.block
  have hblocks : s.blockByNumber 0 = .ok (genesisBlock nonceOracle) ∧
      s.blockByNumber 1 = .ok firstBlock :=
    ⟨blockByNumber_eq_ok.mpr hzero, blockByNumber_eq_ok.mpr hone⟩
  have hheights : SledStorage.heights 0 0 = [0] ∧ SledStorage.heights 0 1 = [0, 1] := by
    decide
  obtain ⟨hgenesis, hfirst, -⟩ := flood_values.2.2.1
  unfold canonicalWorkThroughNodeStorage
  rw [hheights.1, hheights.2]
  simp only [List.foldlM_cons, List.foldlM_nil, hblocks.1, hblocks.2, ok_bind, pure_bind, hgenesis,
    hfirst]
  exact ⟨rfl, rfl⟩

theorem Held.known (h : Held s) {hash : Hash256} (hknown : Known nonceOracle s hash) :
    hash.toNat < 2 ∨ (s.candidates[hash]?).isSome = true := by
  rcases known_iff.mp hknown with ⟨k, header, hheader, rfl⟩ | hcandidate
  · rw [← Map.mem_toList_iff, h.headers] at hheader
    left
    rcases List.mem_pair.mp hheader with heq | heq
    · rw [(Prod.mk.inj heq).2, flood_values.1]
      decide
    · rw [(Prod.mk.inj heq).2, flood_values.2.1]
      decide
  · exact .inr hcandidate

theorem Held.genesisHash (h : Held s) : configuredGenesisHash nonceOracle s = 0 := by
  unfold configuredGenesisHash
  rw [headerByNumber_eq_ok.mpr h.genesisHeader]
  exact flood_values.1

/-! ### One block of the flood -/

theorem hash_mistargetedBlock (i : ℕ) (hi : i < 4096) :
    ((mistargetedBlock i).header.hash nonceOracle).toNat = i + 10 := by
  rw [hash_nonceOracle]
  show (BitVec.ofNat 256 (BitVec.ofNat 64 (i + 10)).toNat).toNat = _
  rw [BitVec.toNat_ofNat, BitVec.toNat_ofNat]
  omega

theorem parentHash_mistargetedBlock (i : ℕ) : (mistargetedBlock i).header.parentHash = 0 :=
  flood_values.1

theorem difficultyTarget_mistargetedBlock (i : ℕ) :
    (mistargetedBlock i).header.difficultyTarget ≠ genesisDifficultyTarget := flood_values.2.2.2.1

theorem not_extends_mistargetedBlock (i : ℕ) :
    ¬extendsHeader nonceOracle firstBlock.header (mistargetedBlock i) = true := by
  intro hextends
  have hhash := (extendsHeader_iff.mp hextends).1
  rw [parentHash_mistargetedBlock, flood_values.2.1] at hhash
  exact absurd hhash (by decide)

/-- The target required of the block is that of genesis, at any nonce. -/
theorem expectedTarget_mistargetedBlock (i : ℕ) (previous : Hash256 → Except NodeError BlockHeader) :
    expectedDifficultyTargetWithLookup plainConfig (genesisHeader nonceOracle)
      (mistargetedBlock i).header previous = .ok genesisDifficultyTarget := by
  have htarget := flood_values.2.2.2.2.1
  have hnumber : ¬(mistargetedBlock i).header.number = 0 := by
    show ¬(0 : U64) + 1 = 0
    decide
  unfold expectedDifficultyTargetWithLookup
  rw [if_neg hnumber]
  exact congrArg Except.ok htarget

theorem Held.validateHeader (h : Held s) (i : ℕ) :
    validateHeaderForStorage nonceOracle s (genesisBlock nonceOracle).header
      (mistargetedBlock i).header = .ok () := by
  unfold validateHeaderForStorage
  rw [h.genesisHash]
  have hnonce : validateHeaderWithGenesis nonceOracle (genesisBlock nonceOracle).header
      (mistargetedBlock i).header 0 = validateHeaderWithGenesis nonceOracle
      (genesisBlock nonceOracle).header (mistargetedBlock 0).header 0 := rfl
  rw [hnonce, flood_values.2.2.2.2.2]
  rfl

theorem Held.competingWork (h : Held s) (hworks : s.candidateWorks[(0 : Hash256)]? = none) (i : ℕ) :
    competingWork s (genesisBlock nonceOracle).header (mistargetedBlock i).header = .ok 49 := by
  have hparent := parentHash_mistargetedBlock i
  have hmissing : s.candidateWork 0 = .error .notFound := by
    unfold SledStorage.candidateWork orNotFound
    rw [hworks]
    rfl
  unfold Blq.competingWork branchWork
  rw [hparent, hmissing]
  show (canonicalWorkThroughNodeStorage s 0 >>= fun work => pure (addWork work _)) = _
  rw [h.work.1, ok_bind]
  exact congrArg Except.ok flood_values.2.2.1.2.2

theorem Held.branch_eq (h : Held s) (hi : i < 4096)
    (hbranch : candidateBranchFromStorage nonceOracle s (mistargetedBlock i) = .ok branch) :
    branch.commonHeight = 0 ∧ branch.suffix = [mistargetedBlock i] := by
  have hhash := hash_mistargetedBlock i hi
  have hfirst := flood_values.2.1
  have hparent := parentHash_mistargetedBlock i
  unfold candidateBranchFromStorage maxCandidateReplaySuffix branchFrom at hbranch
  simp only [ite_throw_eq_ok] at hbranch
  obtain ⟨-, hbranch⟩ := hbranch
  split at hbranch
  next canonical hcanonical =>
    -- at height one stands the first block, under another hash
    obtain ⟨hget, heq⟩ := Option.filter_eq_some_iff.mp hcanonical
    obtain rfl : firstBlock = canonical := Option.some.inj (h.block.2.symm.trans hget)
    rw [hfirst] at heq
    have heq : 1 = (mistargetedBlock i).header.hash nonceOracle := by simpa using heq
    rw [← heq] at hhash
    have hone : (1 : Hash256).toNat = 1 := rfl
    omega
  next =>
    simp only [ite_throw_eq_ok, bind_eq_ok, branchParent, throw_bind, pure_eq_ok] at hbranch
    obtain ⟨-, parent, ⟨parent', hfound, -, rfl⟩, hbranch⟩ := hbranch
    have hspool : s.recoveryBlockByHash 0 = .error .notFound := by
      unfold SledStorage.recoveryBlockByHash
      rw [h.spool]
      rfl
    unfold branchBlock at hfound
    rw [hparent, hspool, h.genesis] at hfound
    obtain rfl := pure_eq_ok.mp hfound
    unfold branchFrom at hbranch
    have hzero : s.blocks[(genesisBlock nonceOracle).header.number]? =
        some (genesisBlock nonceOracle) := h.block.1
    simp only [ite_throw_eq_ok, hzero, Option.filter_some, decide_true, if_true] at hbranch
    obtain ⟨-, hbranch⟩ := hbranch
    obtain rfl := pure_eq_ok.mp hbranch
    exact ⟨rfl, rfl⟩

theorem Held.not_replayed (h : Held s) (hheight : branch.commonHeight = 0)
    (hsuffix : branch.suffix = [mistargetedBlock i]) (replayed : ReplayedBranch) :
    replayCandidate nonceOracle noContracts plainConfig snapshotHost s branch ≠ .ok replayed := by
  intro hreplay
  simp only [replayCandidate, bind_eq_ok] at hreplay
  obtain ⟨captured, hcapture, first, hfirst, ancestor, hancestor, hfinish⟩ := hreplay
  have hcaptures := captures_of_captureReplay hcapture
  have hparent := hcaptures.parent
  rw [← Option.some.inj hcaptures.snapshot] at hparent
  replace hparent : Blq.genesisHeader nonceOracle = captured.replayParent :=
    Option.some.inj (h.genesisHeader.symm.trans (headerByNumber_eq_ok.mp hparent))
  -- the snapshot is that of genesis, so nothing is replayed below the suffix
  have hfirst : first.parent = Blq.genesisHeader nonceOracle := by
    simp only [ExecutionReplayOverlay.fromSnapshot, throw_bind, ite_throw_eq_ok, pure_eq_ok] at hfirst
    rw [← hfirst.2, hparent]
  have hheights : SledStorage.heights (saturatingAdd (Blq.genesisHeader nonceOracle).number 1) 0 = [] := by
    decide
  rw [hfirst, hheight, hheights] at hancestor
  obtain rfl := pure_eq_ok.mp hancestor
  obtain ⟨last, hlast, -⟩ := bind_eq_ok.mp hfinish
  rw [hsuffix] at hlast
  obtain ⟨next, hnext, -⟩ := bind_eq_ok.mp hlast
  have htarget := ExecutionReplayOverlay.apply_target hnext
  rw [hfirst, expectedTarget_mistargetedBlock] at htarget
  exact difficultyTarget_mistargetedBlock i (Except.ok.inj htarget).symm

theorem Held.mistargeted (h : Held s) (i : ℕ) :
    Mistargeted nonceOracle plainConfig s (mistargetedBlock i) := by
  refine ⟨⟨firstBlock.header, h.bestHeader, ?_⟩, genesisBlock nonceOracle, genesisDifficultyTarget,
    ?_, h.validateHeader i, expectedTarget_mistargetedBlock i _, difficultyTarget_mistargetedBlock i⟩
  · exact not_extends_mistargetedBlock i
  · rw [parentHash_mistargetedBlock]
    exact h.genesis

/-- **A block of the flood ends up in the pool**, whatever is there already. -/
theorem Held.deliver {n : Node} (h : Held n.storage) (hi : i < 4096)
    (hnew : (n.storage.candidates[(mistargetedBlock i).header.hash nonceOracle]?).isSome = false)
    (hworks : n.storage.candidateWorks[(0 : Hash256)]? = none)
    (hroom : n.storage.candidates.size < SledStorage.maxCandidates) :
    n.deliver nonceOracle noContracts plainConfig snapshotHost (mistargetedBlock i) =
      n.withStorage (n.storage.withCandidate nonceOracle (mistargetedBlock i) 49) := by
  have hhash := hash_mistargetedBlock i hi
  have hattaches : Attaches nonceOracle n.storage (mistargetedBlock i).header 49 := by
    refine ⟨⟨genesisBlock nonceOracle, ?_, h.validateHeader i, h.competingWork hworks i⟩, .inr hroom⟩
    rw [parentHash_mistargetedBlock]
    exact h.genesis
  have htimely : validateLiveTimestampAdmission snapshotHost (mistargetedBlock i).header = .ok () := by
    show validateLiveTimestampAdmission snapshotHost (mistargetedBlock 0).header = .ok ()
    decide +kernel
  refine deliver_of_not_replayed htimely rfl ?_ h.bestHeader ?_ (not_extends_mistargetedBlock i)
    hattaches (Nat.zero_le _) h.work.2 (by decide) ?_
  · intro hknown
    rcases h.known hknown with hlow | hcandidate
    · omega
    · rw [hnew] at hcandidate
      exact Bool.false_ne_true hcandidate
  · show ¬(1 : U64).toNat > _
    decide +kernel
  · intro branch hbranch
    obtain ⟨hheight, hsuffix⟩ := (h.withCandidate _ _).branch_eq hi hbranch
    refine ⟨?_, (h.withCandidate _ _).not_replayed hheight hsuffix⟩
    rw [hheight]
    decide +kernel

end Held

/-! ### The whole flood -/

def flooded : ℕ → Node
  | 0 => heldNode
  | i + 1 => (flooded i).deliver nonceOracle noContracts plainConfig snapshotHost (mistargetedBlock i)

/-- Only the pool has changed, and it holds the blocks of the flood. -/
structure Flooded (i : ℕ) (s : SledStorage) : Prop where
  held : Held s
  size : s.candidates.size = i
  hashes : ∀ hash : Hash256, (s.candidates[hash]?).isSome = true → 10 ≤ hash.toNat ∧ hash.toNat < i + 10
  works : s.candidateWorks[(0 : Hash256)]? = none

theorem flooded_zero : Flooded 0 heldNode.storage := by
  obtain ⟨hbest, hheaders, hblocks, hspool, hcandidates, hworks⟩ := heldNode_storage
  refine ⟨⟨hbest, hheaders, hblocks, hspool⟩, ?_, fun hash hsome => ?_, ?_⟩
  · rw [hcandidates]
    rfl
  · rw [hcandidates] at hsome
    simp at hsome
  · rw [hworks]
    simp

theorem Flooded.withCandidate {s : SledStorage} (h : Flooded i s) (hi : i < 4096) :
    Flooded (i + 1) (s.withCandidate nonceOracle (mistargetedBlock i) 49) := by
  have hhash := hash_mistargetedBlock i hi
  refine ⟨h.held.withCandidate _ _, ?_, fun hash hsome => ?_, ?_⟩
  · show (s.candidates.insert _ _).size = _
    rw [Std.ExtTreeMap.size_insert, h.size, if_neg]
    intro hmem
    have hbound := h.hashes _ (Std.ExtTreeMap.isSome_getElem?_eq_contains.trans hmem)
    omega
  · change ((s.candidates.insert _ _)[hash]?).isSome = true at hsome
    rw [Map.getElem?_insert_eq] at hsome
    split at hsome
    next heq =>
      rw [← heq]
      omega
    next =>
      have hbound := h.hashes hash hsome
      omega
  · show (s.candidateWorks.insert _ _)[(0 : Hash256)]? = none
    rw [Map.getElem?_insert_eq, if_neg, h.works]
    intro heq
    rw [heq] at hhash
    have hzero : (0 : Hash256).toNat = 0 := rfl
    omega

theorem Flooded.deliver {n : Node} (h : Flooded i n.storage) (hi : i < 4096) :
    n.deliver nonceOracle noContracts plainConfig snapshotHost (mistargetedBlock i) =
      n.withStorage (n.storage.withCandidate nonceOracle (mistargetedBlock i) 49) := by
  have hhash := hash_mistargetedBlock i hi
  refine h.held.deliver hi ?_ h.works ?_
  · by_contra hsome
    have hbound := h.hashes _ (by simpa using hsome)
    omega
  · rw [h.size]
    exact hi

theorem flooded_storage (hi : i ≤ 4096) : Flooded i (flooded i).storage := by
  induction i with
  | zero =>
    unfold flooded
    exact flooded_zero
  | succ i ih =>
    unfold flooded
    rw [(ih (by omega)).deliver hi]
    exact (ih (by omega)).withCandidate hi

def SledStorage.withPool (s : SledStorage) (candidates : Map Hash256 Block)
    (works : Map Hash256 U128) : SledStorage :=
  { s with candidates := candidates, candidateWorks := works }

def floodCandidates : ℕ → Map Hash256 Block
  | 0 => ∅
  | i + 1 => (floodCandidates i).insert ((mistargetedBlock i).header.hash nonceOracle) (mistargetedBlock i)

def floodWorks : ℕ → Map Hash256 U128
  | 0 => ∅
  | i + 1 => (floodWorks i).insert ((mistargetedBlock i).header.hash nonceOracle) 49

theorem flooded_eq (hi : i ≤ 4096) :
    (flooded i).storage = heldNode.storage.withPool (floodCandidates i) (floodWorks i) := by
  induction i with
  | zero =>
    obtain ⟨-, -, -, -, hcandidates, hworks⟩ := heldNode_storage
    have hsame : ∀ s : SledStorage, s.withPool s.candidates s.candidateWorks = s := fun _ => rfl
    unfold flooded floodCandidates floodWorks
    rw [← hcandidates, ← hworks, hsame]
  | succ i ih =>
    have hjoin : ∀ (s : SledStorage) (candidates : Map Hash256 Block) (works : Map Hash256 U128),
        (s.withPool candidates works).withCandidate nonceOracle (mistargetedBlock i) 49 =
          s.withPool (candidates.insert ((mistargetedBlock i).header.hash nonceOracle)
            (mistargetedBlock i)) (works.insert ((mistargetedBlock i).header.hash nonceOracle) 49) :=
      fun _ _ _ => rfl
    unfold flooded floodCandidates floodWorks
    rw [(flooded_storage (by omega)).deliver hi, ← hjoin, ← ih (by omega)]
    rfl

theorem flooded_run (hi : i ≤ 4096) :
    MistargetedRun nonceOracle noContracts plainConfig heldNode
      ((List.range i).map mistargetedBlock) (flooded i) := by
  induction i with
  | zero => exact .done heldNode
  | succ i ih =>
    rw [List.range_succ, List.map_append, List.map_singleton]
    exact (ih (by omega)).concat ((flooded_storage (by omega)).held.mistargeted i) snapshotHost

/-- The branch of the valid block is assembled and replays, and has more work than the chain. -/
def fastBranchReplays (s : SledStorage) : Bool :=
  match candidateBranchFromStorage nonceOracle s fastBlock with
  | .ok branch =>
    decide (branch.commonHeight = 0) &&
      decide (32 < (branch.suffix.foldl (fun work block => addWork work block.header) 16).toNat) &&
      (replayCandidate nonceOracle noContracts plainConfig snapshotHost s branch).isOk
  | .error _ => false

theorem of_fastBranchReplays {s : SledStorage} (h : fastBranchReplays s = true) :
    ∃ branch replayed, candidateBranchFromStorage nonceOracle s fastBlock = .ok branch ∧
      replayCandidate nonceOracle noContracts plainConfig snapshotHost s branch = .ok replayed ∧
      branch.commonHeight = 0 ∧
      32 < (branch.suffix.foldl (fun work block => addWork work block.header) 16).toNat := by
  unfold fastBranchReplays at h
  split at h
  next branch hbranch =>
    simp only [Bool.and_eq_true, decide_eq_true_eq] at h
    obtain ⟨⟨hheight, hwork⟩, hreplay⟩ := h
    obtain ⟨replayed, hok⟩ := exists_ok_of_isOk hreplay
    exact ⟨branch, replayed, hbranch, hok, hheight, hwork⟩
  next => exact absurd h Bool.false_ne_true

theorem Flooded.rival {s : SledStorage} (h : Flooded i s)
    (hreplays : fastBranchReplays (s.withCandidate nonceOracle fastBlock 38) = true) :
    Rival nonceOracle noContracts plainConfig snapshotHost s fastBlock firstBlock.header 38 32 := by
  obtain ⟨branch, replayed, hbranch, hreplay, hheight, hwork⟩ := of_fastBranchReplays hreplays
  have hhash : fastBlock.header.hash nonceOracle = 3 := by decide +kernel
  have hparent : fastBlock.header.parentHash = 0 := by decide +kernel
  have hmissing : s.candidateWork 0 = .error .notFound := by
    unfold SledStorage.candidateWork orNotFound
    rw [h.works]
    rfl
  refine
    { timely := by decide +kernel
      authorised := rfl
      new := ?_
      fits := by decide +kernel
      best := h.held.bestHeader
      present := by decide +kernel
      competing := by decide +kernel
      attached := ⟨genesisBlock nonceOracle, ?_, ?_, ?_⟩
      current := h.held.work.2
      heavier := by decide
      valid := ⟨branch, replayed, 16, hbranch, hreplay, ?_, ?_, hwork⟩
      manifest := rfl }
  · intro hknown
    rw [hhash] at hknown
    have hthree : (3 : Hash256).toNat = 3 := rfl
    rcases h.held.known hknown with hlow | hcandidate
    · omega
    · have hbound := h.hashes _ hcandidate
      omega
  · rw [hparent]
    exact h.held.genesis
  · unfold validateHeaderForStorage
    rw [h.held.genesisHash]
    decide +kernel
  · unfold competingWork branchWork
    rw [hparent, hmissing]
    show (canonicalWorkThroughNodeStorage s 0 >>= fun work => pure (addWork work _)) = _
    rw [h.held.work.1, ok_bind]
    decide +kernel
  · rw [hheight]
    decide +kernel
  · rw [hheight]
    exact h.held.work.1

theorem heldNode_reachable : Reachable nonceOracle noContracts plainConfig heldNode :=
  .deliver _ _ _ startNode_reachable

/-- **Blocks with a wrong target keep a valid block out**: alone the block becomes the tip, but
after as many of them as the pool has places it is dropped. -/
theorem flood_blocks_valid_block :
    Reachable nonceOracle noContracts plainConfig heldNode ∧
    Promoted (heldNode.deliver nonceOracle noContracts plainConfig snapshotHost fastBlock).storage
      fastBlock ∧
    MistargetedRun nonceOracle noContracts plainConfig heldNode
      ((List.range 4096).map mistargetedBlock) (flooded 4096) ∧
    Rival nonceOracle noContracts plainConfig snapshotHost (flooded 4096).storage fastBlock
      firstBlock.header 38 32 ∧
    ¬Promoted ((flooded 4096).deliver nonceOracle noContracts plainConfig snapshotHost
      fastBlock).storage fastBlock := by
  have hflooded := flooded_storage (i := 4096) le_rfl
  have hrival := hflooded.rival (by rw [flooded_eq le_rfl]; decide +kernel)
  refine ⟨heldNode_reachable, ?_, flooded_run le_rfl, hrival, ?_⟩
  · exact promoted_of_room heldNode_reachable.consistent
      (flooded_zero.rival (by decide +kernel)) (by rw [flooded_zero.size]; decide)
  · intro hpromoted
    have hfull : ¬(flooded 4096).storage.candidates.size < SledStorage.maxCandidates := by
      rw [hflooded.size]
      exact lt_irrefl _
    rw [deliver_of_full hrival hfull] at hpromoted
    exact hrival.new (known_of_bestHeader hpromoted.1)

theorem promoted_after_one_mistargeted :
    Promoted ((flooded 1).deliver nonceOracle noContracts plainConfig snapshotHost fastBlock).storage
      fastBlock ∧ (flooded 1).storage.candidates.size = 1 := by
  have hflooded := flooded_storage (i := 1) (by decide)
  refine ⟨(promoted_after_mistargeted_iff heldNode_reachable (flooded_run (i := 1) (by decide))
    (hflooded.rival (by decide +kernel))).mpr ?_, hflooded.size⟩
  rw [hflooded.size]
  decide

end Blq
