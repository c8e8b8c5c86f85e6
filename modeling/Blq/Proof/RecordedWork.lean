import Blq.Proof.CandidatePool
import Blq.Proof.Ingestion
import Blq.Proof.ParentPath
import Blq.Proof.RecoverySpool

/-!
# The recorded work

A candidate is stored with its cumulative work, taken from its parent or from the canonical rows at
that moment; a body of the spool likewise. The chain may change afterwards, the parents may be
removed: the record stays, because the path to a hash does not depend on what is canonical.

* `WorkInvariant`: every record is the work of the path to its hash.
* `WorkInvariant.source`, `WorkInvariant.validateRecoveryBlock`: so is what is computed for a new
  candidate and for a new body.
* `recorded_work_exact`: **in every run that gives no slot of the spool to a body of another hash,
  every record is the work of its parent path.**
* `overwritten_slot_work`: with an overwritten slot, a body is recorded with the work of another
  branch.
-/

namespace Blq

open Word Result

variable {O : Oracle} {R : Revm} {config : NodeConfig} {s s' : SledStorage} {genesis : BlockHeader}
  {seen : BlockHeader → Prop}

/-! ## The invariant of the database -/

/-- The header is one of those seen, and below the last height. -/
def Placed (seen : BlockHeader → Prop) (block : Block) : Prop :=
  seen block.header ∧ block.header.number.toNat + 1 < 2 ^ 64

/-- The chain is linked from genesis, or not there while it is written again. -/
def ChainFrom (O : Oracle) (genesis : BlockHeader) (s : SledStorage) : Prop :=
  (s.bestNumber = none ∧ s.blocks = ∅) ∨ ∃ chain, LinkedCanonical O s ⟨genesis, [], []⟩ chain

/-- **Every record is the work of the path to its hash.** -/
structure WorkInvariant (O : Oracle) (genesis : BlockHeader) (seen : BlockHeader → Prop)
    (s : SledStorage) : Prop where
  consistent : Consistent O s
  bodies : BodiesIn (Placed seen) s
  chain : ChainFrom O genesis s
  works : ∀ (hash : Hash256) (work : U128), s.candidateWorks[hash]? = some work →
    Recorded O genesis seen hash work
  spool : ∀ (hash : Hash256) (body : Block × U128), s.recoverySpool[hash]? = some body →
    body.1.header.hash O = hash ∧ Recorded O genesis seen hash body.2

theorem ChainFrom.congr (h : ChainFrom O genesis s) (hblocks : s'.blocks = s.blocks)
    (hheaders : s'.headers = s.headers) (hbest : s'.bestNumber = s.bestNumber) :
    ChainFrom O genesis s' := by
  rcases h with ⟨hnone, hempty⟩ | ⟨chain, hchain⟩
  · exact .inl ⟨hbest.trans hnone, hblocks.trans hempty⟩
  · exact .inr ⟨chain, hchain.congr hblocks hheaders hbest⟩

variable {block : Block} {parent : BlockHeader} {work : U128} {expectedHeight : U64}

theorem ChainFrom.head? (h : ChainFrom O genesis s) (hhead : s.canonicalBlocks.head? = some block)
    (hnumber : block.header.number = 0) : block = ⟨genesis, [], []⟩ := by
  obtain ⟨k, hk⟩ := mem_canonicalBlocks.mp (List.mem_of_head? hhead)
  rcases h with ⟨-, hempty⟩ | ⟨chain, hchain⟩
  · rw [hempty] at hk
    exact absurd hk (by simp)
  · obtain ⟨hget, -, rfl⟩ := hchain.row hk
    rw [hnumber] at hget
    exact (Option.some.inj hget).symm

theorem ChainFrom.insertBlock (h : ChainFrom O genesis s) (hgenesis : genesis.number = 0)
    (hfits : block.header.number.toNat + 1 < 2 ^ 64)
    (hinserted : Inserted O (ChainFrom O genesis) s block) :
    ChainFrom O genesis (s.insertBlock block) := by
  rcases hinserted with ⟨hnone, hnumber, s₀, h₀, hhead⟩ | ⟨parent, hbest, hext⟩
  · -- genesis is written again
    obtain rfl := h₀.head? hhead hnumber
    rcases h with ⟨-, hempty⟩ | ⟨chain, hchain⟩
    · exact .inr ⟨[], linkedCanonical_first hempty hgenesis⟩
    · exact absurd (hchain.canonical.best.symm.trans hnone) (by simp)
  · rcases h with ⟨hnone, -⟩ | ⟨chain, hchain⟩
    · obtain ⟨n, hn, -⟩ := bestHeader_eq_ok.mp hbest
      exact absurd (hn.symm.trans hnone) (by simp)
    · exact .inr ⟨_, hchain.insertBlock hbest hext hfits⟩

theorem ChainFrom.publish (h : ChainFrom O genesis s) {ancestor : BlockHeader}
    {replacement : List Block} {native : NativeAccounts} {evm : EvmStateSnapshot}
    {totals : U64 × U128 × U128}
    (hs' : s.publishCanonicalSuffix O ancestor replacement native evm totals = .ok s')
    (hfits : ∀ b ∈ replacement, b.header.number.toNat + 1 < 2 ^ 64) : ChainFrom O genesis s' := by
  rcases h with ⟨hnone, -⟩ | ⟨chain, hchain⟩
  · obtain ⟨_, _, _, hpublished⟩ := publishCanonicalSuffix_eq_ok hs'
    obtain ⟨n, hn, -⟩ := bestHeader_eq_ok.mp hpublished.current
    exact absurd (hn.symm.trans hnone) (by simp)
  · exact .inr ⟨_, hchain.publish hs' hfits⟩

/-! ## The work of a parent -/

theorem WorkInvariant.row (h : WorkInvariant O genesis seen s) (hgenesis : genesis.number = 0)
    {k : U64} {b : Block} (hb : s.blocks[k]? = some b) :
    b.header.number = k ∧ ∃ work, canonicalWorkThroughNodeStorage s k = .ok work ∧
      Recorded O genesis seen (b.header.hash O) work := by
  rcases h.chain with ⟨-, hempty⟩ | ⟨chain, hchain⟩
  · rw [hempty] at hb
    exact absurd hb (by simp)
  · exact ⟨(hchain.row hb).2.2,
      hchain.recorded hgenesis (fun k b hb => (h.bodies.blocks k b hb).1) hb⟩

theorem WorkInvariant.branchWork_row (h : WorkInvariant O genesis seen s)
    (hgenesis : genesis.number = 0) {k : U64} {b : Block} (hb : s.blocks[k]? = some b) :
    ∃ work, branchWork s (b.header.hash O) b.header.number = .ok work ∧
      Recorded O genesis seen (b.header.hash O) work := by
  obtain ⟨rfl, work, hwork, hrecorded⟩ := h.row hgenesis hb
  unfold branchWork
  split
  next candidateWork hcandidate =>
    exact ⟨candidateWork, rfl, h.works _ _ (orNotFound_eq_ok.mp hcandidate)⟩
  next => exact ⟨work, hwork, hrecorded⟩

theorem WorkInvariant.candidate (h : WorkInvariant O genesis seen s) {hash : Hash256}
    (hblock : s.candidates[hash]? = some block) : block.header.hash O = hash ∧
      ∃ work, s.candidateWorks[hash]? = some work ∧ Recorded O genesis seen hash work := by
  have hsome := h.consistent.candidates.work hash
  rw [hblock, Option.isSome_some, Option.isSome_iff_exists] at hsome
  obtain ⟨work, hwork⟩ := hsome
  exact ⟨h.consistent.candidates.hash hash block hblock, work, hwork, h.works hash work hwork⟩

/-- **The work of a branch up to a known block**, wherever the block is. -/
theorem WorkInvariant.branchWork (h : WorkInvariant O genesis seen s)
    (hgenesis : genesis.number = 0) {hash : Hash256} {parent : Block}
    (hparent : s.blockByHash O hash = .ok parent) :
    parent.header.hash O = hash ∧ ∃ work, branchWork s hash parent.header.number = .ok work ∧
      Recorded O genesis seen hash work := by
  unfold SledStorage.blockByHash at hparent
  split at hparent
  next block hfind =>
    obtain rfl := pure_eq_ok.mp hparent
    obtain ⟨k, hk⟩ := mem_canonicalBlocks.mp (List.mem_of_find?_eq_some hfind)
    have hhash : block.header.hash O = hash := by simpa using List.find?_some hfind
    obtain ⟨work, hwork⟩ := h.branchWork_row hgenesis hk
    rw [hhash] at hwork
    exact ⟨hhash, work, hwork⟩
  next =>
    obtain ⟨hhash, work, hwork, hrecorded⟩ := h.candidate (orNotFound_eq_ok.mp hparent)
    refine ⟨hhash, work, ?_, hrecorded⟩
    unfold Blq.branchWork SledStorage.candidateWork
    rw [hwork]
    rfl

theorem ne_genesis (hgenesis : genesis.number = 0) {child : BlockHeader}
    (hfits : parent.number.toNat + 1 < 2 ^ 64) (hnumber : child.number = parent.number + 1) :
    child ≠ genesis := by
  rintro rfl
  have hzero := congrArg BitVec.toNat (hnumber.symm.trans hgenesis)
  rw [BitVec.toNat_add, show (1 : U64).toNat = 1 from rfl, Nat.mod_eq_of_lt hfits] at hzero
  exact absurd hzero (Nat.succ_ne_zero _)

theorem number_of_validateHeader {child : BlockHeader}
    (h : validateHeaderForStorage O s parent child = .ok ()) :
    child.number = parent.number + 1 := by
  simp only [validateHeaderForStorage, liftConsensus, mapError_eq_ok] at h
  exact (validateHeaderWithGenesis_eq_ok.mp h).number

/-- **The work of a new candidate**, from its parent or from the branch it ends. -/
theorem WorkInvariant.source (h : WorkInvariant O genesis seen s) (hgenesis : genesis.number = 0)
    (hplaced : Placed seen block) (hsource : WorkSource O s block work) :
    Recorded O genesis seen (block.header.hash O) work := by
  rcases hsource with ⟨parent, hparent, hvalid, hwork⟩ | ⟨branch, ancestorWork, hbranch, hwork, rfl⟩
  · obtain ⟨-, parentWork, hparentWork, hrecorded⟩ := h.branchWork hgenesis hparent
    obtain ⟨_, hread, hsum⟩ := bind_eq_ok.mp hwork
    obtain rfl := Except.ok.inj (hparentWork.symm.trans hread)
    obtain rfl := pure_eq_ok.mp hsum
    have hne := ne_genesis hgenesis (h.bodies.blockByHash hparent).2 (number_of_validateHeader hvalid)
    exact hrecorded.child rfl hne hplaced.1
  · obtain ⟨⟨root, canonical, hassembled⟩, -⟩ := candidateBranch_path hbranch
    obtain ⟨hrow, hhash⟩ := canonicalRow_eq_some.mp hassembled.row
    obtain ⟨hnumber, rowWork, hrowWork, hrecorded⟩ := h.row hgenesis hrow
    rw [hassembled.height, hnumber, hrowWork] at hwork
    obtain rfl := Except.ok.inj hwork
    rw [hhash] at hrecorded
    have hseen : ∀ b ∈ branch.suffix, seen b.header := fun b hb =>
      (h.bodies.candidateBranch hplaced hbranch b hb).1
    exact hrecorded.branch hassembled.path.isChain hgenesis hseen hassembled.path.getLast?

/-! ## Every write keeps the records -/

theorem Inserted.imp {I J : SledStorage → Prop} (himp : ∀ s, I s → J s) (h : Inserted O I s block) :
    Inserted O J s block := by
  rcases h with ⟨hnone, hnumber, s₀, h₀, hhead⟩ | hext
  · exact .inl ⟨hnone, hnumber, s₀, himp s₀ h₀, hhead⟩
  · exact .inr hext

theorem WorkInvariant.congr (h : WorkInvariant O genesis seen s) (hconsistent : Consistent O s')
    (hbodies : BodiesIn (Placed seen) s') (hblocks : s'.blocks = s.blocks)
    (hheaders : s'.headers = s.headers) (hbest : s'.bestNumber = s.bestNumber)
    (hworks : ∀ (hash : Hash256) (work : U128), s'.candidateWorks[hash]? = some work →
      s.candidateWorks[hash]? = some work) (hspool : s'.recoverySpool = s.recoverySpool) :
    WorkInvariant O genesis seen s' := by
  refine ⟨hconsistent, hbodies, h.chain.congr hblocks hheaders hbest, ?_, ?_⟩
  · intro hash work hwork
    exact h.works hash work (hworks hash work hwork)
  · rw [hspool]
    exact h.spool

/-- **No write of the import path breaks a record.** -/
theorem chainInvariant_work (hgenesis : genesis.number = 0) :
    ChainInvariant O (Placed seen) (WorkInvariant O genesis seen) where
  bodies s h := h.bodies
  view s s' h hview := by
    have hworks : s'.candidateWorks = s.candidateWorks := congrArg ChainView.candidateWorks hview
    refine h.congr (chainInvariant_consistent.view s s' h.consistent hview)
      ((chainInvariant_bodiesIn (O := O) _).view s s' h.bodies hview)
      (congrArg ChainView.blocks hview) (congrArg ChainView.headers hview)
      (congrArg ChainView.bestNumber hview) (fun _ _ hwork => by rwa [hworks] at hwork)
      (congrArg ChainView.recoverySpool hview)
  insertBlock s block h hplaced hinserted :=
    ⟨h.consistent.insertBlock block,
      (chainInvariant_bodiesIn _).insertBlock s block h.bodies hplaced
        (hinserted.imp fun _ => WorkInvariant.bodies),
      h.chain.insertBlock hgenesis hplaced.2 (hinserted.imp fun _ => WorkInvariant.chain), h.works,
      h.spool⟩
  removeOrphan s hash h :=
    h.congr (chainInvariant_consistent.removeOrphan s hash h.consistent)
      ((chainInvariant_bodiesIn (O := O) _).removeOrphan s hash h.bodies) rfl rfl rfl (fun _ _ => id) rfl
  storeOrphan s s' block h hplaced hs' := by
    have hconsistent := chainInvariant_consistent.storeOrphan s s' block h.consistent trivial hs'
    have hbodies := (chainInvariant_bodiesIn _).storeOrphan s s' block h.bodies hplaced hs'
    obtain ⟨orphans, rfl, -⟩ := storeOrphanBlock_eq_ok hs'
    exact h.congr hconsistent hbodies rfl rfl rfl (fun _ _ => id) rfl
  storeCandidate s s' block work h hplaced hsource hs' := by
    have hconsistent :=
      chainInvariant_consistent.storeCandidate s s' block work h.consistent trivial hsource hs'
    have hbodies :=
      (chainInvariant_bodiesIn _).storeCandidate s s' block work h.bodies hplaced hsource hs'
    have hrecorded := h.source hgenesis hplaced hsource
    obtain rfl := storeCandidateBlock_eq_ok hs'
    exact ⟨hconsistent, hbodies, h.chain.congr rfl rfl rfl, Map.forall_insert h.works hrecorded,
      h.spool⟩
  clearCandidates s h := by
    refine h.congr (chainInvariant_consistent.clearCandidates s h.consistent)
      ((chainInvariant_bodiesIn (O := O) _).clearCandidates s h.bodies) rfl rfl rfl ?_ rfl
    intro hash work hwork
    exact absurd hwork (by simp [SledStorage.clearCandidateBlocks])
  removeCandidates s hashes h := by
    -- one hash after the other
    refine List.foldlRecOn (motive := WorkInvariant O genesis seen) hashes _ h fun s hs hash _ => ?_
    exact hs.congr (chainInvariant_consistent.removeCandidates s [hash] hs.consistent)
      ((chainInvariant_bodiesIn (O := O) _).removeCandidates s [hash] hs.bodies) rfl rfl rfl
      (Map.forall_erase fun _ _ => id) rfl
  quarantine s hash reason h :=
    h.congr (chainInvariant_consistent.quarantine s hash reason h.consistent)
      ((chainInvariant_bodiesIn (O := O) _).quarantine s hash reason h.bodies) rfl rfl rfl
      (fun _ _ => id) rfl
  clearCanonical s h :=
    ⟨chainInvariant_consistent.clearCanonical s h.consistent,
      (chainInvariant_bodiesIn (O := O) _).clearCanonical s h.bodies, .inl ⟨rfl, rfl⟩, h.works, h.spool⟩
  publish s s' ancestor replacement native evm totals h hplaced hs' := by
    have hconsistent := chainInvariant_consistent.publish s s' ancestor replacement native evm totals
      h.consistent (fun _ _ => trivial) hs'
    have hbodies := (chainInvariant_bodiesIn _).publish s s' ancestor replacement native evm totals
      h.bodies hplaced hs'
    obtain ⟨best, tip, removed, hpublished⟩ := publishCanonicalSuffix_eq_ok hs'
    obtain ⟨-, -, hworks, hspool⟩ := replaceSuffix_frame s removed replacement
    have hworks' : s'.candidateWorks = s.candidateWorks :=
      (congrArg ChainView.candidateWorks hpublished.view).trans hworks
    have hspool' : s'.recoverySpool = s.recoverySpool :=
      (congrArg ChainView.recoverySpool hpublished.view).trans hspool
    refine ⟨hconsistent, hbodies, h.chain.publish hs' fun b hb => (hplaced b hb).2, ?_, ?_⟩
    · rw [hworks']
      exact h.works
    · rw [hspool']
      exact h.spool

/-! ## The spool -/

theorem recoveryParent_cases (h : recoveryParent O s expectedHeight block = .ok (parent, work)) :
    (∃ found, (canonicalParent O s expectedHeight block = some found ∨
        s.blockByHash O block.header.parentHash = .ok found) ∧ found.header = parent ∧
        ∀ w, branchWork s (found.header.hash O) found.header.number = .ok w → work = w) ∨
      ∃ found, s.recoveryBlockByHash block.header.parentHash = .ok (found, work) ∧
        found.header = parent := by
  unfold recoveryParent at h
  dsimp only at h
  split at h
  next found hlookup =>
    refine .inl ⟨found, ?_, ?_⟩
    · split at hlookup
      next canonical hcanonical =>
        obtain rfl := pure_eq_ok.mp hlookup
        exact .inl hcanonical
      next => exact .inr hlookup
    · unfold branchWork
      cases hcandidate : s.candidateWork (found.header.hash O) with
      | ok candidateWork =>
        simp only [hcandidate] at h
        obtain ⟨rfl, rfl⟩ := Prod.mk.inj (pure_eq_ok.mp h)
        exact ⟨rfl, fun w hw => pure_eq_ok.mp hw⟩
      | error e =>
        simp only [hcandidate] at h
        refine ⟨?_, fun w hw => ?_⟩
        · split at h
          · exact (Prod.mk.inj (pure_eq_ok.mp h)).1
          · exact (Prod.mk.inj (pure_eq_ok.mp h)).1
        · dsimp only at hw
          rw [hw] at h
          exact (Prod.mk.inj (pure_eq_ok.mp h)).2.symm
  next =>
    split at h
    next found spooled hspool =>
      obtain ⟨rfl, rfl⟩ := Prod.mk.inj (pure_eq_ok.mp h)
      exact .inr ⟨found, hspool, rfl⟩
    next => exact absurd h throw_ne_ok

/-- **The parent of a recovered body has its record**, in the pool, on the chain or in the spool. -/
theorem WorkInvariant.recoveryParent (h : WorkInvariant O genesis seen s)
    (hgenesis : genesis.number = 0)
    (hparent : recoveryParent O s expectedHeight block = .ok (parent, work)) :
    Recorded O genesis seen block.header.parentHash work ∧ parent.number.toNat + 1 < 2 ^ 64 := by
  rcases recoveryParent_cases hparent with ⟨found, hfound, rfl, hwork⟩ | ⟨found, hfound, rfl⟩
  · rcases hfound with hcanonical | hfound
    · unfold canonicalParent at hcanonical
      split at hcanonical
      next => exact absurd hcanonical (Option.some_ne_none found).symm
      next =>
        obtain ⟨hrow, hhash⟩ := Option.filter_eq_some_iff.mp hcanonical
        obtain ⟨w, hw, hrecorded⟩ := h.branchWork_row hgenesis hrow
        obtain rfl := hwork w hw
        rw [of_decide_eq_true hhash] at hrecorded
        exact ⟨hrecorded, (h.bodies.blocks _ found hrow).2⟩
    · obtain ⟨hhash, w, hw, hrecorded⟩ := h.branchWork hgenesis hfound
      rw [← hhash] at hw
      obtain rfl := hwork w hw
      exact ⟨hrecorded, (h.bodies.blockByHash hfound).2⟩
  · have hbody := orNotFound_eq_ok.mp hfound
    exact ⟨(h.spool _ _ hbody).2, (h.bodies.spool _ found work hbody).2⟩

/-- **The work of a recovered body.** -/
theorem WorkInvariant.validateRecoveryBlock (h : WorkInvariant O genesis seen s)
    (hgenesis : genesis.number = 0) {H : Host} {expectedParentHash : Hash256}
    (hseen : seen block.header)
    (hvalid : validateRecoveryBlock O config H s expectedHeight expectedParentHash block = .ok work) :
    Recorded O genesis seen (block.header.hash O) work := by
  simp only [Blq.validateRecoveryBlock, throw_bind, bind_eq_ok, ite_throw_eq_ok, pure_eq_ok] at hvalid
  obtain ⟨_, -, _, -, -, -, ⟨parent, parentWork⟩, hparent, _, hheader, _, -, -, rfl⟩ := hvalid
  obtain ⟨hrecorded, hfits⟩ := h.recoveryParent hgenesis hparent
  exact hrecorded.child rfl (ne_genesis hgenesis hfits (number_of_validateHeader hheader)) hseen

variable {spool : RecoverySpool}

theorem spoolRow_injective {tip tip' : Hash256} {number number' : U64}
    (h : spoolRow tip number = spoolRow tip' number') : tip = tip' ∧ number = number' := by
  have htip := congrArg (BitVec.extractLsb' 64 256) h
  have hnumber := congrArg (BitVec.extractLsb' 0 64) h
  simp only [spoolRow, BitVec.extractLsb'_append_eq_left, BitVec.extractLsb'_append_eq_right] at htip hnumber
  exact ⟨htip, hnumber⟩

theorem tip_spoolRow (tip : Hash256) (number : U64) :
    (spoolRow tip number).extractLsb' 64 256 = tip := BitVec.extractLsb'_append_eq_left

/-- Every body of the spool stands in a slot of its height, with its record, and is found by its
hash. -/
structure SpoolWork (O : Oracle) (genesis : BlockHeader) (seen : BlockHeader → Prop)
    (spool : RecoverySpool) : Prop where
  sound : SpoolSound O spool
  slot : ∀ (row : SpoolRow) (body : Block × U128), spool.rows[row]? = some body →
    ∃ tip, row = spoolRow tip body.1.header.number
  placed : ∀ (row : SpoolRow) (body : Block × U128), spool.rows[row]? = some body →
    Placed seen body.1
  recorded : ∀ (row : SpoolRow) (body : Block × U128), spool.rows[row]? = some body →
    Recorded O genesis seen (body.1.header.hash O) body.2

theorem SpoolWork.store (h : SpoolWork O genesis seen spool) {tipHash : Hash256}
    (hfree : spool.SlotFree O tipHash block) (hplaced : Placed seen block)
    (hrecorded : Recorded O genesis seen (block.header.hash O) work) :
    SpoolWork O genesis seen (spool.storeRecoveryBlock O tipHash block work) := by
  exact ⟨h.sound.store work hfree, Map.forall_insert h.slot ⟨tipHash, rfl⟩,
    Map.forall_insert h.placed hplaced, Map.forall_insert h.recorded hrecorded⟩

theorem SpoolWork.mono (h : SpoolWork O genesis seen spool) {spool' : RecoverySpool}
    (hsound : SpoolSound O spool') (hrows : ∀ (row : SpoolRow) (body : Block × U128),
      spool'.rows[row]? = some body → spool.rows[row]? = some body) :
    SpoolWork O genesis seen spool' :=
  ⟨hsound, fun row body hbody => h.slot row body (hrows row body hbody),
    fun row body hbody => h.placed row body (hrows row body hbody),
    fun row body hbody => h.recorded row body (hrows row body hbody)⟩

theorem SpoolWork.repairIndex (h : SpoolWork O genesis seen spool) (hash : Hash256) :
    SpoolWork O genesis seen (spool.repairIndex O hash) := by
  refine h.mono (h.sound.repairIndex hash) fun row body hbody => ?_
  unfold RecoverySpool.repairIndex at hbody
  split at hbody <;> exact hbody

theorem SpoolWork.clear (h : SpoolWork O genesis seen spool) (tipHash : Hash256) :
    SpoolWork O genesis seen (spool.clearRecoveryBlocksForTip O tipHash) := by
  refine h.mono (h.sound.clear tipHash) ?_
  unfold RecoverySpool.clearRecoveryBlocksForTip
  refine List.foldlRecOn (motive := fun spool' : RecoverySpool => ∀ (row : SpoolRow)
    (body : Block × U128), spool'.rows[row]? = some body → spool.rows[row]? = some body) _ _
    (fun _ _ => id) ?_
  intro spool' hrows entry _
  exact Map.forall_erase hrows

theorem SpoolWork.same_height (h : SpoolWork O genesis seen spool) {tipHash : Hash256}
    {entry entry' : SpoolRow × Block × U128} (hentry : entry ∈ spool.recoveryBlocksForTip tipHash)
    (hentry' : entry' ∈ spool.recoveryBlocksForTip tipHash)
    (hnumber : entry.2.1.header.number = entry'.2.1.header.number) : entry.2 = entry'.2 := by
  have hrow : ∀ e ∈ spool.recoveryBlocksForTip tipHash, e.1 = spoolRow tipHash e.2.1.header.number := by
    intro e he
    obtain ⟨tip, htip⟩ := h.slot e.1 e.2 (mem_rows_of_job he)
    have hjob := of_decide_eq_true (List.mem_filter.mp he).2
    rw [htip, tip_spoolRow] at hjob
    rw [htip, hjob]
  have hbody := mem_rows_of_job hentry
  rw [hrow entry hentry, hnumber, ← hrow entry' hentry', mem_rows_of_job hentry'] at hbody
  exact (Option.some.inj hbody).symm

/-- **The bodies of another job**, as long as their slots are free. What the earlier ones have
filled is at other heights. -/
theorem SpoolWork.mergeJob (h : SpoolWork O genesis seen spool) {movedTip spoolTip : Hash256}
    (hfree : ∀ entry ∈ spool.recoveryBlocksForTip movedTip, spool.SlotFree O spoolTip entry.2.1) :
    SpoolWork O genesis seen (spool.mergeJob O movedTip spoolTip) := by
  unfold RecoverySpool.mergeJob
  have hfold := List.foldlRecOn (motive := fun spool' => SpoolWork O genesis seen spool' ∧
      ∀ (row : SpoolRow) (body : Block × U128), spool'.rows[row]? = some body →
        spool.rows[row]? = some body ∨ ∃ entry ∈ spool.recoveryBlocksForTip movedTip,
          row = spoolRow spoolTip entry.2.1.header.number ∧ body = entry.2)
    (spool.recoveryBlocksForTip movedTip)
    (fun spool entry => spool.storeRecoveryBlock O spoolTip entry.2.1 entry.2.2)
    ⟨h, fun _ _ => .inl⟩ ?_
  · exact hfold.1
  · rintro spool' ⟨hwork, hrows⟩ entry hentry
    have hbody := mem_rows_of_job hentry
    have hslot : spool'.SlotFree O spoolTip entry.2.1 := by
      intro old work hold
      rcases hrows _ _ hold with hbefore | ⟨entry', hentry', hrow, hsame⟩
      · exact hfree entry hentry old work hbefore
      · have hnumber := (spoolRow_injective hrow).2
        rw [h.same_height hentry hentry' hnumber, ← hsame]
    exact ⟨hwork.store hslot (h.placed _ _ hbody) (h.recorded _ _ hbody),
      Map.forall_insert hrows (.inr ⟨entry, hentry, rfl, rfl⟩)⟩

/-! ## Runs -/

/-- **Every record of the node is the work of the path to its hash.** -/
structure FullWork (O : Oracle) (genesis : BlockHeader) (seen : BlockHeader → Prop) (n : FullNode) :
    Prop where
  node : NodeInvariant (Placed seen) (WorkInvariant O genesis seen) n.toNode
  spool : SpoolWork O genesis seen n.spool

/-- The operation gives no slot of the spool to a body of another hash. -/
def Ingestion.KeepsSlots (O : Oracle) (spool : RecoverySpool) : Ingestion → Prop
  | .recoveryImport _ tipHash _ _ block => spool.SlotFree O tipHash block
  | .mergeJob movedTip spoolTip =>
    ∀ entry ∈ spool.recoveryBlocksForTip movedTip, spool.SlotFree O spoolTip entry.2.1
  | _ => True

variable {n : FullNode}

theorem FullWork.withSpool (h : FullWork O genesis seen n) (hspool : SpoolWork O genesis seen spool) :
    FullWork O genesis seen (n.withSpool O spool) := by
  obtain ⟨hstorage, hrecovering⟩ := h.node
  have hfound : ∀ (hash : Hash256) (body : Block × U128), (spool.byHash O)[hash]? = some body →
      body.1.header.hash O = hash ∧ Placed seen body.1 ∧ Recorded O genesis seen hash body.2 := by
    refine RecoverySpool.byHash_cases (P := fun hash body => body.1.header.hash O = hash ∧
      Placed seen body.1 ∧ Recorded O genesis seen hash body.2) (fun row body hrow => ?_)
      fun hash row body hindex hrow => ?_
    · exact ⟨rfl, hspool.placed row body hrow, hspool.recorded row body hrow⟩
    · obtain ⟨block, work, hheld, hhash⟩ := hspool.sound hash row hindex
      obtain rfl := Option.some.inj (hheld.symm.trans hrow)
      refine ⟨hhash, hspool.placed row (block, work) hrow, ?_⟩
      rw [← hhash]
      exact hspool.recorded row (block, work) hrow
  refine ⟨⟨⟨?_, ?_, hstorage.chain.congr rfl rfl rfl, hstorage.works, ?_⟩, hrecovering⟩, hspool⟩
  · exact ⟨hstorage.consistent.chain, hstorage.consistent.orphans, hstorage.consistent.candidates⟩
  · exact ⟨hstorage.bodies.blocks, hstorage.bodies.orphans, hstorage.bodies.candidates,
      fun hash block work hbody => (hfound hash (block, work) hbody).2.1⟩
  · intro hash body hbody
    obtain ⟨hhash, -, hrecorded⟩ := hfound hash body hbody
    exact ⟨hhash, hrecorded⟩

/-- **One operation keeps the records**, whether it succeeds or fails. -/
theorem FullWork.ingest (h : FullWork O genesis seen n) (hgenesis : genesis.number = 0)
    {op : Ingestion} (hbrings : op.Brings O config (Placed seen))
    (hslots : op.KeepsSlots O n.spool) : FullWork O genesis seen (n.ingest O R config op) := by
  cases honSpool : op.OnSpool with
  | false =>
    obtain ⟨hnode, hsame⟩ :=
      h.node.ingest (R := R) (chainInvariant_work hgenesis) hbrings honSpool
    exact ⟨hnode, by rw [hsame]; exact h.spool⟩
  | true =>
    cases op with
    | recoveryImport H tipHash expectedHeight expectedParentHash block =>
      simp only [FullNode.ingest]
      split
      next n' hn' =>
        obtain ⟨work, hwork, hn'⟩ := bind_eq_ok.mp hn'
        obtain rfl := pure_eq_ok.mp hn'
        have hplaced : Placed seen block := hbrings (authorised_of_validateRecoveryBlock hwork)
        have hrecorded := h.node.storage.validateRecoveryBlock hgenesis hplaced.1 hwork
        exact h.withSpool (h.spool.store hslots hplaced hrecorded)
      next => exact h
    | repairIndex hash => exact h.withSpool (h.spool.repairIndex hash)
    | mergeJob movedTip spoolTip => exact h.withSpool (h.spool.mergeJob hslots)
    | clearJob tipHash => exact h.withSpool (h.spool.clear tipHash)
    | _ => exact absurd honSpool Bool.noConfusion

/-- The nodes that are reached from genesis by blocks whose headers are among `seen`, below the last
height, as long as no slot of the spool is given to a body of another hash. -/
inductive WorkRun (O : Oracle) (R : Revm) (config : NodeConfig) (genesis : BlockHeader)
    (seen : BlockHeader → Prop) : FullNode → Prop
  | start (s : SledStorage) (mempool : Mempool)
      (hstart : initializeGenesisForConfig O R genesis {} = .ok () s) :
      WorkRun O R config genesis seen (.start s mempool)
  | step (n : FullNode) (op : Ingestion) (h : WorkRun O R config genesis seen n)
      (hbrings : op.Brings O config (Placed seen)) (hslots : op.KeepsSlots O n.spool) :
      WorkRun O R config genesis seen (n.ingest O R config op)

theorem workInvariant_genesis (hgenesis : genesis.number = 0) (hseen : seen genesis) :
    WorkInvariant O genesis seen (({} : SledStorage).insertBlock ⟨genesis, [], []⟩) := by
  have hplaced : Placed seen ⟨genesis, [], []⟩ := by
    refine ⟨hseen, ?_⟩
    show genesis.number.toNat + 1 < 2 ^ 64
    rw [hgenesis]
    decide
  have hconsistent : Consistent O ({} : SledStorage) :=
    ⟨chainConsistent_empty, ⟨by simp, by simp⟩, ⟨by simp, by simp⟩⟩
  refine ⟨hconsistent.insertBlock _, ?_, .inr ⟨[], linkedCanonical_first rfl hgenesis⟩, ?_, ?_⟩
  · exact ⟨Map.entriesIn_empty.insert hplaced, Map.entriesIn_empty, Map.entriesIn_empty, by simp
      [SledStorage.insertBlock, SledStorage.putHeader]⟩
  · simp [SledStorage.insertBlock, SledStorage.putHeader]
  · simp [SledStorage.insertBlock, SledStorage.putHeader]

theorem WorkRun.fullWork (h : WorkRun O R config genesis seen n) (hgenesis : genesis.number = 0)
    (hseen : seen genesis) : FullWork O genesis seen n := by
  induction h with
  | start s mempool hstart =>
    have hstorage := (chainInvariant_work (O := O) hgenesis).view _ _
      (workInvariant_genesis hgenesis hseen) (chainView_of_insertBlock hstart)
    refine ⟨⟨hstorage, by simp [FullNode.start]⟩, ⟨?_, ?_, ?_, ?_⟩⟩
    · exact fun _ _ hindex => absurd hindex (by simp [FullNode.start])
    · exact fun _ _ hrow => absurd hrow (by simp [FullNode.start])
    · exact fun _ _ hrow => absurd hrow (by simp [FullNode.start])
    · exact fun _ _ hrow => absurd hrow (by simp [FullNode.start])
  | step n op _ hbrings hslots ih => exact ih.ingest hgenesis hbrings hslots

/-- The work of the parent path of a hash, through headers of `seen`. Any other path to that hash
would have a header that collides with one of it. -/
def PathWork (O : Oracle) (genesis : BlockHeader) (seen : BlockHeader → Prop) (hash : Hash256)
    (work : U128) : Prop :=
  ∃ path, ParentPath O genesis hash path ∧ (∀ header ∈ path, seen header) ∧ work = pathWork path ∧
    ∀ path', ParentPath O genesis hash path' →
      path' = path ∨ ∃ a ∈ path', ∃ b ∈ path, Collide O a b

theorem Recorded.pathWork {hash : Hash256} (h : Recorded O genesis seen hash work) :
    PathWork O genesis seen hash work := by
  obtain ⟨path, hpath, hseen, hwork⟩ := h
  exact ⟨path, hpath, hseen, hwork, fun path' => hpath.unique⟩

/-- **In every such run, every candidate and every spooled body is recorded with the work of its
parent path**, wherever its parents were when it was stored and whatever became of the chain. -/
theorem recorded_work_exact (hgenesis : genesis.number = 0) (hseen : seen genesis)
    (h : WorkRun O R config genesis seen n) :
    (∀ (hash : Hash256) (block : Block), n.storage.candidates[hash]? = some block →
      block.header.hash O = hash ∧ ∃ work, n.storage.candidateWorks[hash]? = some work ∧
        PathWork O genesis seen hash work) ∧
    ∀ (block : Block) (work : U128), n.spool.Holds block work →
      PathWork O genesis seen (block.header.hash O) work := by
  obtain ⟨⟨hstorage, -⟩, hspool⟩ := h.fullWork hgenesis hseen
  constructor
  · intro hash block hblock
    obtain ⟨hhash, work, hwork, hrecorded⟩ := hstorage.candidate hblock
    exact ⟨hhash, work, hwork, hrecorded.pathWork⟩
  · rintro block work ⟨row, hrow⟩
    exact (hspool.recorded row (block, work) hrow).pathWork

/-! ## A slot that is overwritten -/

/-- A body on top of the first block, with the target that would be required on top of the fast
one. -/
def strayBody : Block where
  header := { (childOf fastBlock.header 8).header with
    parentHash := firstBlock.header.hash nonceOracle }
  transactions := []
  receipts := []

def strayHeaders : List BlockHeader :=
  [genesisHeader nonceOracle, firstBlock.header, fastBlock.header, strayBody.header]

def spoolingNode (bodies : List (U64 × Hash256 × Block)) : FullNode :=
  (bodies.map fun (height, parentHash, block) =>
    Ingestion.recoveryImport openHost 9 height parentHash block).foldl
    (FullNode.ingest nonceOracle noContracts plainConfig) (.start startNode.storage {})

theorem spoolingNode_concat (bodies : List (U64 × Hash256 × Block)) (height : U64)
    (parentHash : Hash256) (block : Block) :
    spoolingNode (bodies ++ [(height, parentHash, block)]) =
      (spoolingNode bodies).ingest nonceOracle noContracts plainConfig
        (.recoveryImport openHost 9 height parentHash block) := by
  unfold spoolingNode
  rw [List.map_append, List.foldl_append]
  rfl

theorem recorded_work_exact_secondBlock :
    PathWork nonceOracle (genesisHeader nonceOracle)
      (fun header => header ∈ secondBlock.header :: strayHeaders)
      (secondBlock.header.hash nonceOracle) 48 := by
  have hrun : WorkRun nonceOracle noContracts plainConfig (genesisHeader nonceOracle)
      (fun header => header ∈ secondBlock.header :: strayHeaders)
      (spoolingNode ([] ++ [(1, 0, firstBlock)] ++ [(2, 1, secondBlock)])) := by
    rw [spoolingNode_concat, spoolingNode_concat]
    refine .step _ _ (.step _ _ (.start _ {} startNode_started) ?_ ?_) ?_ ?_
    · exact fun _ => ⟨by simp [strayHeaders], by decide +kernel⟩
    · intro old work hold
      exact absurd hold (by simp [spoolingNode, FullNode.start])
    · exact fun _ => ⟨by simp, by decide +kernel⟩
    · have hfree : ((spoolingNode []).ingest nonceOracle noContracts plainConfig
          (.recoveryImport openHost 9 1 0 firstBlock)).spool.rows[spoolRow 9 2]? = none := by
        decide +kernel
      intro old work hold
      exact absurd (hfree.symm.trans hold) (by simp)
  exact (recorded_work_exact rfl (by simp [strayHeaders]) hrun).2 secondBlock 48
    ⟨spoolRow 9 2, by decide +kernel⟩

/-- **The work of another branch.** The fast block takes the slot of the first one; the body on top
of the first one is then recorded with the work of the fast one, 38 and not 32, below its own. -/
theorem overwritten_slot_work :
    (spoolingNode [(1, 0, firstBlock), (1, 0, fastBlock), (2, 1, strayBody)]).spool.Holds strayBody 60 ∧
    ParentPath nonceOracle (genesisHeader nonceOracle) (strayBody.header.hash nonceOracle)
      [genesisHeader nonceOracle, firstBlock.header, strayBody.header] ∧
    pathWork [genesisHeader nonceOracle, firstBlock.header, strayBody.header] = 54 ∧
    ¬PathWork nonceOracle (genesisHeader nonceOracle) (fun header => header ∈ strayHeaders)
      (strayBody.header.hash nonceOracle) 60 := by
  have hpath : ParentPath nonceOracle (genesisHeader nonceOracle) (strayBody.header.hash nonceOracle)
      ([genesisHeader nonceOracle] ++ [firstBlock.header] ++ [strayBody.header]) := by
    have hparent : firstBlock.header.parentHash = (genesisHeader nonceOracle).hash nonceOracle := by
      decide +kernel
    have hstray : strayBody.header.parentHash = firstBlock.header.hash nonceOracle := by decide +kernel
    refine .child strayBody.header ?_ (by decide +kernel)
    rw [hstray]
    refine .child firstBlock.header ?_ (by decide +kernel)
    rw [hparent]
    exact .genesis
  rw [List.singleton_append, List.cons_append, List.singleton_append] at hpath
  have hwork : pathWork [genesisHeader nonceOracle, firstBlock.header, strayBody.header] = 54 := by
    decide +kernel
  -- the four headers have four hashes
  have hdistinct : ∀ a ∈ strayHeaders, ∀ b ∈ strayHeaders,
      a.hash nonceOracle = b.hash nonceOracle → a = b := by decide +kernel
  refine ⟨⟨spoolRow 9 2, by decide +kernel⟩, hpath, hwork, ?_⟩
  rintro ⟨path, -, hseen, hsum, hunique⟩
  rcases hunique _ hpath with rfl | ⟨a, ha, b, hb, hne, hhash⟩
  · rw [hwork] at hsum
    exact absurd hsum (by decide)
  · have hknown : ∀ header ∈ [genesisHeader nonceOracle, firstBlock.header, strayBody.header],
        header ∈ strayHeaders := by decide +kernel
    exact hne (hdistinct a (hknown a ha) b (hseen b hb) hhash)

end Blq
