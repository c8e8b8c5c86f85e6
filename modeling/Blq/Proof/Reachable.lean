import Blq.Proof.ChainInvariant
import Blq.Spec.Ingestion

/-!
# Reachable nodes

A node starts from its genesis block, receives blocks in any order, from peers, miners and files,
whatever the imports return, and runs the recoveries they start; the host's answers may change at
every step. A recovery may have put any authorised bodies into its spool. Pruning is no step.

* `keeps_rpcSubmitBlock`, `keeps_importBlock`: submissions and files keep what imports keep.
* `Reachable.induct`: what every import keeps holds in every reachable node.
* `Reachable.consistent`: headers and bodies agree, every block stands under its height or
  hash, and the orphan pool stays within its bound.
-/

namespace Blq

open Word Result

variable {O : Oracle} {R : Revm} {config : NodeConfig}

/-! ## Submissions and files -/

section Operations

variable {H : Host} {B : Block → Prop} {I : SledStorage → Prop} (hI : ChainInvariant O B I)

include hI

variable {m : Node} {s : SledStorage} {block : Block}

omit hI in
theorem keeps_bestHeaderOrPaused {message : String} (hm : NodeInvariant B I m) :
    Keeps (NodeInvariant B I) (bestHeaderOrPaused message) m fun header m' =>
      m' = m ∧ m.storage.bestHeader = .ok header := by
  unfold bestHeaderOrPaused
  refine keeps_get_bind ?_
  split
  next header hheader => exact keeps_pure hm ⟨rfl, hheader⟩
  next => exact keeps_ite_throw hm fun _ => keeps_throw hm

theorem keeps_publishReplacement {replacement : Option CandidateBranch} (hm : NodeInvariant B I m)
    (hB : ∀ branch, replacement = some branch → ∀ b ∈ branch.suffix, B b) :
    Keeps (NodeInvariant B I) (publishReplacement O R config H replacement) m fun _ _ => True := by
  unfold publishReplacement
  cases replacement with
  | none => exact keeps_pure hm trivial
  | some branch =>
    have hsuffix := hB branch rfl
    exact (hm.keeps_onStorage
      (keeps_stageAndPublishCandidate hI hm.storage fun b hb _ => hsuffix b hb)).trivial

theorem keeps_submitCompeting (hm : NodeInvariant B I m) (hB : B block) :
    Keeps (NodeInvariant B I) (submitCompeting O R config H block) m fun _ _ => True := by
  unfold submitCompeting
  refine (hm.keeps_onStorage
    (keeps_queueCompetingBlockPending hI.toDrainInvariant hm.storage fun _ => hB)).bind
    fun replacement m₁ hm₁ hreplacement => ?_
  refine (hm₁.keeps_onStorage
    (keeps_drainPasses hI.toDrainInvariant _ hm₁.storage)).bind fun _ m₂ hm₂ _ => ?_
  refine (keeps_publishReplacement hI hm₂ hreplacement).bind fun _ m₃ hm₃ _ => ?_
  have hgossip : NodeInvariant B I (m₃.enqueueBlockGossip block) := ⟨hm₃.storage, hm₃.recovering⟩
  refine keeps_modify_bind ((keeps_bestHeaderOrPaused hgossip).bind fun current m₄ hm₄ _ => ?_)
  exact keeps_pure hm₄ trivial

theorem keeps_submitExtension {parent : BlockHeader} (hm : NodeInvariant B I m) (hB : B block)
    (hbest : m.storage.bestHeader = .ok parent) :
    Keeps (NodeInvariant B I) (submitExtension O R config H parent block) m fun _ _ => True := by
  unfold submitExtension
  refine keeps_get_bind (keeps_runExcept_bind hm fun _ hvalid => keeps_runExcept_bind hm fun _ _ => ?_)
  have hinserted : Inserted O I m.storage block :=
    .inr ⟨parent, hbest, extends_of_validateExtension hvalid⟩
  refine (hm.keeps_onStorage
    (keeps_insertBlock hI.toDrainInvariant hm.storage hB hinserted)).bind fun _ m₁ hm₁ _ => ?_
  exact keeps_modify_bind (keeps_pure ⟨hm₁.storage, hm₁.recovering⟩ trivial)

/-- **A submission keeps the invariant**, wherever it is answered. -/
theorem keeps_rpcSubmitBlock {M : SubmissionHost} (hm : NodeInvariant B I m)
    (hB : Authorised O config block → B block) :
    Keeps (NodeInvariant B I) (rpcSubmitBlock O R config H M block) m fun _ _ => True := by
  unfold rpcSubmitBlock
  refine keeps_runExcept_bind hm fun _ _ => keeps_runExcept_bind hm fun _ hauth => ?_
  replace hB := hB hauth
  split
  · exact keeps_throw hm
  · exact keeps_pure hm trivial
  · refine (keeps_bestHeaderOrPaused hm).bind fun parent m' _ hread => ?_
    obtain ⟨rfl, hparent⟩ := hread
    refine keeps_get_bind ?_
    split
    · exact keeps_pure hm trivial
    · refine keeps_ite (fun _ => ?_) fun _ => ?_
      · exact keeps_submitExtension hI hm hB hparent
      · exact keeps_submitCompeting hI hm hB

omit hI in
theorem keeps_backfillReward {number : U64} {s₀ : SledStorage} (h : s.chainView = s₀.chainView) :
    Keeps (fun s' => s'.chainView = s₀.chainView) (backfillReward O number) s fun _ _ => True := by
  have hindexed : ∀ s' : SledStorage, s'.chainView = s₀.chainView →
      Keeps (fun s' => s'.chainView = s₀.chainView)
        (modify fun s => s.setRewardIndexedTo number : StoreM Unit) s' fun _ _ => True :=
    fun s' h' => keeps_modify h' trivial
  unfold backfillReward
  refine keeps_readStore_bind h fun block _ => keeps_ite (fun _ => ?_) fun _ => ?_
  · refine keeps_readStore_bind h fun timestamp _ => keeps_get_bind ?_
    refine keeps_runExcept_bind h fun result _ => ?_
    have hput := keeps_putAccounts (ε := NodeError) result.1.toList s
    exact (hput.imp fun _ h' => h'.trans h).bind fun _ s' h' _ => hindexed s' h'
  · exact hindexed s h

omit hI in
theorem keeps_backfillRewards (s : SledStorage) :
    Keeps (fun s' => s'.chainView = s.chainView) (backfillRewards O) s fun _ _ => True := by
  unfold backfillRewards
  refine keeps_get_bind ?_
  split
  · exact keeps_pure rfl trivial
  · exact keeps_throw rfl
  · refine keeps_ite (fun _ => keeps_pure rfl trivial) fun _ => ?_
    refine keeps_ite (fun _ => keeps_modify rfl trivial) fun _ => ?_
    exact keeps_forM rfl trivial fun number _ s' h' _ => keeps_backfillReward h'

/-- The import command writes the block once the chain rules are met, signed or not. -/
theorem keeps_importBlock {verifyExpectedGenesis : SledStorage → Except NodeError Unit} (h : I s)
    (hB : B block) :
    Keeps I (importBlock O R config H verifyExpectedGenesis block) s fun _ _ => True := by
  unfold importBlock
  refine keeps_get_bind (keeps_runExcept_bind h fun _ _ => ?_)
  refine (keeps_of_view hI h (keeps_backfillRewards s)).bind fun _ s' h' _ => ?_
  refine keeps_readStore_bind h' fun parent hparent => keeps_get_bind ?_
  refine keeps_runExcept_bind h' fun _ hvalid => keeps_runExcept_bind h' fun _ _ => ?_
  refine keeps_runExcept_bind h' fun _ _ => keeps_runExcept_bind h' fun _ _ => ?_
  have hext := extends_of_validateBlock (mapError_eq_ok.mp (mapError_eq_ok.mp hvalid))
  exact (keeps_insertBlock hI.toDrainInvariant h' hB (.inr ⟨parent, hparent, hext⟩)).trivial

end Operations

/-! ## Runs -/

def Node.deliver (O : Oracle) (R : Revm) (config : NodeConfig) (H : Host) (n : Node) (block : Block) :
    Node :=
  finalState (importNetworkBlock O R config H block) n

/-- The nodes that can be reached; the mempool belongs to other handlers too. -/
inductive Reachable (O : Oracle) (R : Revm) (config : NodeConfig) : Node → Prop
  | start (genesis : BlockHeader) (s : SledStorage) (m : Mempool) : genesis.number = 0 →
      initializeGenesisForConfig O R genesis {} = .ok () s → Reachable O R config ⟨s, m, [], none⟩
  | deliver (n : Node) (H : Host) (block : Block) : Reachable O R config n →
      Reachable O R config (n.deliver O R config H block)
  | submit (n : Node) (H : Host) (M : SubmissionHost) (block : Block) : Reachable O R config n →
      Reachable O R config (finalState (rpcSubmitBlock O R config H M block) n)
  | importFile (n : Node) (H : Host) (verifyExpectedGenesis : SledStorage → Except NodeError Unit)
      (block : Block) : Authorised O config block → Reachable O R config n →
      Reachable O R config ⟨finalState (importBlock O R config H verifyExpectedGenesis block) n.storage,
        n.mempool, [], none⟩
  | recover (n : Node) (H : Host) : Reachable O R config n →
      Reachable O R config (n.finishRecovery O R config H)
  | spool (n : Node) (spool : Map Hash256 (Block × U128)) :
      (∀ (hash : Hash256) block work, spool[hash]? = some (block, work) → Authorised O config block) →
      Reachable O R config n →
      Reachable O R config { n with storage := { n.storage with recoverySpool := spool } }
  | mempool (n : Node) (m : Mempool) : Reachable O R config n →
      Reachable O R config { n with mempool := m }

/-- **The invariant rule for runs of the node.** -/
theorem Reachable.induct {B : Block → Prop} {I : SledStorage → Prop} (hI : ChainInvariant O B I)
    (hB : ∀ block, Authorised O config block → B block)
    (hspool : ∀ (s : SledStorage) (spool : Map Hash256 (Block × U128)), I s →
      (∀ (hash : Hash256) block work, spool[hash]? = some (block, work) → B block) →
      I { s with recoverySpool := spool })
    (hstart : ∀ genesis : BlockHeader, genesis.number = 0 →
      I (({} : SledStorage).insertBlock ⟨genesis, [], []⟩)) {n : Node}
    (h : Reachable O R config n) : NodeInvariant B I n := by
  induction h with
  | start genesis s m hnumber hrun =>
    exact ⟨hI.view _ _ (hstart genesis hnumber) (chainView_of_insertBlock hrun), by simp⟩
  | deliver n H block _ ih =>
    exact (keeps_importNetworkBlock hI ih (hB block)).final
  | submit n H M block _ ih => exact (keeps_rpcSubmitBlock hI ih (hB block)).final
  | importFile n H verifyExpectedGenesis block hauth _ ih =>
    exact ⟨(keeps_importBlock hI ih.storage (hB block hauth)).final, by rintro tip ⟨⟩⟩
  | recover n H _ ih => exact ih.finishRecovery hI
  | spool n spool hauth _ ih =>
    exact ⟨hspool _ spool ih.storage fun hash block work h => hB block (hauth hash block work h),
      ih.recovering⟩
  | mempool n m _ ih => exact ⟨ih.storage, ih.recovering⟩

/-! ## Consistent databases -/

/-- The bodies stand under their heights and the headers are those of the bodies. -/
structure ChainConsistent (blocks : Map U64 Block) (headers : Map U64 BlockHeader) : Prop where
  number : ∀ (k : U64) (b : Block), blocks[k]? = some b → b.header.number = k
  header : ∀ k : U64, headers[k]? = (blocks[k]?).map Block.header

/-- The orphans stand under their hashes and are not too many. -/
structure OrphansConsistent (O : Oracle) (orphans : Map Hash256 Block) : Prop where
  hash : ∀ (h : Hash256) (b : Block), orphans[h]? = some b → b.header.hash O = h
  size : orphans.size ≤ SledStorage.maxOrphans

/-- The candidates stand under their hashes, each with its cumulative work. -/
structure CandidatesConsistent (O : Oracle) (candidates : Map Hash256 Block)
    (works : Map Hash256 U128) : Prop where
  hash : ∀ (h : Hash256) (b : Block), candidates[h]? = some b → b.header.hash O = h
  work : ∀ h : Hash256, (works[h]?).isSome = (candidates[h]?).isSome

structure Consistent (O : Oracle) (s : SledStorage) : Prop where
  chain : ChainConsistent s.blocks s.headers
  orphans : OrphansConsistent O s.orphans
  candidates : CandidatesConsistent O s.candidates s.candidateWorks

variable {s s' : SledStorage}

section Chain

variable {blocks : Map U64 Block} {headers : Map U64 BlockHeader}

theorem chainConsistent_empty : ChainConsistent ∅ ∅ := ⟨by simp, by simp⟩

theorem ChainConsistent.insert (h : ChainConsistent blocks headers) (block : Block) :
    ChainConsistent (blocks.insert block.header.number block)
      (headers.insert block.header.number block.header) := by
  refine ⟨Map.forall_insert h.number rfl, fun k => ?_⟩
  rw [Map.getElem?_insert_eq, Map.getElem?_insert_eq]
  split
  · rfl
  · exact h.header k

theorem ChainConsistent.erase (h : ChainConsistent blocks headers) (number : U64) :
    ChainConsistent (blocks.erase number) (headers.erase number) := by
  refine ⟨Map.forall_erase h.number, fun k => ?_⟩
  rw [Map.getElem?_erase_eq, Map.getElem?_erase_eq]
  split
  · rfl
  · exact h.header k

theorem replaceSuffix_rec {P : SledStorage → Prop} {replacement : List Block} (h : P s)
    (hremove : ∀ s block, P s → P (s.removeBlock block))
    (hput : ∀ s, ∀ block ∈ replacement, P s → P (s.putBlock block)) (removed : List Block) :
    P (s.replaceSuffix removed replacement) := by
  refine List.foldlRecOn replacement _ ?_ fun s hs block hblock => hput s block hblock hs
  exact List.foldlRecOn removed _ h fun s hs block _ => hremove s block hs

/-- Erasing the old suffix and writing the new one, block by block. -/
theorem chainConsistent_replaceSuffix (h : ChainConsistent s.blocks s.headers)
    (removed replacement : List Block) :
    ChainConsistent (s.replaceSuffix removed replacement).blocks
      (s.replaceSuffix removed replacement).headers := by
  exact replaceSuffix_rec (P := fun s => ChainConsistent s.blocks s.headers) h
    (fun _ block hs => hs.erase block.header.number) (fun _ block _ hs => hs.insert block) removed

end Chain

section Pools

variable {orphans candidates : Map Hash256 Block} {works : Map Hash256 U128}

theorem OrphansConsistent.erase (h : OrphansConsistent O orphans) (hash : Hash256) :
    OrphansConsistent O (orphans.erase hash) :=
  ⟨Map.forall_erase h.hash, Std.ExtTreeMap.size_erase_le.trans h.size⟩

theorem OrphansConsistent.insert (h : OrphansConsistent O orphans) (block : Block)
    (hroom : orphans.size < SledStorage.maxOrphans) :
    OrphansConsistent O (orphans.insert (block.header.hash O) block) := by
  refine ⟨Map.forall_insert h.hash rfl, ?_⟩
  have hsize := Std.ExtTreeMap.size_insert_le (t := orphans) (k := block.header.hash O) (v := block)
  omega

theorem OrphansConsistent.storeOrphanBlock (h : OrphansConsistent O s.orphans) {block : Block}
    (hs' : s.storeOrphanBlock O block = .ok s') : OrphansConsistent O s'.orphans := by
  simp only [SledStorage.storeOrphanBlock, throw_bind, ite_throw_eq_ok, pure_eq_ok] at hs'
  obtain ⟨-, rfl⟩ := hs'
  dsimp only
  split
  next hfull =>
    split
    next oldest rest horphans =>
      have hmem : oldest ∈ s.orphanBlocks := by rw [horphans]; simp
      obtain ⟨hash, hhash⟩ := mem_orphanBlocks.mp hmem
      have hkey : oldest.header.hash O = hash := h.hash hash oldest hhash
      refine (h.erase _).insert block ?_
      have hcontains : oldest.header.hash O ∈ s.orphans := by
        rw [hkey]
        exact Std.ExtTreeMap.mem_iff_isSome_getElem?.mpr (by simp [hhash])
      have hsize : (s.orphans.erase (oldest.header.hash O)).size = s.orphans.size - 1 := by
        rw [Std.ExtTreeMap.size_erase, if_pos (Std.ExtTreeMap.contains_iff_mem.mpr hcontains)]
      have hpos : 0 < SledStorage.maxOrphans := by decide
      have := h.size
      omega
    next hnil =>
      -- a full pool has a first orphan
      have hlength : s.orphanBlocks.length = s.orphans.size := by
        unfold SledStorage.orphanBlocks
        rw [List.length_insertionSort, List.length_map, Std.ExtTreeMap.length_toList]
      rw [hnil] at hlength
      have hmax : SledStorage.maxOrphans = 128 := rfl
      simp only [List.length_nil] at hlength
      omega
  next hroom => exact h.insert block (by omega)

theorem CandidatesConsistent.erase (h : CandidatesConsistent O candidates works) (hash : Hash256) :
    CandidatesConsistent O (candidates.erase hash) (works.erase hash) := by
  refine ⟨Map.forall_erase h.hash, fun k => ?_⟩
  rw [Map.getElem?_erase_eq, Map.getElem?_erase_eq]
  split
  · rfl
  · exact h.work k

theorem CandidatesConsistent.insert (h : CandidatesConsistent O candidates works) (block : Block)
    (work : U128) :
    CandidatesConsistent O (candidates.insert (block.header.hash O) block)
      (works.insert (block.header.hash O) work) := by
  refine ⟨Map.forall_insert h.hash rfl, fun k => ?_⟩
  rw [Map.getElem?_insert_eq, Map.getElem?_insert_eq]
  split
  · rfl
  · exact h.work k

end Pools

section Instances

/-- What `publish_canonical_suffix` checks and writes. -/
structure SuffixPublished (O : Oracle) (s s' : SledStorage) (ancestor : BlockHeader)
    (replacement : List Block) (best : BlockHeader) (tip : Block) (removed : List Block) : Prop where
  current : s.bestHeader = .ok best
  below : ancestor.number.toNat ≤ best.number.toNat
  stored : ∃ stored, s.headerByNumber ancestor.number = .ok stored ∧ stored.hash O = ancestor.hash O
  contiguous : SledStorage.checkContiguous O (SledStorage.notContiguous O) ancestor replacement = .ok ()
  last : replacement.getLast? = some tip
  bodies : (SledStorage.heights (saturatingAdd ancestor.number 1) best.number).mapM s.blockByNumber =
    .ok removed
  view : s'.chainView =
    { (s.replaceSuffix removed replacement).chainView with bestNumber := some tip.header.number }

theorem publishCanonicalSuffix_eq_ok {ancestor : BlockHeader} {replacement : List Block}
    {native : NativeAccounts} {evm : EvmStateSnapshot} {totals : U64 × U128 × U128}
    (h : s.publishCanonicalSuffix O ancestor replacement native evm totals = .ok s') :
    ∃ best tip removed, SuffixPublished O s s' ancestor replacement best tip removed := by
  simp only [SledStorage.publishCanonicalSuffix, throw_bind, bind_eq_ok, ite_throw_eq_ok, not_lt,
    not_not, gt_iff_lt] at h
  obtain ⟨best, hbest, hle, stored, hstored, hhash, _, hlinked, h⟩ := h
  split at h
  next tip htip =>
    simp only [bind_eq_ok, pure_eq_ok] at h
    obtain ⟨removed, hremoved, rfl⟩ := h
    exact ⟨best, tip, removed, hbest, hle, ⟨stored, hstored, hhash⟩, hlinked, htip, hremoved, rfl⟩
  next => exact absurd h throw_ne_ok

namespace SuffixPublished

variable {ancestor best : BlockHeader} {replacement removed : List Block} {tip : Block}
  (h : SuffixPublished O s s' ancestor replacement best tip removed)

include h

theorem blocks : s'.blocks = (s.replaceSuffix removed replacement).blocks :=
  congrArg ChainView.blocks h.view

theorem headers : s'.headers = (s.replaceSuffix removed replacement).headers :=
  congrArg ChainView.headers h.view

theorem bestNumber : s'.bestNumber = some tip.header.number := congrArg ChainView.bestNumber h.view

end SuffixPublished

theorem storeOrphanBlock_eq_ok {block : Block} (h : s.storeOrphanBlock O block = .ok s') :
    ∃ orphans, s' = { s with orphans := orphans } ∧
      ∀ (k : Hash256) (b : Block), orphans[k]? = some b → b = block ∨ s.orphans[k]? = some b := by
  simp only [SledStorage.storeOrphanBlock, throw_bind, ite_throw_eq_ok, pure_eq_ok] at h
  obtain ⟨-, rfl⟩ := h
  refine ⟨_, rfl, Map.forall_insert (fun k b hb => .inr ?_) (.inl rfl)⟩
  split at hb
  · split at hb
    · exact Map.forall_erase (fun _ _ => id) k b hb
    · exact hb
  · exact hb

theorem storeCandidateBlock_eq_ok {block : Block} {work : U128}
    (h : s.storeCandidateBlock O block work = .ok s') :
    s' = { s with
      candidates := s.candidates.insert (block.header.hash O) block
      candidateWorks := s.candidateWorks.insert (block.header.hash O) work } := by
  simp only [SledStorage.storeCandidateBlock, throw_bind, ite_throw_eq_ok, pure_eq_ok] at h
  exact h.2.2.symm

theorem replaceSuffix_frame (s : SledStorage) (removed replacement : List Block) :
    (s.replaceSuffix removed replacement).orphans = s.orphans ∧
      (s.replaceSuffix removed replacement).candidates = s.candidates ∧
      (s.replaceSuffix removed replacement).candidateWorks = s.candidateWorks ∧
      (s.replaceSuffix removed replacement).recoverySpool = s.recoverySpool := by
  exact replaceSuffix_rec (P := fun s' => s'.orphans = s.orphans ∧ s'.candidates = s.candidates ∧
    s'.candidateWorks = s.candidateWorks ∧ s'.recoverySpool = s.recoverySpool) ⟨rfl, rfl, rfl, rfl⟩
    (fun _ _ hs' => hs') (fun _ _ _ hs' => hs') removed

theorem Consistent.insertBlock (h : Consistent O s) (block : Block) :
    Consistent O (s.insertBlock block) := ⟨h.chain.insert block, h.orphans, h.candidates⟩

theorem Consistent.congr (h : Consistent O s) {best : Option U64}
    (hview : s'.chainView = { s.chainView with bestNumber := best }) : Consistent O s' := by
  simp only [SledStorage.chainView, ChainView.mk.injEq] at hview
  obtain ⟨-, hheaders, hblocks, horphans, hcandidates, hworks, -, -⟩ := hview
  refine ⟨?_, ?_, ?_⟩
  · rw [hblocks, hheaders]
    exact h.chain
  · rw [horphans]
    exact h.orphans
  · rw [hcandidates, hworks]
    exact h.candidates

/-- **The database stays consistent.** -/
theorem chainInvariant_consistent : ChainInvariant O (fun _ => True) (Consistent O) where
  bodies _ _ := ⟨fun _ _ _ => trivial, fun _ _ _ => trivial, fun _ _ _ => trivial,
    fun _ _ _ _ => trivial⟩
  view s s' h hview := h.congr hview
  insertBlock s block h _ _ := h.insertBlock block
  removeOrphan s hash h := ⟨h.chain, h.orphans.erase hash, h.candidates⟩
  storeOrphan s s' block h _ hs' := by
    have horphans := h.orphans.storeOrphanBlock hs'
    obtain ⟨orphans, rfl, -⟩ := storeOrphanBlock_eq_ok hs'
    exact ⟨h.chain, horphans, h.candidates⟩
  storeCandidate s s' block work h _ _ hs' := by
    obtain rfl := storeCandidateBlock_eq_ok hs'
    exact ⟨h.chain, h.orphans, h.candidates.insert block work⟩
  clearCandidates s h := ⟨h.chain, h.orphans, ⟨by simp [SledStorage.clearCandidateBlocks],
    by simp [SledStorage.clearCandidateBlocks]⟩⟩
  removeCandidates s hashes h := by
    refine List.foldlRecOn (motive := Consistent O) hashes _ h fun s hs hash _ => ?_
    exact ⟨hs.chain, hs.orphans, hs.candidates.erase hash⟩
  quarantine s hash reason h := ⟨h.chain, h.orphans, h.candidates⟩
  clearCanonical s h := ⟨chainConsistent_empty, h.orphans, h.candidates⟩
  publish s s' ancestor replacement native evm totals h _ hs' := by
    obtain ⟨best, tip, removed, hpublished⟩ := publishCanonicalSuffix_eq_ok hs'
    obtain ⟨horphans, hcandidates, hworks, -⟩ := replaceSuffix_frame s removed replacement
    refine Consistent.congr ⟨chainConsistent_replaceSuffix h.chain removed replacement, ?_, ?_⟩
      hpublished.view
    · rw [horphans]
      exact h.orphans
    · rw [hcandidates, hworks]
      exact h.candidates

theorem BodiesIn.congr {B : Block → Prop} (h : BodiesIn B s) {best : Option U64}
    (hview : s'.chainView = { s.chainView with bestNumber := best }) : BodiesIn B s' := by
  simp only [SledStorage.chainView, ChainView.mk.injEq] at hview
  obtain ⟨-, -, hblocks, horphans, hcandidates, -, -, hspool⟩ := hview
  refine ⟨?_, ?_, ?_, ?_⟩
  · rw [hblocks]
    exact h.blocks
  · rw [horphans]
    exact h.orphans
  · rw [hcandidates]
    exact h.candidates
  · rw [hspool]
    exact h.spool

/-- **No block comes from anywhere but the deliveries.** -/
theorem chainInvariant_bodiesIn (B : Block → Prop) : ChainInvariant O B (BodiesIn B) where
  bodies _ h := h
  view s s' h hview := h.congr hview
  insertBlock s block h hB _ := ⟨h.blocks.insert hB, h.orphans, h.candidates, h.spool⟩
  removeOrphan s hash h := ⟨h.blocks, h.orphans.erase, h.candidates, h.spool⟩
  storeOrphan s s' block h hB hs' := by
    obtain ⟨orphans, rfl, horphans⟩ := storeOrphanBlock_eq_ok hs'
    refine ⟨h.blocks, fun k b hb => ?_, h.candidates, h.spool⟩
    rcases horphans k b hb with rfl | hb
    · exact hB
    · exact h.orphans k b hb
  storeCandidate s s' block work h hB _ hs' := by
    obtain rfl := storeCandidateBlock_eq_ok hs'
    exact ⟨h.blocks, h.orphans, h.candidates.insert hB, h.spool⟩
  clearCandidates s h := ⟨h.blocks, h.orphans, Map.entriesIn_empty, h.spool⟩
  removeCandidates s hashes h := by
    refine List.foldlRecOn (motive := BodiesIn B) hashes _ h fun s hs hash _ => ?_
    exact ⟨hs.blocks, hs.orphans, hs.candidates.erase, hs.spool⟩
  quarantine s hash reason h := ⟨h.blocks, h.orphans, h.candidates, h.spool⟩
  clearCanonical s h := ⟨Map.entriesIn_empty, h.orphans, h.candidates, h.spool⟩
  publish s s' ancestor replacement native evm totals h hB hs' := by
    obtain ⟨best, tip, removed, hpublished⟩ := publishCanonicalSuffix_eq_ok hs'
    obtain ⟨horphans, hcandidates, -, hspool⟩ := replaceSuffix_frame s removed replacement
    have hblocks : Map.EntriesIn B (s.replaceSuffix removed replacement).blocks :=
      replaceSuffix_rec (P := fun s => Map.EntriesIn B s.blocks) h.blocks (fun _ _ hs => hs.erase)
        (fun _ block hblock hs => hs.insert (hB block hblock)) removed
    refine BodiesIn.congr ⟨hblocks, ?_, ?_, ?_⟩ hpublished.view
    · rw [horphans]
      exact h.orphans
    · rw [hcandidates]
      exact h.candidates
    · rw [hspool]
      exact h.spool

end Instances

theorem Reachable.consistent {n : Node} (h : Reachable O R config n) : Consistent O n.storage := by
  refine (h.induct chainInvariant_consistent (fun _ _ => trivial)
    (fun s _ hs _ => ⟨hs.chain, hs.orphans, hs.candidates⟩) fun genesis _ => ?_).storage
  have horphans : OrphansConsistent O ({} : SledStorage).orphans := ⟨by simp, by decide⟩
  have hcandidates : CandidatesConsistent O ({} : SledStorage).candidates
      ({} : SledStorage).candidateWorks := ⟨by simp, by simp⟩
  exact ⟨chainConsistent_empty.insert _, horphans, hcandidates⟩

theorem Reachable.authorised {n : Node} (h : Reachable O R config n) :
    BodiesIn (Authorised O config) n.storage :=
  (h.induct (chainInvariant_bodiesIn _) (fun _ hB => hB)
    (fun s _ hs hspool => { hs with spool := hspool }) fun genesis _ =>
    ⟨Map.entriesIn_empty.insert rfl, Map.entriesIn_empty, Map.entriesIn_empty,
      fun _ _ _ hspool => absurd hspool (by simp [SledStorage.insertBlock, SledStorage.putHeader])⟩).storage

end Blq
