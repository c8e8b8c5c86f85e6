import Blq.Proof.BranchPath
import Blq.Proof.Validation
import Blq.Spec.Import

/-!
# What an import can do to the database

An import and the recovery it starts reach the blocks of the database only through a few
writes, listed in `ChainInvariant`: a property of the chain, the orphans and the candidates
that survives each of them survives every import, failed ones included.

* `keeps_importNetworkBlock`: one import.
* `NodeInvariant.finishRecovery`: the recovery thread.
-/

namespace Blq

open Word Result

/-! ## The chain part of the database -/

/-- Everything but the accounts and the indexes. -/
@[ext] structure ChainView where
  bestNumber : Option U64
  headers : Map U64 BlockHeader
  blocks : Map U64 Block
  orphans : Map Hash256 Block
  candidates : Map Hash256 Block
  candidateWorks : Map Hash256 U128
  quarantine : Map Hash256 String
  recoverySpool : Map Hash256 (Block × U128)

def SledStorage.chainView (s : SledStorage) : ChainView where
  bestNumber := s.bestNumber
  headers := s.headers
  blocks := s.blocks
  orphans := s.orphans
  candidates := s.candidates
  candidateWorks := s.candidateWorks
  quarantine := s.quarantine
  recoverySpool := s.recoverySpool

/-- Every block body in the database meets `B`. -/
structure BodiesIn (B : Block → Prop) (s : SledStorage) : Prop where
  blocks : Map.EntriesIn B s.blocks
  orphans : Map.EntriesIn B s.orphans
  candidates : Map.EntriesIn B s.candidates
  spool : ∀ (h : Hash256) (b : Block) (w : U128), s.recoverySpool[h]? = some (b, w) → B b

def Authorised (O : Oracle) (config : NodeConfig) (block : Block) : Prop :=
  validateBlockTransactionAuth O config.requireSignedTransactions block = .ok ()

/-- The block is the first one or extends the tip. -/
def Follows (O : Oracle) (s : SledStorage) (block : Block) : Prop :=
  (s.bestNumber = none ∧ block.header.number = 0) ∨
    ∃ parent, s.bestHeader = .ok parent ∧ extendsHeader O parent block = true

/-- The block extends the tip, or it is the first one of a chain that is written again. -/
def Inserted (O : Oracle) (I : SledStorage → Prop) (s : SledStorage) (block : Block) : Prop :=
  (s.bestNumber = none ∧ block.header.number = 0 ∧
      ∃ s₀, I s₀ ∧ s₀.canonicalBlocks.head? = some block) ∨
    ∃ parent, s.bestHeader = .ok parent ∧ extendsHeader O parent block = true

variable {s s' : SledStorage} {block tip : Block} {branch : CandidateBranch}
  {replacement : List Block} {parent : BlockHeader} {n : Node}

theorem Inserted.follows {O : Oracle} {I : SledStorage → Prop} (h : Inserted O I s block) :
    Follows O s block :=
  h.imp (fun hfirst => ⟨hfirst.1, hfirst.2.1⟩) id

/-- Where the work of a candidate comes from: the work of its parent, or that of its ancestor and the
branch above it. -/
def WorkSource (O : Oracle) (s : SledStorage) (block : Block) (work : U128) : Prop :=
  (∃ parent, s.blockByHash O block.header.parentHash = .ok parent ∧
      validateHeaderForStorage O s parent.header block.header = .ok () ∧
      competingWork s parent.header block.header = .ok work) ∨
    ∃ branch ancestorWork, candidateBranchFromStorage O s block = .ok branch ∧
      canonicalWorkThroughNodeStorage s branch.commonHeight = .ok ancestorWork ∧
      work = branch.suffix.foldl (fun work block => addWork work block.header) ancestorWork

/-- A property of the chain part that the drain of the orphan pool keeps; the blocks that may be
written meet `B`. -/
structure DrainInvariant (O : Oracle) (B : Block → Prop) (I : SledStorage → Prop) : Prop where
  bodies : ∀ s, I s → BodiesIn B s
  view : ∀ s s', I s → s'.chainView = s.chainView → I s'
  insertBlock : ∀ s block, I s → B block → Inserted O I s block → I (s.insertBlock block)
  removeOrphan : ∀ s hash, I s → I (s.removeOrphanBlock hash)
  storeOrphan : ∀ s s' block, I s → B block → s.storeOrphanBlock O block = .ok s' → I s'
  storeCandidate : ∀ s s' block work, I s → B block → WorkSource O s block work →
    s.storeCandidateBlock O block work = .ok s' → I s'
  clearCanonical : ∀ s, I s → I s.clearCanonicalState

/-- A property that no write of the import path breaks. -/
structure ChainInvariant (O : Oracle) (B : Block → Prop) (I : SledStorage → Prop) : Prop
    extends DrainInvariant O B I where
  clearCandidates : ∀ s, I s → I s.clearCandidateBlocks
  removeCandidates : ∀ s hashes, I s → I (s.removeCandidateBlocks hashes)
  quarantine : ∀ s hash reason, I s → I (s.quarantineCandidateTip hash reason)
  publish : ∀ s s' ancestor replacement native evm totals, I s → (∀ b ∈ replacement, B b) →
    s.publishCanonicalSuffix O ancestor replacement native evm totals = .ok s' → I s'

section Lookups

variable {O : Oracle} {B : Block → Prop} {s : SledStorage} {b : Block}

theorem mem_orphanBlocks : b ∈ s.orphanBlocks ↔ ∃ h : Hash256, s.orphans[h]? = some b := by
  unfold SledStorage.orphanBlocks
  rw [List.mem_insertionSort]
  exact Map.mem_map_snd_toList

theorem mem_canonicalBlocks : b ∈ s.canonicalBlocks ↔ ∃ k : U64, s.blocks[k]? = some b := by
  unfold SledStorage.canonicalBlocks
  rw [List.mem_insertionSort]
  exact Map.mem_map_snd_toList

theorem orNotFound_eq_ok {α : Type} {x : Option α} {a : α} : orNotFound x = .ok a ↔ x = some a := by
  unfold orNotFound
  cases x <;> simp

theorem BodiesIn.blockByHash (h : BodiesIn B s) {hash : Hash256} (hb : s.blockByHash O hash = .ok b) :
    B b := by
  unfold SledStorage.blockByHash at hb
  split at hb
  next block hfind =>
    obtain rfl := pure_eq_ok.mp hb
    obtain ⟨k, hk⟩ := mem_canonicalBlocks.mp (List.mem_of_find?_eq_some hfind)
    exact h.blocks k _ hk
  next => exact h.candidates hash b (orNotFound_eq_ok.mp hb)

theorem BodiesIn.recoveryBlockByHash (h : BodiesIn B s) {hash : Hash256} {w : U128}
    (hb : s.recoveryBlockByHash hash = .ok (b, w)) : B b :=
  h.spool hash b w (orNotFound_eq_ok.mp hb)

theorem BodiesIn.branchParent (h : BodiesIn B s) {current : Block}
    (hb : branchParent O s current = .ok b) : B b := by
  obtain ⟨hparent, -⟩ := branchParent_eq_ok.mp hb
  unfold branchBlock at hparent
  split at hparent
  next hspool =>
    obtain rfl := pure_eq_ok.mp hparent
    exact h.recoveryBlockByHash hspool
  next =>
    split at hparent
    next hblock =>
      obtain rfl := pure_eq_ok.mp hparent
      exact h.blockByHash hblock
    next => exact absurd hparent throw_ne_ok

end Lookups

/-! ## Inserting a block -/

section Insert

variable {O : Oracle} {R : Revm}

theorem keeps_persistRevmState (state : RevmState) (s : SledStorage) :
    Keeps (fun s' => s'.chainView = s.chainView) (persistRevmState state) s
      fun _ s' => s'.chainView = s.chainView := by
  unfold persistRevmState
  refine keeps_forM rfl rfl fun entry _ s' hs' _ => ?_
  obtain ⟨address, account⟩ := entry
  simp only
  split
  next balance _ => exact keeps_modify hs' hs'
  next => exact keeps_throw hs'

theorem keeps_putAccounts {ε : Type} (accounts : List (Address × Bix × U64)) (s : SledStorage) :
    Keeps (fun s' => s'.chainView = s.chainView)
      (accounts.forM fun (address, balance, nonce) =>
        modify fun s => s.putAccount address balance nonce : EStateM ε SledStorage PUnit) s
      fun _ s' => s'.chainView = s.chainView :=
  keeps_forM rfl rfl fun _ _ _ hs' _ => keeps_modify hs' hs'

theorem keeps_persistHistoricalEvmSnapshot (number : U64) (s : SledStorage) :
    Keeps (fun s' => s'.chainView = s.chainView) (persistHistoricalEvmSnapshot number) s
      fun _ s' => s'.chainView = s.chainView := by
  unfold persistHistoricalEvmSnapshot
  exact keeps_ite (fun _ => keeps_pure rfl rfl) fun _ => keeps_modify rfl rfl

/-- **An insertion either leaves the database alone or adds the block to the chain**, whatever
happens to the accounts after that. -/
theorem keeps_nodeInsertBlock (block : Block) (s : SledStorage) :
    Keeps (fun s' => s' = s ∨ s'.chainView = (s.insertBlock block).chainView)
      (nodeInsertBlock O R block) s fun _ s' => s'.chainView = (s.insertBlock block).chainView := by
  -- what follows the writing of the accounts
  have hrest : ∀ s' : SledStorage, s'.chainView = (s.insertBlock block).chainView →
      Keeps (fun s' => s' = s ∨ s'.chainView = (s.insertBlock block).chainView)
        ((modify fun s => s.setRewardIndexedTo block.header.number) >>= fun _ =>
          persistHistoricalEvmSnapshot block.header.number) s'
        fun _ s' => s'.chainView = (s.insertBlock block).chainView := by
    intro s' hs'
    refine keeps_modify_bind ?_
    have hkeep := keeps_persistHistoricalEvmSnapshot block.header.number
      (s'.setRewardIndexedTo block.header.number)
    exact (hkeep.imp fun _ h => .inr (h.trans hs')).mono fun _ _ _ h => h.trans hs'
  unfold nodeInsertBlock
  dsimp only
  refine keeps_get_bind (keeps_runExcept_bind (.inl rfl) fun timestamp _ => ?_)
  split
  · refine keeps_runExcept_bind (.inl rfl) fun simulation _ => keeps_modify_bind ?_
    refine Keeps.bind ?_ fun _ s' _ hs' => hrest s' hs'
    exact (keeps_persistRevmState simulation.state (s.insertBlock block)).imp fun _ => .inr
  · refine keeps_runExcept_bind (.inl rfl) fun simulation _ => ?_
    obtain ⟨accounts, _, _⟩ := simulation
    refine keeps_modify_bind (Keeps.bind ?_ fun _ s' _ hs' => hrest s' hs')
    exact (keeps_putAccounts accounts.toList (s.insertBlock block)).imp fun _ => .inr

theorem keeps_insertBlock {B : Block → Prop} {I : SledStorage → Prop} (hI : DrainInvariant O B I)
    (h : I s) (hB : B block) (hinserted : Inserted O I s block) :
    Keeps I (insertBlock O R block) s fun _ s' => s'.chainView = (s.insertBlock block).chainView := by
  refine ((keeps_nodeInsertBlock block s).imp ?_).adaptExcept _
  rintro s' (rfl | hs')
  · exact h
  · exact hI.view _ _ (hI.insertBlock s block h hB hinserted) hs'

theorem chainView_of_insertBlock (h : insertBlock O R block s = .ok () s') :
    s'.chainView = (s.insertBlock block).chainView :=
  (((keeps_nodeInsertBlock block s).adaptExcept _).of_ok h).2

end Insert

/-! ## Branches -/

section Branches

variable {O : Oracle} {B : Block → Prop} {s : SledStorage}

theorem BodiesIn.candidateBranch (h : BodiesIn B s) (htip : B tip)
    (hb : candidateBranchFromStorage O s tip = .ok branch) : ∀ b ∈ branch.suffix, B b := by
  obtain ⟨⟨root, canonical, hassembled⟩, -⟩ := candidateBranch_path hb
  exact (hassembled.path.forall htip fun _ _ => h.branchParent).2

theorem BodiesIn.candidateReplacement (h : BodiesIn B s) {previous : List Block} (htip : B tip)
    (hb : candidateReplacement O s tip previous = .ok branch) : ∀ b ∈ branch.suffix, B b := by
  obtain ⟨⟨root, hpath⟩, -⟩ := replacementFrom_path .start hb
  exact (hpath.forall htip fun _ _ => h.branchParent).2

/-- A replacement is made of canonical blocks and blocks of the branch. -/
theorem BodiesIn.materialize (h : BodiesIn B s) (hbranch : ∀ b ∈ branch.suffix, B b)
    (hr : materializeCandidateReplacement O branch s.canonicalBlocks = .ok replacement) :
    ∀ b ∈ replacement, B b := by
  simp only [materializeCandidateReplacement, throw_bind] at hr
  split at hr
  · simp only [ite_throw_eq_ok, pure_eq_ok] at hr
    obtain ⟨-, rfl⟩ := hr
    intro b hb
    rcases List.mem_append.mp hb with hb | hb
    · obtain ⟨k, hk⟩ := mem_canonicalBlocks.mp (List.mem_of_mem_take hb)
      exact h.blocks k b hk
    · exact hbranch b hb
  · exact absurd hr throw_ne_ok

theorem head?_of_materialize {canonical : List Block}
    (hr : materializeCandidateReplacement O branch canonical = .ok replacement) :
    replacement.head? = canonical.head? := by
  simp only [materializeCandidateReplacement, throw_bind] at hr
  split at hr
  · simp only [ite_throw_eq_ok, pure_eq_ok] at hr
    obtain ⟨-, rfl⟩ := hr
    cases canonical with
    | nil => contradiction
    | cons first rest => rfl
  · exact absurd hr throw_ne_ok

theorem extendsHeader_iff :
    extendsHeader O parent block = true ↔
      block.header.parentHash = parent.hash O ∧ block.header.number = parent.number + 1 := by
  simp [extendsHeader]

theorem extends_of_validateBlock {genesisHash : Hash256} {activation : Option U64}
    (h : validateBlockWithGenesisAndActivation O parent block genesisHash activation = .ok ()) :
    extendsHeader O parent block = true := by
  have haccepted := validateBlock_eq_ok.mp h
  exact extendsHeader_iff.mpr ⟨haccepted.parentHash, haccepted.header.number⟩

theorem extends_of_validateExtension {R : Revm} {config : NodeConfig}
    (h : validateExtension O R config s parent block = .ok ()) :
    extendsHeader O parent block = true := by
  simp only [validateExtension, validateBlockForStorage, liftConsensus, bind_eq_ok,
    mapError_eq_ok] at h
  obtain ⟨_, hblock, -⟩ := h
  exact extends_of_validateBlock hblock

end Branches

/-! ## Reading and writing -/

section Store

variable {α : Type} {I : SledStorage → Prop} {s : SledStorage}

theorem onStorage_apply_of_ok {x : StoreM α} {a : α} (h : x n.storage = .ok a s') :
    onStorage x n = .ok a (n.withStorage s') := by
  unfold onStorage
  rw [h]

theorem onStorage_apply_of_error {x : StoreM α} {e : NodeError} (h : x n.storage = .error e s') :
    onStorage x n = .error e (n.withStorage s') := by
  unfold onStorage
  rw [h]

theorem readStore_apply_of_ok {f : SledStorage → Except StorageError α} {a : α}
    (h : f s = .ok a) : readStore f s = .ok a s := by
  show runExcept (liftStorage (f s)) s = _
  rw [h]
  rfl

theorem readStore_apply_of_error {f : SledStorage → Except StorageError α} {e : StorageError}
    (h : f s = .error e) : readStore f s = .error (.storage e) s := by
  show runExcept (liftStorage (f s)) s = _
  rw [h]
  rfl

variable {f : SledStorage → Except StorageError SledStorage}

theorem writeStore_apply_of_ok (h : f s = .ok s') : writeStore f s = .ok () s' := by
  show (runExcept (liftStorage (f s)) >>= fun s' => set s' : StoreM Unit) s = _
  rw [h]
  rfl

theorem writeStore_apply_of_error {e : StorageError} (h : f s = .error e) :
    writeStore f s = .error (.storage e) s := by
  show (runExcept (liftStorage (f s)) >>= fun s' => set s' : StoreM Unit) s = _
  rw [h]
  rfl

theorem readStore_bind_of_ok {β : Type} {f : SledStorage → Except StorageError α} {a : α}
    {g : α → StoreM β} (h : f s = .ok a) : (readStore f >>= g) s = g a s :=
  bind_apply_of_ok (readStore_apply_of_ok h)

theorem onStorage_readStore_bind {β : Type} {f : SledStorage → Except StorageError α} {a : α}
    {g : α → NodeM β} (h : f n.storage = .ok a) : (onStorage (readStore f) >>= g) n = g a n :=
  bind_apply_of_ok (onStorage_apply_of_ok (readStore_apply_of_ok h))

theorem keeps_readStore_bind {β : Type} {Q : α → SledStorage → Prop}
    {f : SledStorage → Except StorageError β} {g : β → StoreM α} (h : I s)
    (hg : ∀ b, f s = .ok b → Keeps I (g b) s Q) : Keeps I (readStore f >>= g) s Q := by
  unfold readStore
  rw [bind_assoc]
  exact keeps_get_bind (keeps_runExcept_bind h fun b hb => hg b (mapError_eq_ok.mp hb))

theorem keeps_writeStore {Q : Unit → SledStorage → Prop} (h : I s)
    (hf : ∀ s', f s = .ok s' → I s' ∧ Q () s') : Keeps I (writeStore f) s Q := by
  unfold writeStore
  refine keeps_get_bind (keeps_runExcept_bind h fun s' hs' => ?_)
  exact hf s' (mapError_eq_ok.mp hs')

end Store

/-! ## The supply index -/

section Supply

variable {s : SledStorage}

theorem keeps_backfillSupplyStorage :
    Keeps (fun s' => s'.chainView = s.chainView) backfillSupplyStorage s
      fun _ s' => s'.chainView = s.chainView := by
  have hloop : ∀ (best : U64) (totals : U128 × U128) (numbers : List U64) (s' : SledStorage),
      s'.chainView = s.chainView →
      Keeps (fun s' => s'.chainView = s.chainView)
        (numbers.foldlM (backfillSupplyStep best) totals) s'
        fun _ s' => s'.chainView = s.chainView := by
    intro best totals numbers s' hs'
    refine keeps_foldlM hs' hs' fun number _ totals s'' hs'' _ => ?_
    unfold backfillSupplyStep
    refine keeps_readStore_bind hs'' fun block _ => keeps_readStore_bind hs'' fun timestamp _ => ?_
    refine keeps_ite (fun _ => ?_) fun _ => keeps_pure hs'' hs''
    exact keeps_modify_bind (keeps_pure hs'' hs'')
  unfold backfillSupplyStorage
  refine keeps_get_bind ?_
  dsimp only
  split
  · exact keeps_pure rfl rfl
  · exact keeps_throw rfl
  · refine keeps_ite (fun _ => ?_) fun _ => ?_
    · refine keeps_modify_bind (keeps_get_bind (keeps_ite (fun _ => keeps_pure rfl rfl) fun _ => ?_))
      refine Keeps.bind (hloop _ _ _ _ ?_) fun _ _ h _ => keeps_pure h h
      rfl
    · refine keeps_get_bind (keeps_ite (fun _ => keeps_pure rfl rfl) fun _ => ?_)
      exact (hloop _ _ _ _ rfl).bind fun _ _ h _ => keeps_pure h h

theorem keeps_suffixSupplyTotals (ancestor previousBest : BlockHeader) (replacement : List Block) :
    Keeps (fun s' => s'.chainView = s.chainView)
      (suffixSupplyTotals ancestor previousBest replacement) s
      fun _ s' => s'.chainView = s.chainView := by
  unfold suffixSupplyTotals
  refine keeps_get_bind ?_
  dsimp only
  refine keeps_ite (fun _ => ?_) fun _ => ?_
  · refine keeps_backfillSupplyStorage.bind fun _ s' hs' _ => keeps_get_bind ?_
    refine keeps_ite_throw hs' fun _ => keeps_get_bind ?_
    exact keeps_readStore_bind hs' fun _ _ => keeps_pure hs' hs'
  · exact keeps_get_bind (keeps_readStore_bind rfl fun _ _ => keeps_pure rfl rfl)

end Supply

section Draining

variable {O : Oracle} {R : Revm} {config : NodeConfig} {B : Block → Prop}
  {I : SledStorage → Prop} (hI : DrainInvariant O B I) {s : SledStorage}

include hI

/-! ## The replay of a chain -/

theorem keeps_replayBlock (h : I s) (hB : B block) :
    Keeps I (replayBlock O R config block) s fun _ _ => True := by
  unfold replayBlock
  refine keeps_readStore_bind h fun parent hparent => keeps_get_bind ?_
  refine keeps_runExcept_bind h fun _ hvalid => ?_
  exact (keeps_insertBlock hI h hB (.inr ⟨parent, hparent, extends_of_validateExtension hvalid⟩)).trivial

theorem keeps_replayCanonicalChain {chain : List Block} (h : I s) (hbest : s.bestNumber = none)
    (hchain : ∀ b ∈ chain, B b) {s₀ : SledStorage} (h₀ : I s₀)
    (hhead : chain.head? = s₀.canonicalBlocks.head?) :
    Keeps I (replayCanonicalChain O R config chain) s fun _ _ => True := by
  cases chain with
  | nil => exact keeps_throw h
  | cons genesis rest =>
    unfold replayCanonicalChain
    refine keeps_ite_throw h fun hnumber => ?_
    have hinserted : Inserted O I s genesis := .inl ⟨hbest, not_not.mp hnumber, s₀, h₀, hhead.symm⟩
    refine (keeps_insertBlock hI h (hchain genesis (by simp)) hinserted).bind fun _ s' h' _ => ?_
    refine keeps_forM h' trivial fun block hblock s'' h'' _ => ?_
    exact keeps_replayBlock hI h'' (hchain block (List.mem_cons_of_mem _ hblock))

theorem keeps_rebuildCanonicalChain (h : I s) (hreplacement : ∀ b ∈ replacement, B b)
    (hhead : replacement.head? = s.canonicalBlocks.head?) :
    Keeps I (rebuildCanonicalChain O R config replacement s.canonicalBlocks) s fun _ _ => True := by
  have hprevious : ∀ b ∈ s.canonicalBlocks, B b := by
    intro b hb
    obtain ⟨k, hk⟩ := mem_canonicalBlocks.mp hb
    exact (hI.bodies s h).blocks k b hk
  unfold rebuildCanonicalChain
  refine keeps_modify_bind ?_
  refine (keeps_replayCanonicalChain hI (hI.clearCanonical s h) rfl hreplacement h hhead).attempt.bind
    fun outcome s₁ h₁ _ => ?_
  cases outcome with
  | ok _ => exact keeps_pure h₁ trivial
  | error e =>
    refine keeps_modify_bind ?_
    refine (keeps_replayCanonicalChain hI (hI.clearCanonical s₁ h₁) rfl hprevious h rfl).attempt.bind
      fun outcome s₂ h₂ _ => ?_
    cases outcome with
    | ok _ => exact keeps_pure h₂ trivial
    | error e => exact keeps_throw h₂

theorem keeps_promoteCandidateChain (h : I s) (hB : B tip) :
    Keeps I (promoteCandidateChain O R config tip s.canonicalBlocks) s fun _ _ => True := by
  have hbodies := hI.bodies s h
  unfold promoteCandidateChain
  refine keeps_get_bind (keeps_runExcept_bind h fun branch hbranch => ?_)
  refine keeps_runExcept_bind h fun replacement hreplacement => ?_
  refine keeps_runExcept_bind h fun _ _ => ?_
  have hsuffix := hbodies.candidateReplacement hB hbranch
  exact keeps_rebuildCanonicalChain hI h (hbodies.materialize hsuffix hreplacement)
    (head?_of_materialize hreplacement)

/-! ## Queueing and draining -/

theorem keeps_storeCompetingBlock (h : I s) (hB : Authorised O config block → B block) :
    Keeps I (storeCompetingBlock O config block) s fun _ _ => B block := by
  unfold storeCompetingBlock
  refine keeps_runExcept_bind h fun _ hauth => keeps_get_bind ?_
  replace hB := hB hauth
  split
  next =>
    refine (keeps_writeStore (Q := fun _ _ => True) h fun s' hs' => ?_).bind
      fun _ s' h' _ => keeps_pure h' hB
    exact ⟨hI.storeOrphan s s' block h hB hs', trivial⟩
  next parent hparent =>
    refine keeps_runExcept_bind h fun _ hvalid => keeps_readStore_bind h fun work hwork => ?_
    refine (keeps_writeStore (Q := fun _ _ => True) h fun s' hs' => ?_).bind
      fun _ s' h' _ => keeps_pure h' hB
    have hsource : WorkSource O s block work := .inl ⟨parent, hparent, hvalid, hwork⟩
    exact ⟨hI.storeCandidate s s' block work h hB hsource hs', trivial⟩

theorem keeps_queueCompetingBlock (h : I s) (hB : Authorised O config block → B block) :
    Keeps I (queueCompetingBlock O R config block) s fun _ _ => True := by
  unfold queueCompetingBlock
  refine (keeps_storeCompetingBlock hI h hB).bind fun stored s' h' hB => ?_
  cases stored with
  | none => exact keeps_pure h' trivial
  | some work =>
    refine keeps_get_bind ?_
    dsimp only
    split
    · refine keeps_ite (fun _ => ?_) fun _ => keeps_pure h' trivial
      exact (keeps_promoteCandidateChain hI h' hB).bind fun _ _ h'' _ => keeps_pure h'' trivial
    · exact keeps_throw h'

theorem keeps_queueCompetingBlockPending (h : I s) (hB : Authorised O config block → B block) :
    Keeps I (queueCompetingBlockPending O config block) s fun result _ =>
      ∀ branch, result = some branch → ∀ b ∈ branch.suffix, B b := by
  unfold queueCompetingBlockPending
  refine (keeps_storeCompetingBlock hI h hB).bind fun stored s' h' hB => ?_
  cases stored with
  | none => exact keeps_pure h' (by simp)
  | some work =>
    refine keeps_readStore_bind h' fun current _ => keeps_readStore_bind h' fun currentWork _ => ?_
    refine keeps_ite (fun _ => ?_) fun _ => keeps_pure h' (by simp)
    refine keeps_get_bind (keeps_runExcept_bind h' fun branch hbranch => keeps_pure h' ?_)
    rintro _ ⟨⟩
    exact (hI.bodies s' h').candidateBranch hB hbranch

theorem keeps_drainBlock (h : I s) (hB : B block) :
    Keeps I (drainBlock O R config block) s fun _ _ => True := by
  unfold drainBlock
  refine keeps_readStore_bind h fun parent hparent => keeps_ite (fun hext => ?_) fun _ => ?_
  · refine keeps_get_bind (keeps_runExcept_bind h fun _ _ => ?_)
    refine (keeps_insertBlock hI h hB (.inr ⟨parent, hparent, hext⟩)).bind fun _ s' h' _ => ?_
    exact keeps_modify_bind (keeps_pure (hI.removeOrphan s' _ h') trivial)
  · refine keeps_get_bind ?_
    split
    · exact keeps_pure h trivial
    · refine (keeps_queueCompetingBlock hI h fun _ => hB).attempt.bind fun outcome s' h' _ => ?_
      cases outcome with
      | ok _ => exact keeps_modify_bind (keeps_pure (hI.removeOrphan s' _ h') trivial)
      | error e => exact keeps_ite (fun _ => keeps_pure h' trivial) fun _ => keeps_throw h'

theorem keeps_drainPass {blocks : List Block} (h : I s) (hB : ∀ b ∈ blocks, B b) :
    Keeps I (drainPass O R config blocks) s fun _ _ => True := by
  induction blocks generalizing s with
  | nil => exact keeps_pure h trivial
  | cons block rest ih =>
    unfold drainPass
    refine (keeps_drainBlock hI h (hB block (by simp))).bind fun _ s' h' _ => ?_
    refine (ih h' fun b hb => hB b (List.mem_cons_of_mem _ hb)).bind fun _ s'' h'' _ => ?_
    exact keeps_pure h'' trivial

theorem keeps_drainPasses (passes : ℕ) (h : I s) :
    Keeps I (drainPasses O R config passes) s fun _ _ => True := by
  induction passes generalizing s with
  | zero => exact keeps_pure h trivial
  | succ passes ih =>
    unfold drainPasses
    have hpool : ∀ b ∈ s.orphanBlocks, B b := by
      intro b hb
      obtain ⟨hash, hhash⟩ := mem_orphanBlocks.mp hb
      exact (hI.bodies s h).orphans hash b hhash
    refine keeps_get_bind ((keeps_drainPass hI h hpool).bind fun _ s' h' _ => ?_)
    exact keeps_ite (fun _ => ih h') fun _ => keeps_pure h' trivial

end Draining

section Operations

variable {O : Oracle} {R : Revm} {config : NodeConfig} {H : Host} {B : Block → Prop}
  {I : SledStorage → Prop} (hI : ChainInvariant O B I) {s : SledStorage}

include hI

/-! ## Publication -/

theorem keeps_of_view {α : Type} {x : StoreM α} {Q : α → SledStorage → Prop} (h : I s)
    (hx : Keeps (fun s' => s'.chainView = s.chainView) x s Q) : Keeps I x s Q :=
  hx.imp fun s' hs' => hI.view s s' h hs'

omit hI in
theorem bestHeader_insertBlock (s : SledStorage) (block : Block) :
    (s.insertBlock block).bestHeader = .ok block.header := by
  simp [SledStorage.insertBlock, SledStorage.putHeader, SledStorage.bestHeader,
    SledStorage.getBestNumber, SledStorage.headerByNumber]

theorem keeps_commitDirectCandidateExtension (h : I s)
    (hB : ∀ b ∈ branch.suffix, Authorised O config b → B b) :
    Keeps I (commitDirectCandidateExtension O R config branch) s fun _ _ => True := by
  unfold commitDirectCandidateExtension
  refine keeps_ite (fun _ => keeps_pure h trivial) fun _ => keeps_get_bind ?_
  refine keeps_readStore_bind h fun best hbest => ?_
  refine keeps_ite (fun _ => keeps_pure h trivial) fun _ => ?_
  -- the loop keeps its parent at the tip of the database
  refine (keeps_foldlM (L := fun p s' => s'.bestHeader = .ok p.parent) h hbest
    fun block hblock p s' h' hp => ?_).bind fun p s' h' _ => ?_
  · unfold commitDirectBlock
    refine keeps_runExcept_bind h' fun _ hauth => keeps_runExcept_bind h' fun _ hvalid => ?_
    refine keeps_get_bind (keeps_runExcept_bind h' fun _ _ => ?_)
    refine keeps_ite_throw h' fun _ => keeps_runExcept_bind h' fun state _ => ?_
    have hext := extends_of_validateBlock (mapError_eq_ok.mp hvalid)
    have hinsert := hI.insertBlock s' block h' (hB block hblock hauth) (.inr ⟨p.parent, hp, hext⟩)
    exact keeps_modify_bind (keeps_pure hinsert (bestHeader_insertBlock s' block))
  · refine (keeps_of_view hI h' (keeps_putAccounts _ s')).bind fun _ s'' h'' _ => ?_
    refine ((keeps_of_view hI h'' ((keeps_persistRevmState p.evmState s'').adaptExcept _))).bind
      fun _ s₃ h₃ _ => ?_
    refine keeps_modify_bind (keeps_pure (hI.removeCandidates _ _ ?_) trivial)
    exact hI.view s₃ _ h₃ rfl

variable {replayed : ReplayedBranch}

omit hI in
theorem authorised_of_replaySuffix {captured : CapturedReplay} {blocks : List Block} {index : ℕ}
    {overlay last : ExecutionReplayOverlay}
    (h : replaySuffix O R config H captured index blocks overlay = .ok last) :
    ∀ b ∈ blocks, Authorised O config b := by
  induction blocks generalizing index overlay with
  | nil => simp
  | cons block rest ih =>
    obtain ⟨next, happly, h⟩ := bind_eq_ok.mp h
    obtain ⟨_, hauth, -⟩ := bind_eq_ok.mp happly
    refine List.forall_mem_cons.mpr ⟨hauth, ?_⟩
    split at h
    · obtain ⟨_, -, hrest⟩ := bind_eq_ok.mp h
      exact ih hrest
    · exact ih h

omit hI in
theorem authorised_of_replayCandidate (h : replayCandidate O R config H s branch = .ok replayed) :
    ∀ b ∈ branch.suffix, Authorised O config b := by
  simp only [replayCandidate, bind_eq_ok] at h
  obtain ⟨_, -, _, -, _, -, hfinish⟩ := h
  obtain ⟨last, hsuffix, -⟩ := bind_eq_ok.mp hfinish
  exact authorised_of_replaySuffix hsuffix

theorem keeps_publishCandidate (h : I s) (hB : ∀ b ∈ branch.suffix, B b) :
    Keeps I (publishCandidate O H branch replayed) s fun _ _ => True := by
  unfold publishCandidate
  refine keeps_readStore_bind h fun current _ => keeps_ite_throw h fun _ => ?_
  refine keeps_readStore_bind h fun ancestorWork _ => keeps_readStore_bind h fun currentWork _ => ?_
  refine keeps_ite_throw h fun _ => keeps_ite_throw h fun _ => ?_
  refine (keeps_of_view hI h (keeps_suffixSupplyTotals _ _ _)).bind fun totals s' h' _ => ?_
  refine (keeps_writeStore (Q := fun _ _ => True) h' fun s'' hs'' => ?_).bind fun _ s'' h'' _ => ?_
  · exact ⟨hI.publish s' s'' _ _ _ _ _ h' hB hs'', trivial⟩
  · exact keeps_modify (hI.removeCandidates s'' _ h'') trivial

theorem keeps_stageAndPublishCandidate (h : I s)
    (hB : ∀ b ∈ branch.suffix, Authorised O config b → B b) :
    Keeps I (stageAndPublishCandidate O R config H branch) s fun _ _ => True := by
  unfold stageAndPublishCandidate
  refine (keeps_commitDirectCandidateExtension hI h hB).bind fun committed s' h' _ => ?_
  refine keeps_ite (fun _ => keeps_pure h' trivial) fun _ => ?_
  refine keeps_get_bind (keeps_runExcept_bind h' fun replayed hreplayed => ?_)
  refine keeps_publishCandidate hI h' fun b hb => hB b hb ?_
  exact authorised_of_replayCandidate hreplayed b hb

/-! ## Recovery -/

theorem keeps_importDirectRecoveryBlock (h : I s) (hB : B block) :
    Keeps I (importDirectRecoveryBlock O R config block) s fun _ _ => True := by
  unfold importDirectRecoveryBlock
  refine keeps_readStore_bind h fun parent hparent => ?_
  refine keeps_ite_throw h fun hext => ?_
  refine keeps_get_bind (keeps_runExcept_bind h fun _ _ => ?_)
  have hinserted : Inserted O I s block := .inr ⟨parent, hparent, by simpa using hext⟩
  exact (keeps_insertBlock hI.toDrainInvariant h hB hinserted).trivial

theorem keeps_importDirectRecoveryBatches (left : ℕ) {blocks : List Block} (h : I s)
    (hB : ∀ b ∈ blocks, B b) :
    Keeps I (importDirectRecoveryBatches O R config H left blocks) s fun _ _ => True := by
  induction blocks generalizing left s with
  | nil => cases left <;> exact keeps_pure h trivial
  | cons block rest ih =>
    have hblock : B block := hB block (by simp)
    have hrest : ∀ b ∈ rest, B b := fun b hb => hB b (List.mem_cons_of_mem _ hb)
    cases left with
    | zero =>
      unfold importDirectRecoveryBatches
      refine keeps_get_bind (keeps_runExcept_bind h fun _ _ => ?_)
      exact (keeps_importDirectRecoveryBlock hI h hblock).bind fun _ _ h' _ => ih 31 h' hrest
    | succ left =>
      unfold importDirectRecoveryBatches
      exact (keeps_importDirectRecoveryBlock hI h hblock).bind fun _ _ h' _ => ih left h' hrest

theorem keeps_candidateRecovery (h : I s) (hB : B tip) :
    Keeps I (candidateRecovery O R config H tip) s fun _ _ => True := by
  unfold candidateRecovery
  refine keeps_get_bind ?_
  split
  next e _ =>
    refine keeps_ite (fun _ => ?_) fun _ => keeps_pure h trivial
    exact keeps_modify (hI.quarantine s _ _ h) trivial
  next branch hbranch =>
    have hsuffix := (hI.bodies s h).candidateBranch hB hbranch
    refine keeps_ite (fun _ => ?_) fun _ => ?_
    · exact (keeps_importDirectRecoveryBatches hI 0 h hsuffix).ignoreError
    · exact (keeps_stageAndPublishCandidate hI h fun b hb _ => hsuffix b hb).ignoreError

theorem startCandidateRecovery_keeps (h : I s) :
    I (startCandidateRecovery O s).1 ∧ ∀ tip, (startCandidateRecovery O s).2 = some tip → B tip := by
  have hbodies := hI.bodies s h
  unfold startCandidateRecovery
  split
  · split
    · exact ⟨h, by simp⟩
    · split
      · exact ⟨h, by simp⟩
      · dsimp only
        split
        · exact ⟨hI.clearCandidates s h, by simp⟩
        · split
          next hspool => exact ⟨h, by rintro _ ⟨⟩; exact hbodies.recoveryBlockByHash hspool⟩
          next =>
            split
            next hblock => exact ⟨h, by rintro _ ⟨⟩; exact hbodies.blockByHash hblock⟩
            next => exact ⟨h, by simp⟩
  · exact ⟨hI.clearCandidates s h, by simp⟩

/-! ## The node -/

/-- The storage meets the invariant and a running recovery works on one of the blocks. -/
structure NodeInvariant (B : Block → Prop) (I : SledStorage → Prop) (n : Node) : Prop where
  storage : I n.storage
  recovering : ∀ tip, n.recovering = some tip → B tip

omit hI in
theorem NodeInvariant.keeps_onStorage {α : Type} {x : StoreM α} {Q : α → SledStorage → Prop}
    (hn : NodeInvariant B I n) (h : Keeps I x n.storage Q) :
    Keeps (NodeInvariant B I) (onStorage x) n fun a n' => Q a n'.storage := by
  unfold Keeps onStorage at *
  split at h
  next hok =>
    rw [hok]
    exact ⟨⟨h.1, hn.recovering⟩, h.2⟩
  next herr =>
    rw [herr]
    exact ⟨h, hn.recovering⟩

omit hI in
theorem NodeInvariant.keeps_readStore_bind {α β : Type} {f : SledStorage → Except StorageError β}
    {g : β → NodeM α} {Q : α → Node → Prop} (hn : NodeInvariant B I n)
    (hg : ∀ b, f n.storage = .ok b → Keeps (NodeInvariant B I) (g b) n Q) :
    Keeps (NodeInvariant B I) (onStorage (readStore f) >>= g) n Q := by
  unfold Keeps
  cases hf : f n.storage with
  | ok b =>
    rw [onStorage_readStore_bind hf]
    exact hg b hf
  | error e =>
    rw [bind_apply_of_error (onStorage_apply_of_error (readStore_apply_of_error hf))]
    exact hn

omit hI in
theorem keeps_cleanMempool (transactions : List Transaction) (hn : NodeInvariant B I n) :
    Keeps (NodeInvariant B I) (cleanMempool O transactions) n fun _ _ => True := by
  unfold cleanMempool
  refine keeps_ite (fun _ => keeps_pure hn trivial) fun _ => ?_
  exact keeps_modify ⟨hn.storage, hn.recovering⟩ trivial

theorem keeps_importBranch (hn : NodeInvariant B I n) (hB : ∀ b ∈ branch.suffix, B b) :
    Keeps (NodeInvariant B I) (importBranch O R config H block branch) n fun _ _ => True := by
  unfold importBranch
  refine (hn.keeps_onStorage
    (keeps_stageAndPublishCandidate hI hn.storage fun b hb _ => hB b hb)).attempt.bind
      fun outcome n' hn' _ => ?_
  cases outcome with
  | ok _ =>
    refine (keeps_cleanMempool _ hn').bind fun _ n'' hn'' _ => ?_
    exact keeps_modify ⟨hn''.storage, hn''.recovering⟩ trivial
  | error e => exact keeps_pure hn' trivial

theorem keeps_importExtension (hn : NodeInvariant B I n) (hB : B block)
    (hbest : n.storage.bestHeader = .ok parent) :
    Keeps (NodeInvariant B I) (importExtension O R config H parent block) n fun _ _ => True := by
  unfold importExtension
  refine keeps_get_bind (keeps_runExcept_bind hn fun _ hvalid => keeps_runExcept_bind hn fun _ _ => ?_)
  have hinserted : Inserted O I n.storage block :=
    .inr ⟨parent, hbest, extends_of_validateExtension hvalid⟩
  refine (hn.keeps_onStorage
    (keeps_insertBlock hI.toDrainInvariant hn.storage hB hinserted)).bind fun _ n₁ hn₁ _ => ?_
  refine (hn₁.keeps_onStorage
    (keeps_drainPasses hI.toDrainInvariant _ hn₁.storage)).bind fun _ n₂ hn₂ _ => ?_
  refine (keeps_cleanMempool _ hn₂).bind fun _ n₃ hn₃ _ => ?_
  exact keeps_modify ⟨hn₃.storage, hn₃.recovering⟩ trivial

theorem NodeInvariant.startRecovery (hn : NodeInvariant B I n) :
    NodeInvariant B I (n.startRecovery O) := by
  unfold Node.startRecovery
  split
  · exact hn
  · obtain ⟨hstorage, htip⟩ := startCandidateRecovery_keeps hI hn.storage
    exact ⟨hstorage, htip⟩

/-- **One import keeps the invariant**, whether it succeeds or fails. Nothing is stored of a
block whose transactions are not authorised. -/
theorem keeps_importNetworkBlock (hn : NodeInvariant B I n)
    (hB : validateBlockTransactionAuth O config.requireSignedTransactions block = .ok () → B block) :
    Keeps (NodeInvariant B I) (importNetworkBlock O R config H block) n fun _ _ => True := by
  unfold importNetworkBlock
  refine keeps_runExcept_bind hn fun _ _ => keeps_runExcept_bind hn fun _ hauth => ?_
  replace hB := hB hauth
  refine keeps_get_bind ?_
  split
  · exact keeps_pure hn trivial
  refine hn.keeps_readStore_bind fun parent _ => keeps_ite (fun _ => ?_) fun _ => ?_
  · refine (hn.keeps_onStorage (keeps_writeStore (Q := fun _ _ => True) hn.storage
      fun s' hs' => ⟨?_, trivial⟩))
    exact hI.storeOrphan _ _ block hn.storage hB hs'
  have hnone : ∀ n' : Node, NodeInvariant B I n' →
      Keeps (NodeInvariant B I) (do
        let parent ← onStorage (readStore SledStorage.bestHeader)
        if extendsHeader O parent block then importExtension O R config H parent block
        else
          onStorage (drainOrphanBlocks O R config)
          modify fun n => n.startRecovery O) n' fun _ _ => True := by
    intro n' hn'
    refine hn'.keeps_readStore_bind fun parent hparent => keeps_ite (fun _ => ?_) fun _ => ?_
    · exact keeps_importExtension hI hn' hB hparent
    · refine (hn'.keeps_onStorage
        (keeps_drainPasses hI.toDrainInvariant _ hn'.storage)).bind fun _ n₂ hn₂ _ => ?_
      exact keeps_modify (hn₂.startRecovery hI) trivial
  refine keeps_ite (fun _ => hnone n hn) fun _ => ?_
  refine (hn.keeps_onStorage
    (keeps_queueCompetingBlockPending hI.toDrainInvariant hn.storage fun _ => hB)).bind
    fun candidate n' hn' hcandidate => ?_
  cases candidate with
  | none => exact hnone n' hn'
  | some branch => exact keeps_importBranch hI hn' (hcandidate branch rfl)

theorem NodeInvariant.finishRecovery (hn : NodeInvariant B I n) :
    NodeInvariant B I (n.finishRecovery O R config H) := by
  unfold Node.finishRecovery
  split
  · exact hn
  next tip htip =>
    have hkeep : Keeps I (candidateRecovery O R config H tip) n.storage fun _ _ => True :=
      keeps_candidateRecovery hI hn.storage (hn.recovering tip htip)
    split
    next hok => exact ⟨(hkeep.of_ok hok).1, by simp⟩
    next herr => exact ⟨hkeep.of_error herr, by simp⟩

end Operations

end Blq
