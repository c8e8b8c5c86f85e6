import Blq.Proof.OrphanDrain

/-!
# Where canonical transactions come from

Every handler that takes a block in checks the signatures of its transactions before it keeps
anything of it; what moves blocks between the pools, the spool and the chain does not look at the
signatures again. So the invariant is about all bodies the node holds, wherever they are.

* `FullInvariant.ingest`: one operation keeps it, whether it succeeds or fails.
* `canonical_transactions_signed`: so it holds along every run in which the blocks imported from
  files are signed too.
* `file_import_skips_signatures`: the import command is the one handler without the check.
-/

namespace Blq

open Word Result

variable {O : Oracle} {R : Revm} {config : NodeConfig} {H : Host} {B : Block → Prop}
  {I : SledStorage → Prop} {work : U128} {op : Ingestion}

/-! ## The spool -/

variable {tipHash : Hash256} {block : Block} {s : SledStorage}

namespace RecoverySpool

def RowsIn (B : Block → Prop) (spool : RecoverySpool) : Prop :=
  Map.EntriesIn (fun body => B body.1) spool.rows

variable {spool : RecoverySpool}

theorem RowsIn.storeRecoveryBlock (h : spool.RowsIn B) (hB : B block) :
    (spool.storeRecoveryBlock O tipHash block work).RowsIn B :=
  Map.EntriesIn.insert (P := fun body : Block × U128 => B body.1) h hB

theorem RowsIn.repairIndex (h : spool.RowsIn B) (hash : Hash256) :
    (spool.repairIndex O hash).RowsIn B := by
  unfold RecoverySpool.repairIndex
  split <;> exact h

theorem RowsIn.of_mem (h : spool.RowsIn B) {row : SpoolRow}
    (hmem : (row, block, work) ∈ spool.recoveryBlocksForTip tipHash) : B block :=
  h row (block, work) ((Map.mem_toList_iff _ _ _).mp (List.mem_of_mem_filter hmem))

theorem RowsIn.mergeJob (h : spool.RowsIn B) (movedTip spoolTip : Hash256) :
    (spool.mergeJob O movedTip spoolTip).RowsIn B := by
  unfold RecoverySpool.mergeJob
  refine List.foldlRecOn (motive := RowsIn B) _ _ h fun spool' h' entry hentry => ?_
  exact h'.storeRecoveryBlock (h.of_mem hentry)

theorem RowsIn.clear (h : spool.RowsIn B) (tipHash : Hash256) :
    (spool.clearRecoveryBlocksForTip O tipHash).RowsIn B := by
  unfold RecoverySpool.clearRecoveryBlocksForTip
  refine List.foldlRecOn (motive := RowsIn B) _ _ h fun spool' h' entry _ => ?_
  exact Map.EntriesIn.erase (P := fun body : Block × U128 => B body.1) h'

theorem forall_scanned {P : Hash256 → Block × U128 → Prop} {rows : List (SpoolRow × Block × U128)}
    (hrows : ∀ entry ∈ rows, P (entry.2.1.header.hash O) entry.2) :
    ∀ (hash : Hash256) (body : Block × U128),
      (rows.foldr (fun (_, body) found => found.insert (body.1.header.hash O) body)
        (∅ : Map Hash256 (Block × U128)))[hash]? = some body → P hash body := by
  induction rows with
  | nil => simp
  | cons entry rest ih =>
    obtain ⟨hentry, hrest⟩ := List.forall_mem_cons.mp hrows
    exact Map.forall_insert (ih hrest) hentry

theorem byHash_cases {P : Hash256 → Block × U128 → Prop}
    (hscan : ∀ (row : SpoolRow) (body : Block × U128), spool.rows[row]? = some body →
      P (body.1.header.hash O) body)
    (hindex : ∀ (hash : Hash256) (row : SpoolRow) (body : Block × U128),
      spool.index[hash]? = some row → spool.rows[row]? = some body → P hash body) :
    ∀ (hash : Hash256) (body : Block × U128), (spool.byHash O)[hash]? = some body → P hash body := by
  unfold RecoverySpool.byHash
  rw [Std.ExtTreeMap.foldl_eq_foldl_toList]
  refine List.foldlRecOn (motive := fun found : Map Hash256 (Block × U128) =>
    ∀ (hash : Hash256) (body : Block × U128), found[hash]? = some body → P hash body) _ _ ?_ ?_
  · exact forall_scanned fun entry hentry =>
      hscan entry.1 entry.2 ((Map.mem_toList_iff _ _ _).mp hentry)
  · intro found hfound entry hentry
    split
    next held hrow =>
      exact Map.forall_insert hfound
        (hindex entry.1 entry.2 held ((Map.mem_toList_iff _ _ _).mp hentry) hrow)
    next => exact Map.forall_erase hfound

theorem RowsIn.byHash (h : spool.RowsIn B) :
    Map.EntriesIn (fun body : Block × U128 => B body.1) (spool.byHash O) :=
  byHash_cases (P := fun _ body => B body.1) h fun _ row body _ hrow => h row body hrow

end RecoverySpool

/-! ## One operation -/

/-- Every body the node holds meets `B`: on the chain, in a pool, in the spool, or as the tip of a
running recovery. -/
structure FullInvariant (B : Block → Prop) (n : FullNode) : Prop where
  node : NodeInvariant B (BodiesIn B) n.toNode
  rows : n.spool.RowsIn B

variable {n : FullNode}

theorem FullInvariant.withSpool (h : FullInvariant B n) {spool : RecoverySpool}
    (hrows : spool.RowsIn B) : FullInvariant B (n.withSpool O spool) := by
  obtain ⟨hblocks, horphans, hcandidates, -⟩ := h.node.storage
  exact ⟨⟨⟨hblocks, horphans, hcandidates, fun hash block work hbody =>
    hrows.byHash hash (block, work) hbody⟩, h.node.recovering⟩, hrows⟩

theorem keeps_restoreCompletedCandidate (hI : ChainInvariant O B I) {spoolTip : Hash256} (h : I s) :
    Keeps I (restoreCompletedCandidate O tipHash spoolTip) s fun _ _ => True := by
  have hbodies := hI.bodies s h
  unfold restoreCompletedCandidate
  refine keeps_get_bind (keeps_runExcept_bind h fun tip htip => ?_)
  have hB : B tip := by
    have hfound := mapError_eq_ok.mp htip
    split at hfound
    next block _ hspool =>
      obtain rfl := pure_eq_ok.mp hfound
      exact hbodies.recoveryBlockByHash hspool
    next =>
      split at hfound
      next block _ hspool =>
        obtain rfl := pure_eq_ok.mp hfound
        exact hbodies.recoveryBlockByHash hspool
      next => exact hbodies.blockByHash hfound
  refine keeps_runExcept_bind h fun branch hbranch => ?_
  refine keeps_readStore_bind h fun ancestorWork hwork => ?_
  refine (keeps_writeStore (Q := fun _ _ => True) h fun s' hs' => ?_).bind
    fun _ s' h' _ => keeps_pure h' trivial
  have hsource : WorkSource O s tip _ := .inr ⟨branch, ancestorWork, hbranch, hwork, rfl⟩
  exact ⟨hI.storeCandidate s s' tip _ h hB hsource hs', trivial⟩

theorem authorised_of_validateRecoveryBlock {expectedHeight : U64} {expectedParentHash : Hash256}
    (h : validateRecoveryBlock O config H s expectedHeight expectedParentHash block = .ok work) :
    Authorised O config block := by
  unfold validateRecoveryBlock at h
  obtain ⟨_, -, h⟩ := bind_eq_ok.mp h
  obtain ⟨_, hauth, -⟩ := bind_eq_ok.mp h
  exact hauth

theorem FullInvariant.recoveryImport (h : FullInvariant B n) {expectedHeight : U64}
    {expectedParentHash : Hash256} {n' : FullNode} (hB : Authorised O config block → B block)
    (hn' : importRecoveryBlock O config H n tipHash expectedHeight expectedParentHash block =
      .ok n') : FullInvariant B n' := by
  obtain ⟨work, hwork, hn'⟩ := bind_eq_ok.mp hn'
  obtain rfl := pure_eq_ok.mp hn'
  exact h.withSpool (h.rows.storeRecoveryBlock (hB (authorised_of_validateRecoveryBlock hwork)))

/-- The blocks the operation brings in meet `B`. Only the block of a file import is not checked
first. -/
def Ingestion.Brings (O : Oracle) (config : NodeConfig) (B : Block → Prop) : Ingestion → Prop
  | .networkImport _ block | .submission _ _ block | .competingBlock block
  | .recoveryImport _ _ _ _ block => Authorised O config block → B block
  | .directExtension branch | .stagedPublication _ branch =>
    ∀ b ∈ branch.suffix, Authorised O config b → B b
  | .fileImport _ _ block => B block
  | _ => True

def Ingestion.OnSpool : Ingestion → Bool
  | .recoveryImport .. | .repairIndex _ | .mergeJob .. | .clearJob _ => true
  | _ => false

/-- **One operation that leaves the spool alone** keeps every invariant of the import path, whether it
succeeds or fails. -/
theorem NodeInvariant.ingest (hI : ChainInvariant O B I) (h : NodeInvariant B I n.toNode)
    (hop : op.Brings O config B) (hspool : op.OnSpool = false) :
    NodeInvariant B I (n.ingest O R config op).toNode ∧ (n.ingest O R config op).spool = n.spool := by
  have hstorage := h.storage
  cases op with
  | networkImport H block => exact ⟨(keeps_importNetworkBlock hI h hop).final, rfl⟩
  | submission H M block => exact ⟨(keeps_rpcSubmitBlock hI h hop).final, rfl⟩
  | drainOrphans => exact ⟨(h.keeps_onStorage (keeps_drainPasses hI.toDrainInvariant _ hstorage)).final, rfl⟩
  | competingBlock block =>
    exact ⟨(h.keeps_onStorage (keeps_queueCompetingBlock hI.toDrainInvariant hstorage hop)).final, rfl⟩
  | restoreCandidate tipHash spoolTip =>
    exact ⟨(h.keeps_onStorage (keeps_restoreCompletedCandidate hI hstorage)).final, rfl⟩
  | startRecovery => exact ⟨h.startRecovery hI, rfl⟩
  | finishRecovery H => exact ⟨h.finishRecovery hI, rfl⟩
  | directExtension branch =>
    exact ⟨(h.keeps_onStorage (keeps_commitDirectCandidateExtension hI hstorage hop)).final, rfl⟩
  | stagedPublication H branch =>
    exact ⟨(h.keeps_onStorage (keeps_stageAndPublishCandidate hI hstorage hop)).final, rfl⟩
  | fileImport H verifyExpectedGenesis block =>
    have hkeep : Keeps _ (importBlock O R config H verifyExpectedGenesis block) n.storage _ :=
      keeps_importBlock hI hstorage hop
    have hafter := (h.keeps_onStorage hkeep).final
    exact ⟨⟨hafter.storage, by rintro tip ⟨⟩⟩, rfl⟩
  | mempool m => exact ⟨⟨hstorage, h.recovering⟩, rfl⟩
  | recoveryImport => exact absurd hspool Bool.noConfusion
  | repairIndex => exact absurd hspool Bool.noConfusion
  | mergeJob => exact absurd hspool Bool.noConfusion
  | clearJob => exact absurd hspool Bool.noConfusion

/-- The block of a file import is authorised; there is no condition on any other operation. -/
def Ingestion.FromAuthorised (O : Oracle) (config : NodeConfig) : Ingestion → Prop
  | .fileImport _ _ block => Authorised O config block
  | _ => True

theorem Ingestion.FromAuthorised.brings (h : op.FromAuthorised O config) :
    op.Brings O config (Authorised O config) := by
  cases op with
  | fileImport H verifyExpectedGenesis block => exact h
  | directExtension branch => exact fun _ _ => id
  | stagedPublication H branch => exact fun _ _ => id
  | _ => first | exact id | exact trivial

/-- **One operation keeps every body authorised**, whether it succeeds or fails. -/
theorem FullInvariant.ingest (h : FullInvariant (Authorised O config) n)
    (hop : op.FromAuthorised O config) :
    FullInvariant (Authorised O config) (n.ingest O R config op) := by
  cases hspool : op.OnSpool with
  | false =>
    obtain ⟨hnode, hrows⟩ := h.node.ingest (R := R) (chainInvariant_bodiesIn _) hop.brings hspool
    exact ⟨hnode, by rw [hrows]; exact h.rows⟩
  | true =>
    cases op with
    | recoveryImport H tipHash expectedHeight expectedParentHash block =>
      simp only [FullNode.ingest]
      split
      next n' hn' => exact h.recoveryImport id hn'
      next => exact h
    | repairIndex hash => exact h.withSpool (h.rows.repairIndex hash)
    | mergeJob movedTip spoolTip => exact h.withSpool (h.rows.mergeJob movedTip spoolTip)
    | clearJob tipHash => exact h.withSpool (h.rows.clear tipHash)
    | _ => exact absurd hspool Bool.noConfusion

/-! ## Runs -/

theorem FullInvariant.run (h : FullInvariant (Authorised O config) n) {ops : List Ingestion}
    (hops : ∀ op ∈ ops, op.FromAuthorised O config) :
    FullInvariant (Authorised O config) (ops.foldl (FullNode.ingest O R config) n) := by
  induction ops generalizing n with
  | nil => exact h
  | cons op rest ih =>
    obtain ⟨hop, hrest⟩ := List.forall_mem_cons.mp hops
    exact ih (h.ingest hop) hrest

/-- Where signatures are required, a block is authorised exactly if each transaction verifies. -/
theorem authorised_iff (hrequired : config.requireSignedTransactions = true) :
    Authorised O config block ↔
      ∀ t ∈ block.transactions, verifyTransactionSignature O t = .ok () := by
  have hcheck : ∀ t, validateTransactionAuth O config.requireSignedTransactions t =
      verifyTransactionSignature O t := by
    intro t
    unfold validateTransactionAuth
    rw [hrequired]
    rfl
  unfold Authorised validateBlockTransactionAuth
  constructor
  · intro h t ht
    rw [← hcheck]
    exact forM_eq_ok.mp h t ht
  · intro h
    generalize block.transactions = transactions at h ⊢
    induction transactions with
    | nil => rfl
    | cons t rest ih =>
      obtain ⟨ht, hrest⟩ := List.forall_mem_cons.mp h
      show (validateTransactionAuth O _ t >>= fun _ => rest.forM _) = _
      rw [hcheck, ht]
      exact ih hrest

/-- A node as it starts on a fresh database, with the genesis block of its configuration. -/
def FullNode.start (s : SledStorage) (mempool : Mempool) : FullNode :=
  { storage := s, mempool := mempool }

/-- The transactions of a block that is imported from a file verify. -/
def Ingestion.FromSigned (O : Oracle) : Ingestion → Prop
  | .fileImport _ _ block => ∀ t ∈ block.transactions, verifyTransactionSignature O t = .ok ()
  | _ => True

/-- **Every canonical transaction is signed**, after any sequence of imports, submissions, drains,
promotions, recoveries, direct extensions and publications, failed ones included, provided that the
blocks imported from files are. -/
theorem canonical_transactions_signed (hrequired : config.requireSignedTransactions = true)
    {genesis : BlockHeader} (hnumber : genesis.number = 0) {s : SledStorage}
    (hstart : initializeGenesisForConfig O R genesis {} = .ok () s) (mempool : Mempool)
    {ops : List Ingestion} (hops : ∀ op ∈ ops, op.FromSigned O) {k : U64} {block : Block}
    (hblock : (ops.foldl (FullNode.ingest O R config) (.start s mempool)).storage.blocks[k]? =
      some block) :
    ∀ t ∈ block.transactions, verifyTransactionSignature O t = .ok () := by
  have hreachable : Reachable O R config ⟨s, mempool, [], none⟩ :=
    .start genesis s mempool hnumber hstart
  have hbegin : FullInvariant (Authorised O config) (.start s mempool) :=
    ⟨⟨hreachable.authorised, by simp [FullNode.start]⟩, Map.entriesIn_empty⟩
  have hauthorised : ∀ op ∈ ops, op.FromAuthorised O config := by
    intro op hop
    have hsigned := hops op hop
    cases op with
    | fileImport H verifyExpectedGenesis block => exact (authorised_iff hrequired).mpr hsigned
    | _ => exact trivial
  exact (authorised_iff hrequired).mp ((hbegin.run hauthorised).node.storage.blocks k block hblock)

/-! ## A file with an unsigned transfer -/

def signedConfig : NodeConfig := { plainConfig with requireSignedTransactions := true }

def minerTransfer (signature : Option TransactionSignature) : Transaction where
  chainId := mainnetChainId
  transactionType := 2
  nonce := 0
  from_ := 0
  to_ := some 1
  value := 1
  gasLimit := 21000
  maxFeePerGas := 10 ^ 9
  maxPriorityFeePerGas := 0
  payload := []
  accessList := []
  signature := signature
  externalHash := none

def minerBlock (signature : Option TransactionSignature) : Block :=
  Block.withExecution nonceOracle
    { header := (childOf firstBlock.header 2).header, transactions := [minerTransfer signature],
      receipts := [] }
    ⟨[⟨(minerTransfer signature).rpcHash nonceOracle, true, 21000, 0, []⟩], 21000, 0⟩

/-- A node that requires signatures is handed the first block, and then does `op`. -/
def afterFirst (op : Ingestion) : FullNode :=
  [.networkImport openHost firstBlock, op].foldl
    (FullNode.ingest nonceOracle noContracts signedConfig) (.start startNode.storage {})

theorem startNode_started : initializeGenesisForConfig nonceOracle noContracts
    (genesisHeader nonceOracle) {} = .ok () startNode.storage :=
  eq_ok_finalState (by decide +kernel)

/-- **The import command makes an unsigned transfer canonical**, in a node that requires signatures
and refuses the same block from the network and from a miner. -/
theorem file_import_skips_signatures :
    signedConfig.requireSignedTransactions = true ∧
    initializeGenesisForConfig nonceOracle noContracts (genesisHeader nonceOracle) {} =
      .ok () startNode.storage ∧
    (afterFirst (.fileImport openHost (fun _ => .ok ()) (minerBlock none))).storage.blocks[(2 : U64)]?
      = some (minerBlock none) ∧
    minerTransfer none ∈ (minerBlock none).transactions ∧
    verifyTransactionSignature nonceOracle (minerTransfer none) ≠ .ok () ∧
    (afterFirst (.networkImport openHost (minerBlock none))).storage.blocks[(2 : U64)]? = none ∧
    (afterFirst (.submission openHost ⟨.ok false, ""⟩ (minerBlock none))).storage.blocks[(2 : U64)]?
      = none := by
  have hrefused : verifyTransactionSignature nonceOracle (minerTransfer none) =
    .error (.bail "transaction gossip requires a signature") := rfl
  refine ⟨rfl, startNode_started, by decide +kernel, List.mem_singleton.mpr rfl, ?_,
    by decide +kernel, by decide +kernel⟩
  rw [hrefused]
  exact throw_ne_ok

/-- The same transfer with a signature, through the same command. -/
theorem canonical_transactions_signed_minerBlock :
    minerTransfer (some ⟨false, 1, 1⟩) ∈ (minerBlock (some ⟨false, 1, 1⟩)).transactions ∧
    ∀ t ∈ (minerBlock (some ⟨false, 1, 1⟩)).transactions,
      verifyTransactionSignature nonceOracle t = .ok () := by
  have hsigned : (verifyTransactionSignature nonceOracle (minerTransfer (some ⟨false, 1, 1⟩))).toOption =
      some () := by decide +kernel
  have hops : ∀ op ∈ [Ingestion.networkImport openHost firstBlock,
      .fileImport openHost (fun _ => .ok ()) (minerBlock (some ⟨false, 1, 1⟩))],
      op.FromSigned nonceOracle := by
    refine List.forall_mem_cons.mpr ⟨trivial, List.forall_mem_singleton.mpr ?_⟩
    exact List.forall_mem_singleton.mpr (toOption_eq_some.mp hsigned)
  have hcanonical : (afterFirst (.fileImport openHost (fun _ => .ok ())
      (minerBlock (some ⟨false, 1, 1⟩)))).storage.blocks[(2 : U64)]? =
        some (minerBlock (some ⟨false, 1, 1⟩)) := by decide +kernel
  exact ⟨List.mem_singleton.mpr rfl,
    canonical_transactions_signed rfl rfl startNode_started {} hops hcanonical⟩

end Blq
