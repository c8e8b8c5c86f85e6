import Blq.Proof.Persist
import Blq.Spec.Miner

/-!
# Execution before and after sealing

A block is executed twice: by the node that builds the template and, with the fields that
mining has filled in, by every node that receives it. The executor reads the mix hash as
`prevrandao`, and the mix hash is one of those fields.

* `executeBlock_sealWith`: sealing with the template's own mix hash changes nothing.
* `executeBlock_sealWith_plain`: a plain block executes the same under every seal.
* `sealed_block_accepted_iff`: every executor's template is accepted after sealing exactly
  when the block has no contract transaction or the mix hash stays the template's.
-/

namespace Blq

open Word Result

variable {O : Oracle} {R : Revm}

/-! ## What sealing leaves -/

variable (s : SledStorage) (block : Block)

theorem executeBlock_sealWith (nonce extraNonce : U64) (e : Executed) :
    executeBlock O R s ((block.withExecution O e).sealWith nonce extraNonce block.header.mixHash) =
      executeBlock O R s block := rfl

theorem executeBlock_sealWith_plain (nonce extraNonce : U64) (mixHash : Hash256) (e : Executed)
    (hplain : ¬block.transactions.any isEvmTransaction = true) :
    executeBlock O R s ((block.withExecution O e).sealWith nonce extraNonce mixHash) =
      executeBlock O R s block := by
  have hplain' : ¬((block.withExecution O e).sealWith nonce extraNonce
    mixHash).transactions.any isEvmTransaction = true := hplain
  unfold executeBlock
  rw [if_neg hplain, if_neg hplain']
  rfl

theorem buildStatefulBlock_ok {s : SledStorage} {block built : Block}
    {transactions : List Transaction} (h : buildStatefulBlock O R s block transactions = .ok built) :
    ∃ e, executeBlock O R s { block with transactions := transactions } = .ok e ∧
      built = Block.withExecution O { block with transactions := transactions } e := by
  simp only [buildStatefulBlock, bind_eq_ok, pure_eq_ok] at h
  obtain ⟨e, he, rfl⟩ := h
  exact ⟨e, he, rfl⟩

variable {mixHash : Hash256} {header : BlockHeader}

theorem validateStateRoot_of_executeBlock {s : SledStorage} {block : Block} {e : Executed}
    {nonce extraNonce : U64}
    (h : executeBlock O R s ((block.withExecution O e).sealWith nonce extraNonce mixHash) = .ok e) :
    validateStateRoot O R s ((block.withExecution O e).sealWith nonce extraNonce mixHash) =
      .ok () := by
  have hchecks : ∀ subject receiptsOf root against,
      validateExecuted O ((block.withExecution O e).sealWith nonce extraNonce mixHash) e subject
        receiptsOf root against = .ok () := by
    intro subject receiptsOf root against
    simp [validateExecuted, Block.sealWith, BlockHeader.sealWith, Block.withExecution, pure,
      Except.pure]
  rw [validateStateRoot, h]
  simp only [bind, Except.bind, hchecks, ite_self]

/-! ## An executor that reads the mix hash -/

/-- The executor `R`, refusing every transaction of a block whose `prevrandao` is `mixHash`. -/
def refusing (R : Revm) (mixHash : Hash256) : Revm where
  transact chainId S env tx :=
    if env.prevrandao = some mixHash then .error "refused" else R.transact chainId S env tx

theorem blockEnv_prevrandao {env : BlockEnv} (h : blockEnv header = .ok env) :
    env.prevrandao = some header.mixHash := by
  simp only [blockEnv, ite_else_throw_eq_ok, pure_eq_ok] at h
  obtain ⟨-, rfl⟩ := h
  rfl

theorem executeTransaction_refusing_of_ne {S : RevmState} {t : Transaction}
    (h : header.mixHash ≠ mixHash) :
    executeTransaction (refusing R mixHash) S header t = executeTransaction R S header t := by
  unfold executeTransaction
  cases henv : blockEnv header with
  | error e => rfl
  | ok env =>
    have hne : ¬env.prevrandao = some mixHash := by
      rw [blockEnv_prevrandao henv]
      exact fun hsome => h (Option.some.inj hsome)
    simp only [ok_bind, refusing, if_neg hne]

theorem executeTransaction_refusing_ne_ok {S : RevmState} {t : Transaction}
    {out : ExecutionOutput × RevmState} :
    executeTransaction (refusing R header.mixHash) S header t ≠ .ok out := by
  intro h
  simp only [executeTransaction, bind_eq_ok] at h
  obtain ⟨env, henv, h⟩ := h
  simp [refusing, blockEnv_prevrandao henv] at h

theorem executeBlock_refusing_of_ne (h : block.header.mixHash ≠ mixHash) :
    executeBlock O (refusing R mixHash) s block = executeBlock O R s block := by
  have hstep : evmTransactionStep O (refusing R mixHash) block.header =
      evmTransactionStep O R block.header := by
    funext p t
    simp only [evmTransactionStep, executeTransaction_refusing_of_ne h]
  simp only [executeBlock, simulateEvmStateTransition, simulateEvmStateTransitionFromState,
    executeEvmStateTransitionInPlace, hstep]

theorem executeBlock_refusing_ne_ok {e : Executed}
    (hevm : block.transactions.any isEvmTransaction = true) :
    executeBlock O (refusing R block.header.mixHash) s block ≠ .ok e := by
  intro h
  obtain ⟨t, ts, hts⟩ : ∃ t ts, block.transactions = t :: ts := by
    cases htx : block.transactions with
    | nil => rw [htx] at hevm; cases hevm
    | cons t ts => exact ⟨t, ts, rfl⟩
  simp only [executeBlock, if_pos hevm, simulateEvmStateTransition,
    simulateEvmStateTransitionFromState, bind_eq_ok] at h
  obtain ⟨sim, ⟨timestamp, -, hsim⟩, -⟩ := h
  obtain ⟨p, hloop, -, -⟩ := executeEvmStateTransitionInPlace_ok hsim
  rw [hts, List.foldlM_cons, bind_eq_ok] at hloop
  obtain ⟨p₁, hstep, -⟩ := hloop
  obtain ⟨out, r, hexec, -⟩ := evmTransactionStep_ok hstep
  exact executeTransaction_refusing_ne_ok hexec

/-- **Which templates survive sealing.** For every store, block and selection of transactions
that some executor can build, and every nonce, extra nonce and mix hash: all executors that
build the block accept it with these fields filled in exactly when no transaction is a
contract transaction or the mix hash is the one the template was executed with. -/
theorem sealed_block_accepted_iff {s : SledStorage} {block : Block}
    {transactions : List Transaction} (nonce extraNonce : U64) (mixHash : Hash256)
    (hbuild : ∃ R built, buildStatefulBlock O R s block transactions = .ok built) :
    (∀ R built, buildStatefulBlock O R s block transactions = .ok built →
      validateStateRoot O R s (built.sealWith nonce extraNonce mixHash) = .ok ()) ↔
      (transactions.any isEvmTransaction = false ∨ mixHash = block.header.mixHash) := by
  constructor
  · intro hall
    by_contra hnot
    rw [not_or, Bool.not_eq_false] at hnot
    obtain ⟨hevm, hmix⟩ := hnot
    obtain ⟨R, built, hR⟩ := hbuild
    -- the executor that refuses the sealed header builds the same block
    have hrefuse : buildStatefulBlock O (refusing R mixHash) s block transactions = .ok built := by
      rw [← hR]
      unfold buildStatefulBlock
      simp only [executeBlock_refusing_of_ne s { block with transactions := transactions }
        (Ne.symm hmix)]
    have hvalid := hall _ _ hrefuse
    obtain ⟨e, -, rfl⟩ := buildStatefulBlock_ok hR
    simp only [validateStateRoot, bind_eq_ok] at hvalid
    obtain ⟨e', he', -⟩ := hvalid
    exact executeBlock_refusing_ne_ok s
      ((Block.withExecution O { block with transactions := transactions } e).sealWith nonce
        extraNonce mixHash) hevm he'
  · intro hcases R built hR
    obtain ⟨e, he, rfl⟩ := buildStatefulBlock_ok hR
    refine validateStateRoot_of_executeBlock ?_
    rcases hcases with hplain | rfl
    · rw [executeBlock_sealWith_plain, he]
      rw [hplain]
      simp
    · exact (executeBlock_sealWith s _ nonce extraNonce e).trans he

/-! ## A contract that stores the mix hash

A contract that writes `prevrandao` into a storage slot: writing a non-zero value costs more
gas than writing zero. -/

def randaoRevm : Revm where
  transact _ S env tx :=
    let random := env.prevrandao.getD 0
    .ok ({ success := true, gasUsed := if random = 0 then 23300 else 43200, output := [], logs := [] },
      ((∅ : Changes).insert tx.caller
        { selfdestructed := false
          nonce := tx.nonce + 1
          balance := (S.account tx.caller).balance
          code := none
          storage := ∅ }).insert carol
        { selfdestructed := false
          nonce := 1
          balance := 0
          code := some [0x44, 0x5f, 0x55]
          storage := (∅ : Map U256 U256).insert 0 random })

def mixOracle : Oracle := { zeroOracle with rxHash := fun _ _ => ⟨7, 0⟩ }

def minedTemplate : BlockTemplate :=
  buildEmptyTemplateWithGenesis mixOracle (genesisHeader mixOracle) 0xb2 30 0

/-- Build a block with one call of the contract, seal its template, check the sealed block. -/
def builtAndSealed : Option (Except NodeError Unit) :=
  match buildStatefulBlock mixOracle randaoRevm fundedStore minedTemplate.intoUnsealedBlock
      [callTransaction alice 2000000000 0] with
  | .ok built =>
    (sealEmptyTemplateWithGenesis mixOracle
      { minedTemplate with header := built.header, transactions := built.transactions } 0 1 0).map
      fun found => validateStateRoot mixOracle randaoRevm fundedStore
        { found.intoUnsealedBlock with receipts := built.receipts }
  | .error _ => none

/-- The node's own template is refused once it is mined. -/
theorem sealed_template_is_refused :
    builtAndSealed = some (.error (.bail
      "block gas used does not match EVM execution: expected 43200, got 23300")) := by
  decide +kernel

theorem sealed_block_accepted_template :
    (∀ R built, buildStatefulBlock mixOracle R fundedStore minedTemplate.intoUnsealedBlock
        [callTransaction alice 2000000000 0] = .ok built →
      validateStateRoot mixOracle R fundedStore (built.sealWith 5 1 7) = .ok ()) ↔
      ([callTransaction alice 2000000000 0].any isEvmTransaction = false ∨
        (7 : Hash256) = minedTemplate.intoUnsealedBlock.header.mixHash) := by
  refine sealed_block_accepted_iff 5 1 7 ⟨randaoRevm, ?_⟩
  exact exists_ok_of_isOk (by decide +kernel)

end Blq
