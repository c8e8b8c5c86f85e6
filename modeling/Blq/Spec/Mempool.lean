import Mathlib.Data.List.Sort
import Blq.Map.Basic
import Blq.Monad.Invariant
import Blq.Spec.Consensus

/-!
# The transaction pool (`blq-mempool`)

The pending transactions, sorted by their fees, with the time each was first seen, the checks
of the node before it adds one, and what `run_node` makes of the saved pool at a restart.
-/

namespace Blq

open Word Result

def maxMempoolTransactions : ℕ := 5000

/-- One gwei. -/
def minGasPriceBix : ℕ := 1000000000

inductive MempoolError where
  | consensus (e : ConsensusError)
  | replacementFeeTooLow
  | mempoolFull
  | feeTooLow
deriving DecidableEq

structure Mempool where
  transactions : List Transaction := []
  firstSeen : Map Hash256 U64 := ∅

/-- Whether the first transaction pays at least as much: the priority fee decides, then the
maximal fee. -/
def paysAtLeast (a b : Transaction) : Prop :=
  b.maxPriorityFeePerGas.toNat < a.maxPriorityFeePerGas.toNat ∨
    (a.maxPriorityFeePerGas = b.maxPriorityFeePerGas ∧ b.maxFeePerGas.toNat ≤ a.maxFeePerGas.toNat)

instance : DecidableRel paysAtLeast := fun a b => by unfold paysAtLeast; infer_instance

namespace Mempool

variable (O : Oracle) (m : Mempool)

def sortByFee (transactions : List Transaction) : List Transaction :=
  transactions.insertionSort paysAtLeast

/-- The first transaction of a sender with a nonce replaced. -/
def replaceFirst (transaction : Transaction) : List Transaction → List Transaction
  | [] => []
  | existing :: rest =>
    if existing.from_ = transaction.from_ ∧ existing.nonce = transaction.nonce then
      transaction :: rest
    else existing :: replaceFirst transaction rest

/-- The pool with a transaction seen now. -/
def insertSeen (transactions : List Transaction) (firstSeen : Map Hash256 U64)
    (transaction : Transaction) (now : U64) : Mempool where
  transactions := sortByFee transactions
  firstSeen := firstSeen.insert (transaction.rpcHash O) now

def add (transaction : Transaction) (baseFeePerGas : Bix) (now : U64) :
    Except MempoolError Mempool := do
  if transaction.maxFeePerGas.toNat < minGasPriceBix then throw .feeTooLow
  (validateTransactionFee transaction baseFeePerGas).mapError .consensus
  if m.transactions.any fun existing => existing.rpcHash O = transaction.rpcHash O then return m
  match m.transactions.find? fun existing =>
      existing.from_ = transaction.from_ ∧ existing.nonce = transaction.nonce with
  | some existing =>
    if transaction.maxFeePerGas.toNat ≤ existing.maxFeePerGas.toNat then
      throw .replacementFeeTooLow
    pure (insertSeen O (replaceFirst transaction m.transactions) m.firstSeen transaction now)
  | none =>
    if m.transactions.length ≥ maxMempoolTransactions then
      match m.transactions.getLast? with
      -- a pool at capacity is not empty
      | none => throw .mempoolFull
      | some lowest =>
        if paysAtLeast lowest transaction then throw .mempoolFull
        pure (insertSeen O (m.transactions.dropLast ++ [transaction])
          (m.firstSeen.erase (lowest.rpcHash O)) transaction now)
    else
      pure (insertSeen O (m.transactions ++ [transaction]) m.firstSeen transaction now)

/-- `add` as a sequence of writes, in the order of the source. -/
def addInPlace (transaction : Transaction) (baseFeePerGas : Bix) (now : U64) :
    EStateM MempoolError Mempool Unit := do
  if transaction.maxFeePerGas.toNat < minGasPriceBix then throw .feeTooLow
  runExcept ((validateTransactionFee transaction baseFeePerGas).mapError .consensus)
  let m ← get
  if m.transactions.any fun existing => existing.rpcHash O = transaction.rpcHash O then return ()
  match m.transactions.find? fun existing =>
      existing.from_ = transaction.from_ ∧ existing.nonce = transaction.nonce with
  | some existing =>
    if transaction.maxFeePerGas.toNat ≤ existing.maxFeePerGas.toNat then
      throw .replacementFeeTooLow
    modify fun m => { m with transactions := replaceFirst transaction m.transactions }
  | none =>
    if m.transactions.length ≥ maxMempoolTransactions then
      match m.transactions.getLast? with
      | none => throw .mempoolFull
      | some lowest =>
        if paysAtLeast lowest transaction then throw .mempoolFull
        modify fun m => { m with transactions := m.transactions.dropLast }
        modify fun m => { m with firstSeen := m.firstSeen.erase (lowest.rpcHash O) }
    modify fun m => { m with transactions := m.transactions ++ [transaction] }
  modify fun m => { m with firstSeen := m.firstSeen.insert (transaction.rpcHash O) now }
  modify fun m => { m with transactions := sortByFee m.transactions }

/-- The pool without the transactions that meet `gone` and without their times. -/
def retain (gone : Transaction → Bool) : Mempool where
  transactions := m.transactions.filter fun transaction => !gone transaction
  firstSeen := (m.transactions.filter gone).foldl
    (fun firstSeen transaction => firstSeen.erase (transaction.rpcHash O)) m.firstSeen

def isExpired (now maxAgeSeconds : U64) (transaction : Transaction) : Bool :=
  let firstSeen := (m.firstSeen[transaction.rpcHash O]?).getD now
  decide (maxAgeSeconds.toNat ≤ (saturatingSub now firstSeen).toNat)

/-- A transaction goes if one with its hash has expired. -/
def removeExpired (now maxAgeSeconds : U64) : Mempool :=
  let removed := (m.transactions.filter (m.isExpired O now maxAgeSeconds)).map (·.rpcHash O)
  m.retain O fun transaction => removed.contains (transaction.rpcHash O)

def hasNonceChain (from_ : Address) (start target : U64) : Bool :=
  (List.range' start.toNat (target.toNat - start.toNat)).all fun nonce =>
    m.transactions.any fun transaction =>
      decide (transaction.from_ = from_) && decide (transaction.nonce.toNat = nonce)

def removeStaleNonces (expectedNonce : Address → U64) : Mempool :=
  m.retain O fun transaction => decide (transaction.nonce.toNat < (expectedNonce transaction.from_).toNat)

def removeIncluded (hashes : List Hash256) : Mempool :=
  m.retain O fun transaction =>
    hashes.contains (transaction.hash O) || hashes.contains (transaction.rpcHash O)

/-- The calls that change a pool. -/
inductive Operation where
  | add (transaction : Transaction) (baseFeePerGas : Bix) (now : U64)
  | removeExpired (now maxAgeSeconds : U64)
  | removeStaleNonces (expectedNonce : Address → U64)
  | removeIncluded (hashes : List Hash256)

/-- The pool after a call, whether or not it returns an error. -/
def apply (m : Mempool) : Operation → Mempool
  | .add transaction baseFeePerGas now => finalState (addInPlace O transaction baseFeePerGas now) m
  | .removeExpired now maxAgeSeconds => m.removeExpired O now maxAgeSeconds
  | .removeStaleNonces expectedNonce => m.removeStaleNonces O expectedNonce
  | .removeIncluded hashes => m.removeIncluded O hashes

/-- The pool of a new node after a sequence of calls. -/
def run (operations : List Operation) : Mempool := operations.foldl (apply O) {}

/-- The comparison of `drain_for_block`: transactions of one sender by their nonces, of
different senders by their fees. It is not transitive in general; what the source's sort
returns is only determined on pools on which it is. -/
def drainsBefore (a b : Transaction) : Prop :=
  if a.from_ = b.from_ then a.nonce.toNat ≤ b.nonce.toNat else paysAtLeast a b

instance : DecidableRel drainsBefore := fun a b => by unfold drainsBefore; infer_instance

/-- The transactions in order, each one skipped that would exceed the gas limit. -/
def takeWithinGas (gasLimit : U64) : U64 → List Transaction → List Transaction
  | _, [] => []
  | gas, transaction :: rest =>
    if (saturatingAdd gas transaction.gasLimit).toNat > gasLimit.toNat then
      takeWithinGas gasLimit gas rest
    else transaction :: takeWithinGas gasLimit (saturatingAdd gas transaction.gasLimit) rest

def drainForBlock (gasLimit : U64) : List Transaction :=
  takeWithinGas gasLimit 0 (m.transactions.insertionSort drainsBefore)

structure PersistedEntry where
  transaction : Transaction
  firstSeen : U64

def save (now : U64) : List PersistedEntry :=
  m.transactions.map fun transaction =>
    ⟨transaction, (m.firstSeen[transaction.rpcHash O]?).getD now⟩

/-- The saved entries added one by one; `clock` is the time at which each one is. -/
def load (entries : List PersistedEntry) (baseFeePerGas : Bix) (clock : Transaction → U64) :
    Mempool :=
  entries.foldl (fun m entry =>
    match m.add O entry.transaction baseFeePerGas (clock entry.transaction) with
    | .ok m' =>
      { m' with firstSeen := m'.firstSeen.insert (entry.transaction.rpcHash O) entry.firstSeen }
    | .error _ => m) {}

end Mempool

/-- Nonces and balances as the storage answers for them. -/
structure SenderView where
  nonce : Address → U64
  balance : Address → Bix

inductive AdmissionError where
  | invalidNonce (from_ : Address) (expected got : U64)
  | insufficientBalance (from_ : Address) (required available : Bix)
deriving DecidableEq

/-- What a transaction may cost its sender at a base fee. -/
def requiredBalance (transaction : Transaction) (baseFee : Bix) : Bix :=
  let effectiveGasPrice :=
    minWord transaction.maxFeePerGas (saturatingAdd baseFee transaction.maxPriorityFeePerGas)
  let fee := saturatingMul (transaction.gasLimit.setWidth 128) effectiveGasPrice
  saturatingAdd transaction.value fee

def validateTransactionAgainstCurrentStateWithPending (view : SenderView)
    (transaction : Transaction) (baseFee : Bix) (pending : Option Mempool) :
    Except AdmissionError Unit := do
  let expectedNonce := view.nonce transaction.from_
  let queuedSequence := decide (expectedNonce.toNat < transaction.nonce.toNat) &&
    pending.any fun mempool =>
      mempool.hasNonceChain transaction.from_ expectedNonce transaction.nonce
  if expectedNonce ≠ transaction.nonce ∧ queuedSequence = false then
    throw (.invalidNonce transaction.from_ expectedNonce transaction.nonce)
  let required := requiredBalance transaction baseFee
  let balance := view.balance transaction.from_
  if balance.toNat < required.toNat then
    throw (.insufficientBalance transaction.from_ required balance)

def validateTransactionAgainstCurrentState (view : SenderView) (transaction : Transaction)
    (baseFee : Bix) : Except AdmissionError Unit :=
  validateTransactionAgainstCurrentStateWithPending view transaction baseFee none

/-- The pool `run_node` starts with: the saved one loaded, every transaction of it checked
against the state and added to a new pool, and the stale nonces removed. -/
def restoreMempool (O : Oracle) (view : SenderView) (baseFee : Bix) (clock : Transaction → U64)
    (saved : List Mempool.PersistedEntry) : Mempool :=
  let restored := Mempool.load O saved baseFee clock
  let validated := restored.transactions.foldl (fun (m : Mempool) transaction =>
    match validateTransactionAgainstCurrentState view transaction baseFee with
    | .ok _ =>
      match m.add O transaction baseFee (clock transaction) with
      | .ok m' => m'
      | .error _ => m
    | .error _ => m) {}
  validated.removeStaleNonces O view.nonce

end Blq
