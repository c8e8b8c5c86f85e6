import Blq.Lock.Basic

/-!
# What the node's handlers lock (`blq-node`)

The RPC and network handlers share the storage and the mempool, each behind one mutex; the block
imports and candidate replay are serialised by two more. For every handler, `lockProgram` is
the expression of the lock sequences its control flow can produce. A guard is released where
its scope ends, which is where it is dropped, where the block it is bound in ends, or at the
end of the statement it is a temporary of; an early return is the alternative in which the
rest is skipped.

A `try_lock` never waits; it is written as a section of its own, in places where the thread
holds nothing else. The gossip and maintenance queues are filled without either mutex, their
workers lock the storage only.
-/

namespace Blq

open Lock

inductive Mutex where
  | storage
  | mempool
  | blockImport
  | candidateReplay
deriving DecidableEq

instance : Fintype Mutex where
  elems := {.storage, .mempool, .blockImport, .candidateReplay}
  complete m := by cases m <;> decide

inductive Handler where
  | rpcSendTransaction
  | rpcSendRawTransaction
  | rpcBlockTemplate
  | rpcPendingTransactions
  | rpcSubmitBlock
  | newTransaction
  | newTransactionHashes
  | getTransactions
  | transactions
  | importNetworkBlock
  | mempoolPersistence
  | storageWorker
deriving DecidableEq

abbrev LockProgram := RegularExpression (Op Mutex)

namespace LockProgram

def lock (m : Mutex) : LockProgram := .char (.acquire m)

def unlock (m : Mutex) : LockProgram := .char (.release m)

/-- A scope that holds the guard of `m`. -/
def locked (m : Mutex) (body : LockProgram) : LockProgram := lock m * body * unlock m

/-- A statement that holds the guard of `m` as a temporary. -/
def touch (m : Mutex) : LockProgram := lock m * unlock m

/-- Any number of statements that each hold the guard of `m`. -/
def touches (m : Mutex) : LockProgram := (touch m).star

/-- The source's early returns: the rest may be skipped. -/
def maybe (rest : LockProgram) : LockProgram := 1 + rest

/-- `rpc_send_transaction` and `rpc_send_raw_transaction` from the base fee on: the state
check runs under the guard `pending` of the mempool and locks the storage in turn. -/
def submitTransaction : LockProgram :=
  maybe (touch .storage * maybe (locked .mempool (touch .storage) * maybe (touch .mempool)))

/-- `rpc_block_template`: the storage guard lives until the transactions are drained from
the mempool. -/
def rpcBlockTemplate : LockProgram :=
  touches .storage *
    maybe (locked .storage (maybe (touch .mempool)) * maybe (touch .storage))

/-- `reconcile_mempool_with_canonical_state`: separate phases. -/
def reconcileMempoolWithCanonicalState : LockProgram :=
  touch .mempool * touch .storage * touch .mempool

def stageAndPublishCandidate : LockProgram :=
  touches .storage * maybe (locked .candidateReplay (touches .storage))

def rpcSubmitBlock : LockProgram :=
  maybe (touch .storage *
    (maybe (stageAndPublishCandidate * touches .storage) + touch .mempool * touch .storage))

/-- `import_network_block`. For a duplicate and for an orphan the import guard is dropped
under the storage guard. -/
def importNetworkBlock : LockProgram :=
  maybe (lock .blockImport *
    (unlock .blockImport +
      lock .storage *
        (unlock .blockImport * unlock .storage +
          unlock .storage *
            maybe (stageAndPublishCandidate * maybe (touch .mempool) * touch .storage +
              touch .storage * maybe (maybe (touch .mempool) * touch .storage)) *
            unlock .blockImport)))

/-- The network handlers that check one transaction: base fee, state check and `add` lock
one mutex at a time. -/
def checkAndAdd : LockProgram := touch .storage * maybe (touch .mempool)

end LockProgram

open LockProgram

def lockProgram : Handler → LockProgram
  | .rpcSendTransaction => submitTransaction
  | .rpcSendRawTransaction => submitTransaction
  | .rpcBlockTemplate => rpcBlockTemplate
  | .rpcPendingTransactions => reconcileMempoolWithCanonicalState * touch .mempool
  | .rpcSubmitBlock => rpcSubmitBlock
  | .newTransaction => maybe (touch .storage * maybe checkAndAdd)
  | .newTransactionHashes => maybe (touch .mempool)
  | .getTransactions => maybe (touch .mempool)
  | .transactions => maybe (touch .storage * checkAndAdd.star)
  | .importNetworkBlock => importNetworkBlock
  | .mempoolPersistence => (reconcileMempoolWithCanonicalState * touch .mempool).star
  | .storageWorker => touches .storage

/-- The handlers of submitted transactions. -/
def Handler.submits : Handler → Bool
  | .rpcSendTransaction | .rpcSendRawTransaction => true
  | _ => false

/-- The handler of block templates. -/
def Handler.builds : Handler → Bool
  | .rpcBlockTemplate => true
  | _ => false

end Blq
