import Blq.Map.Basic
import Blq.Spec.Primitives

/-!
# The state in memory (`blq-state`)

Accounts with all their data in one map. A failed transfer may leave any state behind, so the state
is passed along beside the error.
-/

namespace Blq

open Word

structure Account where
  nonce : U64
  balance : Bix
  codeHash : Hash256
  storageRoot : Hash256
  code : Bytes
  storage : Map Hash256 Hash256

def Account.empty : Account := ⟨0, 0, 0, 0, [], ∅⟩

inductive StateError where
  | insufficientBalance
  | invalidNonce

structure InMemoryState where
  accounts : Map Address Account := ∅

namespace InMemoryState

def account (s : InMemoryState) (address : Address) : Account :=
  (s.accounts[address]?).getD Account.empty

def putAccount (s : InMemoryState) (address : Address) (account : Account) : InMemoryState :=
  { s with accounts := s.accounts.insert address account }

/-- The receiver is read before the sender is written. -/
def transfer (from_ to_ : Address) (nonce : U64) (value fee : Bix) :
    EStateM StateError InMemoryState Unit := do
  let sender := (← get).account from_
  if sender.nonce ≠ nonce then throw .invalidNonce
  let total := saturatingAdd value fee
  if sender.balance.toNat < total.toNat then throw .insufficientBalance
  let receiver := (← get).account to_
  modify fun s => s.putAccount from_
    { sender with balance := sender.balance - total, nonce := sender.nonce + 1 }
  modify fun s => s.putAccount to_
    { receiver with balance := saturatingAdd receiver.balance value }

end InMemoryState

end Blq
