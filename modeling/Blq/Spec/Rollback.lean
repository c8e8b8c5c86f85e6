import Blq.Spec.ForkChoice

/-!
# Rolling the chain back (`blq-node`)

The offline command that shortens the canonical chain, from the point where the database is open
and its genesis block has been checked: the canonical rows are removed and the chain up to the
requested height is replayed.
-/

namespace Blq

open Word Result

variable (O : Oracle) (R : Revm) (config : NodeConfig)

/-- The stored blocks up to the height, counted from the first stored one. -/
def rollbackReplacement (s : SledStorage) (height : U64) : List Block :=
  s.canonicalBlocks.take (height.toNat + 1)

/-- `rollback_node`. A failed replay is followed by one more removal of the canonical rows. -/
def rollbackNode (height : U64) : StoreM Unit := do
  let s ← get
  let some current := s.canonicalBlocks.getLast? | throw (.bail "cannot roll back an empty chain")
  if height.toNat ≥ current.header.number.toNat then
    throw (.bail ("rollback height " ++ toString height.toNat ++ " is not below current height " ++
      toString current.header.number.toNat))
  let replacement := rollbackReplacement s height
  if replacement.isEmpty then throw (.bail "rollback target is empty")
  modify SledStorage.clearCanonicalState
  match ← attempt (replayCanonicalChain O R config replacement) with
  | .ok _ => pure ()
  | .error err =>
    modify SledStorage.clearCanonicalState
    throw err

end Blq
