import Blq.Spec.ForkChoice

/-!
# Finding a common ancestor (`blq-node`)

Before a node fetches a peer's branch it sends the hashes of some of its canonical blocks, one by
one from the tip down and then with growing gaps, and the peer answers with the first of them that
it knows.
-/

namespace Blq

open Word Result

/-- `Hash256::from_hex`; its error is never reported. -/
def Hash256.fromHex (value : String) : Option Hash256 :=
  match decodeHex value with
  | .error _ => none
  | .ok bytes => if bytes.length ≠ 32 then none else some (BitVec.ofNat 256 (ofBeBytes bytes))

section

variable (O : Oracle) (s : SledStorage)

/-- The loop of `recovery_locator`, with `count` hashes pushed before. Each turn but the last one
goes down, so the fuel is the height. -/
def recoveryLocatorFrom : ℕ → U64 → U64 → ℕ → Except NodeError (List String)
  | 0, _, _, _ => pure []
  | fuel + 1, height, step, count => do
    let block ← liftStorage (s.blockByNumber height)
    let hash := Hash256.toHex (block.header.hash O)
    if height = 0 then pure [hash]
    else do
      let step' := if count + 1 ≥ 10 then saturatingMul step 2 else step
      let hashes ← recoveryLocatorFrom fuel (saturatingSub height step) step' (count + 1)
      pure (hash :: hashes)

def recoveryLocator : Except NodeError (List String) := do
  let best ← liftStorage s.bestHeader
  recoveryLocatorFrom O s (best.number.toNat + 1) best.number 1 0

/-- The message `CommonAncestor`. -/
structure CommonAncestor where
  height : Option U64
  hash : Option String
deriving DecidableEq

/-- The answer to `FindCommonAncestor`. -/
def findCommonAncestor (locator : List String) : Except NodeError CommonAncestor :=
  if locator.length > maxP2pHeaders then throw (.bail "peer sent too many locator hashes")
  else
    let ancestor := locator.findSome? fun encoded => do
      let hash ← Hash256.fromHex encoded
      let header ← (s.headerByHash O hash).toOption
      pure (header.number, hash)
    pure ⟨ancestor.map fun (height, _) => height, ancestor.map fun (_, hash) => Hash256.toHex hash⟩

end

/-- A node asks another one. -/
def locatorExchange (O : Oracle) (requester responder : SledStorage) :
    Except NodeError CommonAncestor := do
  let locator ← recoveryLocator O requester
  findCommonAncestor O responder locator

end Blq
