import Blq.Spec.Generation

/-!
# Removing block bodies (`blq-storage`, `blq-node`)

A node with a quota removes bodies until it is below nine tenths of it: `pruneOldBlocks` goes
through the bodies above a floor, lowest first, and leaves the headers alone. The floor is the
finalized height of the active generation's manifest. The size of the directory is not a
function of the entries, so it is given as the answers to the questions the loop asks.
-/

namespace Blq

open Word

namespace SledStorage

/-- A body with its transactions, receipts and log indexes, which have no map here. -/
def removeBody (s : SledStorage) (number : U64) : SledStorage :=
  { s with blocks := s.blocks.erase number }

/-- The loop of `prune_old_blocks`; `usage asked` is what the next question is answered. -/
def pruneBodies (usage : ℕ → U64) (target : U64) : ℕ → List U64 → SledStorage → SledStorage
  | _, [], s => s
  | asked, number :: rest, s =>
    if (usage asked).toNat ≤ target.toNat then s
    else
      match s.blockByNumber number with
      | .error _ => pruneBodies usage target (asked + 1) rest s
      | .ok _ => pruneBodies usage target (asked + 1) rest (s.removeBody number)

def pruneTarget (maxBytes : U64) : U64 := saturatingMul maxBytes 9 / 10

/-- The scan is in the order of the heights. -/
def prunableNumbers (s : SledStorage) (minimumBodyHeight : U64) : List U64 :=
  (s.blocks.toList.map Prod.fst).filter fun number => number.toNat > minimumBodyHeight.toNat

def pruneOldBlocks (s : SledStorage) (usage : ℕ → U64) (maxBytes minimumBodyHeight : U64) :
    SledStorage :=
  pruneBodies usage (pruneTarget maxBytes) 0 (s.prunableNumbers minimumBodyHeight) s

end SledStorage

/-- The floor, from the manifest of the active generation. -/
def pruneFloor (retainFinalizedCheckpoints : Bool) (manifest : Option GenerationManifest) : U64 :=
  if !retainFinalizedCheckpoints then 0
  else (manifest.map GenerationManifest.finalizedHeight).getD 0

end Blq
