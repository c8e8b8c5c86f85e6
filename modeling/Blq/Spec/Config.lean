import Blq.Spec.ForkChoice

/-!
# The checks on a configuration file

`NodeConfig::load` refuses some of the files it can read. `ConfigFile` has the fields it looks at
besides those the model of the node uses; reading the file and its syntax are left out.
-/

namespace Blq

def maxSavedPeersLimit : ℕ := 512

def p2pSessionLimit : ℕ := 24

def p2pConfiguredSessionReserve : ℕ := 6

def p2pUntrustedSessionLimit : ℕ := p2pSessionLimit - p2pConfiguredSessionReserve

/-- A configuration as read from its file. -/
structure ConfigFile where
  node : NodeConfig
  requiredPowAlgorithm : Option String
  maxSavedPeers : ℕ
  maxInboundPeers : ℕ

/-- `NodeConfig::load` after the file has been read. -/
def ConfigFile.load (O : Oracle) (file : ConfigFile) : Except String NodeConfig := do
  if file.node.blockTimeV2ActivationHeight = some 0 then
    throw "block_time_v2_activation_height must be above genesis"
  if let some required := file.requiredPowAlgorithm then
    if required ≠ powAlgorithm O then
      throw ("config requires PoW algorithm " ++ required ++ ", but this binary provides " ++
        powAlgorithm O)
  if file.maxSavedPeers = 0 ∨ file.maxSavedPeers > maxSavedPeersLimit then
    throw ("network.max_saved_peers must be between 1 and " ++ toString maxSavedPeersLimit)
  if file.maxInboundPeers = 0 ∨ file.maxInboundPeers > p2pUntrustedSessionLimit then
    throw ("network.max_inbound_peers must be between 1 and " ++ toString p2pUntrustedSessionLimit ++
      " to preserve outbound recovery capacity")
  pure file.node

end Blq
