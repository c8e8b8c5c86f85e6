import Blq.Spec.GenerationChain

/-!
# The directory of the generations (`blq-storage`, `blq-node`)

The generations of a node with the staged ones next to them and the pointer to the active one, and
what moves the pointer: the publication of a staged generation, the fallback to a verified one, the
restoration of a generation that was marked without need, and the start of the node, which tries
these and a snapshot. Old generations are removed by their identifiers alone.

The directory exists, and a generation's directory holds a database. What is in the file of a
snapshot is not described: restoring one stages the generation it is given.
-/

namespace Blq

open Word Result

/-- The directory of a node: the generations, the identifier of the active one, and the directories
that end in `.staging`. -/
structure GenerationRoot where
  active : Option U64
  generations : Map U64 Generation
  staging : Map U64 Generation := ∅

abbrev RootM := EStateM NodeError GenerationRoot

namespace GenerationRoot

variable (O : Oracle) (expectedGenesis : Option Hash256)

/-! ## Directories -/

/-- The identifiers of the directories, in ascending order. -/
def ids (root : GenerationRoot) : List U64 := root.generations.toList.map fun (id, _) => id

/-- `Vec::dedup` -/
def dedup : List U64 → List U64
  | a :: b :: rest => if a = b then dedup (b :: rest) else a :: dedup (b :: rest)
  | rest => rest

/-- The active generation, then all of them from the latest. -/
def candidates (root : GenerationRoot) : List U64 := dedup (root.active.toList ++ root.ids.reverse)

def storeGeneration (root : GenerationRoot) (id : U64) (g : Generation) : GenerationRoot :=
  { root with generations := root.generations.insert id g }

/-- A computation in the directory of a generation, which opening creates if it is missing. -/
def inGeneration {α : Type} (id : U64) (x : DiskM α) : RootM (Except NodeError α) := fun root =>
  match x ⟨(root.generations[id]?).getD {}, []⟩ with
  | .ok a d => .ok (.ok a) (root.storeGeneration id d.current)
  | .error e d => .ok (.error e) (root.storeGeneration id d.current)

def loadGenerationManifest (id : U64) : RootM (Option GenerationManifest) := do
  pure ((← get).generations[id]?.bind Generation.manifest)

/-- A manifest is only written to a directory that is there. -/
def writeManifest (id : U64) (m : GenerationManifest) : RootM Unit :=
  modify fun root => match root.generations[id]? with
    | some g => root.storeGeneration id { g with manifest := some m }
    | none => root

def activateGeneration (id : U64) : RootM Unit := modify fun root => { root with active := some id }

def failGeneration (id : U64) : RootM Unit :=
  modify fun root => match root.generations[id]? with
    | some g => root.storeGeneration id g.failGeneration
    | none => root

/-- All but the two with the highest identifiers are removed. -/
def pruneOldGenerations (root : GenerationRoot) : GenerationRoot :=
  { root with generations := (root.ids.reverse.drop 2).foldl (fun m id => m.erase id) root.generations }

/-! ## Publication -/

def padded (id : U64) : String :=
  let digits := toString id.toNat
  String.ofList (List.replicate (20 - digits.length) '0') ++ digits

def stagingPath (id : U64) : String := "generation-" ++ padded id ++ ".staging"

def generationPath (id : U64) : String := "generation-" ++ padded id

/-- The files of the staged generation are written and checked in its staging directory. -/
def sealStaging (m : GenerationManifest) : DiskM Unit := do
  Generation.writeGenerationManifest m
  Generation.writeGenerationPublication O m
  Generation.openStorage O
  let _ ← Generation.verifyGenerationManifest O

/-- The paths in the messages are relative to the directory of the generations. -/
def publishStagingGeneration (id : U64) (m : GenerationManifest) : RootM Unit := do
  if m.generationId ≠ id ∨ m.status ≠ .verified then
    throw (.storage (.serialization "only a matching verified generation can be published"))
  let root ← get
  match root.staging[id]? with
  | none => throw (.storage (.io ("staging generation is missing: " ++ stagingPath id)))
  | some staged =>
    match sealStaging O m ⟨staged, []⟩ with
    | .error e d =>
      set { root with staging := root.staging.insert id d.current }
      throw e
    | .ok _ d =>
      if root.generations.contains id then
        set { root with staging := root.staging.insert id d.current }
        throw (.storage (.io ("generation already published: " ++ generationPath id)))
      set { root with
        staging := root.staging.erase id
        generations := root.generations.insert id d.current }
      activateGeneration id

/-- The first identifier from the given one on under which there is no directory. -/
def freeId (root : GenerationRoot) : ℕ → U64 → U64
  | 0, id => id
  | fuel + 1, id =>
    if root.generations.contains id ∨ root.staging.contains id then
      freeId root fuel (saturatingAdd id 1)
    else id

/-! ## Fallback -/

def generationPathIsValid (id : U64) : RootM Bool := do
  match ← loadGenerationManifest id with
  | none => pure false
  | some m =>
    if m.status ≠ .verified ∧ m.status ≠ .active then return false
    match ← inGeneration id (Generation.openStorage O) with
    | .error e => throw e
    | .ok _ =>
      match ← inGeneration id (Generation.verifyGenerationManifest O) with
      | .error _ => pure false
      | .ok _ => pure true

/-- The valid ones of the listed generations. -/
def validGenerations : List U64 → RootM (List U64)
  | [] => pure []
  | id :: rest => do
    let valid ← generationPathIsValid O id
    let others ← validGenerations rest
    pure (if valid then id :: others else others)

/-- From the latest. -/
def verifiedGenerationPaths : RootM (List U64) := do
  let valid ← validGenerations O (← get).ids
  pure valid.reverse

/-- Whether the active generation was kept. An invalid one is marked. -/
def keepActive : RootM Bool := do
  match (← get).active with
  | none => pure false
  | some id =>
    match ← loadGenerationManifest id with
    | none => pure false
    | some m =>
      if m.status ≠ .verified ∧ m.status ≠ .active then return false
      if ← generationPathIsValid O id then return true
      writeManifest id { m with status := .failed }
      pure false

def recoverGenerationState : RootM Unit := do
  modify fun root => { root with staging := ∅ }
  if ← keepActive O then return
  match ← verifiedGenerationPaths O with
  | [] => pure ()
  | id :: _ =>
    activateGeneration id
    match ← loadGenerationManifest id with
    | none => pure ()
    | some m => writeManifest id { m with status := .active }

/-! ## Generations that were marked without need -/

/-- The work of the stored chain and its tip; headers are enough. -/
def generationWork (s : SledStorage) : Except StorageError (U128 × BlockHeader) := do
  let best ← s.bestHeader
  let headers ← (SledStorage.heights 0 best.number).mapM s.headerByNumber
  pure (headers.foldl (fun work header => saturatingAdd work (workForTarget header.difficultyTarget)) 0,
    best)

/-- A generation that opens, with the work and the hash of its tip. -/
def openWithWork (id : U64) : RootM (Except NodeError (U128 × Hash256)) :=
  inGeneration id do
    Generation.openCandidate O expectedGenesis
    let (work, tip) ← Generation.readDatabase generationWork
    pure (work, tip.hash O)

def expectedProfile : String :=
  consensusProfileForGenesis O (expectedGenesis.getD ((genesisHeader O).hash O))

/-- The best generation so far, with its work and hash, after one more directory. -/
def restoreFailed (best : Option (U64 × U128 × Hash256)) (id : U64) :
    RootM (Option (U64 × U128 × Hash256)) := do
  let root ← get
  let some g := root.generations[id]? | pure best
  let some m := g.manifest | pure best
  if m.status ≠ .failed ∨ m.profileFingerprint ≠ expectedProfile O expectedGenesis then return best
  let some record := g.publication | pure best
  if record.generationId ≠ id then return best
  writeManifest id { m with status := .verified }
  match ← openWithWork O expectedGenesis id with
  | .error _ =>
    writeManifest id m
    pure best
  | .ok (work, hash) =>
    match best with
    | none => pure (some (id, work, hash))
    | some (_, bestWork, bestHash) =>
      if work.toNat > bestWork.toNat ∨ (work = bestWork ∧ hash.toNat < bestHash.toNat) then
        pure (some (id, work, hash))
      else pure best

/-- The active generation, if it opens. -/
def activeWithWork (active : Option U64) : RootM (Option (U64 × U128 × Hash256)) := do
  match active with
  | none => pure none
  | some id =>
    match ← openWithWork O expectedGenesis id with
    | .error _ => pure none
    | .ok (work, hash) => pure (some (id, work, hash))

def restoreFailedPublicationGenerations : RootM Unit := do
  let root ← get
  let best ← activeWithWork O expectedGenesis root.active
  let best ← (← get).ids.foldlM (restoreFailed O expectedGenesis) best
  match best with
  | none => pure ()
  | some (id, _, _) => if root.active ≠ some id then activateGeneration id

/-! ## The start of a node -/

/-- The first candidate that opens becomes the active generation; those before are marked. -/
def openGenerations (active : Option U64) : List U64 → RootM (Option U64)
  | [] => pure none
  | id :: rest => do
    match ← inGeneration id (Generation.openCandidate O expectedGenesis) with
    | .ok _ =>
      if active ≠ some id then activateGeneration id
      pure (some id)
    | .error _ =>
      failGeneration id
      openGenerations active rest

/-- A snapshot as the generation and the manifest it is staged as under an identifier. -/
abbrev StagedSnapshot := U64 → Generation × GenerationManifest

/-- The first snapshot that can be published, under an identifier above all others. -/
def restoreLatestGenerationSnapshot : List StagedSnapshot → RootM (Option U64)
  | [] => pure none
  | snapshot :: rest => do
    let root ← get
    let highest := root.ids.getLastD 0
    let id := freeId root (root.generations.size + root.staging.size + 1) (saturatingAdd highest 1)
    let (staged, m) := snapshot id
    match (Generation.openCandidate O expectedGenesis) ⟨staged, []⟩ with
    | .error _ _ => restoreLatestGenerationSnapshot rest
    | .ok _ d =>
      set { root with staging := root.staging.insert id d.current }
      match ← attempt (publishStagingGeneration O id m) with
      | .ok _ => pure (some id)
      | .error _ =>
        modify fun root => { root with staging := root.staging.erase id }
        restoreLatestGenerationSnapshot rest

/-- `NodeStorage::open` of a full node as far as it concerns the generations: the one it serves. The
database next to the generations is opened last, and its opening looks for a fallback. -/
def openNode (snapshots : List StagedSnapshot) : RootM (Option U64) := do
  restoreFailedPublicationGenerations O expectedGenesis
  let root ← get
  match ← openGenerations O expectedGenesis root.active root.candidates with
  | some id => pure (some id)
  | none =>
    match ← restoreLatestGenerationSnapshot O expectedGenesis snapshots with
    | some id => pure (some id)
    | none =>
      recoverGenerationState O
      pure none

end GenerationRoot

end Blq
