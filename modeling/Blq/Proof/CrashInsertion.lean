import Blq.Proof.GenerationRoot

/-!
# A crash while a block is inserted

`NodeStorage::insert_block` writes the body, the index rows, the header, the pointer to the tip, every
account and at last the manifest and its publication record, each write on its own. The node is
started again on what a crash between two of them leaves. Here:

* `openNode_active`, `openNode_refuses`: a node next to whose active generation none is tried again
  starts with that one exactly if it opens;
* `left_by_insertion`: all that a crash can leave;
* `survives_crash_iff`: for a new block, the node comes back with the generation as it was before or
  after the insertion exactly if nothing was written or the manifest was;
* `crash_between_writes`: a store with a block above its tip, and a generation that is not accepted
  any more.
-/

namespace Blq

open Word Result

variable {O : Oracle} {R : Revm} {expectedGenesis : Option Hash256} {g g' : Generation}

namespace Generation

/-! ## What is compared -/

/-- Two generations with the same tip, chain, index rows and accounts. -/
structure SameContent (g g' : Generation) : Prop where
  tip : g.store.bestHeader = g'.store.bestHeader
  blocks : g.store.canonicalBlocks = g'.store.canonicalBlocks
  transactions : g.transactions = g'.transactions
  receipts : g.receipts = g'.receipts
  accounts : g.accountRows = g'.accountRows

/-! ## Opening a generation without a journal -/

/-- What `NodeStorage::open` asks of a generation. -/
structure Opens (O : Oracle) (expectedGenesis : Option Hash256) (g : Generation) : Prop where
  identity : g.validateGenerationIdentity O expectedGenesis = .ok ()
  indexed : ∃ best tip, g.store.bestHeader = .ok best ∧ g.store.headerByNumber best.number = .ok tip ∧
    tip.hash O = best.hash O
  verifies : Verifies O g

theorem SameContent.of_files (hstore : g'.store = g.store)
    (htransactions : g'.transactions = g.transactions) (hreceipts : g'.receipts = g.receipts) :
    SameContent g' g := by
  refine ⟨by rw [hstore], by rw [hstore], htransactions, hreceipts, ?_⟩
  unfold accountRows
  rw [hstore]

theorem SameContent.symm (h : SameContent g g') : SameContent g' g :=
  ⟨h.tip.symm, h.blocks.symm, h.transactions.symm, h.receipts.symm, h.accounts.symm⟩

theorem SameContent.trans {g'' : Generation} (h : SameContent g g') (h' : SameContent g' g'') :
    SameContent g g'' :=
  ⟨h.tip.trans h'.tip, h.blocks.trans h'.blocks, h.transactions.trans h'.transactions,
    h.receipts.trans h'.receipts, h.accounts.trans h'.accounts⟩

/-- What a generation without a journal is after it was opened: its publication record may be a new
one. -/
structure Reopened (O : Oracle) (expectedGenesis : Option Hash256) (g g' : Generation) : Prop where
  content : SameContent g' g
  opens : Opens O expectedGenesis g'
  journal : g'.journal = none

/-- The check may write the publication record. -/
theorem Opens.verify (h : Opens O expectedGenesis g) (hjournal : g.journal = none) :
    ∃ m d, verifyGenerationManifest O ⟨g, []⟩ = .ok m d ∧ Reopened O expectedGenesis g d.current := by
  obtain ⟨m, best, hm⟩ := verifies_iff.mp h.verifies
  obtain ⟨stale, hcheck⟩ := hm.check
  have hchecked : runExcept (liftStorage (g.checkGenerationManifest O)) (⟨g, []⟩ : Durable Generation) =
      .ok (m, stale) ⟨g, []⟩ := runExcept_apply_of_ok (by rw [hcheck]; rfl)
  unfold verifyGenerationManifest
  rw [onDisk_bind_apply, bind_apply_of_ok hchecked]
  cases stale with
  | false => exact ⟨m, ⟨g, []⟩, rfl, .of_files rfl rfl rfl, h, hjournal⟩
  | true =>
    have hrecord : VerifiedBy O { g with publication := some (publicationOf O m) } m best := by
      refine ⟨hm.manifest, hm.status, hm.tip, hm.describes, ?_, hm.named, hm.stored⟩
      rintro _ ⟨⟩
      rfl
    exact ⟨m, _, rfl, .of_files rfl rfl rfl,
      ⟨h.identity, h.indexed, verifies_iff.mpr ⟨m, best, hrecord⟩⟩, hjournal⟩

theorem openStorage_of_journal (hjournal : g.journal = none) :
    openStorage O ⟨g, []⟩ = .ok () ⟨g, []⟩ := by
  unfold openStorage recoverSuffixPublication
  rw [onDisk_bind_apply, hjournal]
  rfl

/-- **A generation that `Opens` is accepted, and would be again.** -/
theorem Opens.openCandidate (h : Opens O expectedGenesis g) (hjournal : g.journal = none) :
    ∃ d, openCandidate O expectedGenesis ⟨g, []⟩ = .ok () d ∧
      Reopened O expectedGenesis g d.current := by
  obtain ⟨best, tip, hbest, htip, hhash⟩ := h.indexed
  obtain ⟨m, d, hverify, hreopened⟩ := h.verify hjournal
  refine ⟨d, ?_, hreopened⟩
  unfold Generation.openCandidate validateGenerationStorageOnOpen
  rw [bind_apply_of_ok (openStorage_of_journal hjournal), onDisk_bind_apply,
    runExcept_bind_of_ok h.identity, readDatabase_bind_of_ok (d := ⟨g, []⟩) hbest,
    readDatabase_bind_of_ok (d := ⟨g, []⟩) htip, if_neg (not_not.mpr hhash)]
  exact bind_apply_of_ok hverify

/-- **Any other one is refused**, and stays as it is. -/
theorem openCandidate_refuses (hjournal : g.journal = none) (hnot : ¬Opens O expectedGenesis g) :
    ∃ e, Generation.openCandidate O expectedGenesis ⟨g, []⟩ = .error e ⟨g, []⟩ := by
  unfold Generation.openCandidate validateGenerationStorageOnOpen verifyGenerationManifest
  rw [bind_apply_of_ok (openStorage_of_journal hjournal), onDisk_bind_apply]
  -- the first of the checks that fails gives the error
  cases hidentity : g.validateGenerationIdentity O expectedGenesis with
  | error e => exact ⟨e, runExcept_bind_of_error rfl⟩
  | ok u =>
  rw [runExcept_bind_of_ok rfl]
  cases hbest : g.store.bestHeader with
  | error e => exact ⟨_, bind_apply_of_error (readDatabase_apply_of_error (d := ⟨g, []⟩) hbest)⟩
  | ok best =>
  rw [readDatabase_bind_of_ok (d := ⟨g, []⟩) hbest]
  cases htip : g.store.headerByNumber best.number with
  | error e => exact ⟨_, bind_apply_of_error (readDatabase_apply_of_error (d := ⟨g, []⟩) htip)⟩
  | ok tip =>
  rw [readDatabase_bind_of_ok (d := ⟨g, []⟩) htip]
  split
  · exact ⟨_, rfl⟩
  next hhash =>
  cases hcheck : g.checkGenerationManifest O with
  | error e =>
    refine ⟨.storage e, bind_apply_of_error ?_⟩
    rw [onDisk_bind_apply]
    exact runExcept_bind_of_error (by rw [hcheck]; rfl)
  | ok checked =>
    obtain ⟨best', hverified⟩ := checkGenerationManifest_eq_ok hcheck
    exact absurd ⟨hidentity, ⟨best, tip, hbest, htip, not_not.mp hhash⟩,
      verifies_iff.mpr ⟨_, best', hverified⟩⟩ hnot

end Generation

/-! ## The start of a node -/

namespace GenerationRoot

open Generation

variable {root : GenerationRoot} {id : U64}

theorem getElem?_storeGeneration (root : GenerationRoot) (id k : U64) (g : Generation) :
    (root.storeGeneration id g).generations[k]? =
      if id = k then some g else root.generations[k]? := Map.getElem?_insert_eq ..

theorem getElem?_storeGeneration_self (root : GenerationRoot) (id : U64) (g : Generation) :
    (root.storeGeneration id g).generations[id]? = some g :=
  (getElem?_storeGeneration ..).trans (if_pos rfl)

/-- The generation `id` is there and does not open. -/
def Unopened (O : Oracle) (expectedGenesis : Option Hash256) (id : U64) (root : GenerationRoot) : Prop :=
  ∃ g, root.generations[id]? = some g ∧ g.journal = none ∧ ¬Opens O expectedGenesis g

theorem Unopened.storeGeneration (h : Unopened O expectedGenesis id root) {k : U64} (hk : k ≠ id)
    (g : Generation) : Unopened O expectedGenesis id (root.storeGeneration k g) := by
  obtain ⟨g', hg', hrest⟩ := h
  exact ⟨g', by rw [getElem?_storeGeneration, if_neg hk, hg'], hrest⟩

theorem Unopened.open (h : Unopened O expectedGenesis id root) (k : U64) :
    Keeps (Unopened O expectedGenesis id) (inGeneration k (Generation.openCandidate O expectedGenesis))
      root fun result _ => k = id → ∃ e, result = .error e := by
  unfold Keeps inGeneration
  by_cases hk : k = id
  · obtain ⟨g, hg, hjournal, hnot⟩ := h
    obtain ⟨e, he⟩ := openCandidate_refuses hjournal hnot
    rw [hk, hg, Option.getD_some, he]
    exact ⟨⟨g, getElem?_storeGeneration_self .., hjournal, hnot⟩, fun _ => ⟨e, rfl⟩⟩
  · cases Generation.openCandidate O expectedGenesis ⟨(root.generations[k]?).getD {}, []⟩ with
    | ok _ d => exact ⟨h.storeGeneration hk _, fun hid => absurd hid hk⟩
    | error _ d => exact ⟨h.storeGeneration hk _, fun hid => absurd hid hk⟩

theorem Unopened.fail (h : Unopened O expectedGenesis id root) (k : U64) :
    Keeps (Unopened O expectedGenesis id) (failGeneration k) root fun _ _ => True := by
  refine keeps_modify ?_ trivial
  by_cases hk : k = id
  · obtain ⟨g, hg, hjournal, -⟩ := h
    rw [hk, hg]
    refine ⟨g.failGeneration, getElem?_storeGeneration_self .., hjournal, fun hopens => ?_⟩
    obtain ⟨m, best, hm⟩ := verifies_iff.mp hopens.verifies
    obtain ⟨m', -, rfl⟩ := Option.map_eq_some_iff.mp hm.manifest
    exact hm.status (.inr (.inr rfl))
  · cases root.generations[k]? with
    | none => exact h
    | some g => exact h.storeGeneration hk _

theorem Unopened.openGenerations (h : Unopened O expectedGenesis id root) (active : Option U64)
    (l : List U64) : Keeps (Unopened O expectedGenesis id) (openGenerations O expectedGenesis active l)
      root fun chosen _ => chosen ≠ some id := by
  induction l generalizing root with
  | nil => exact keeps_pure h nofun
  | cons k rest ih =>
    refine (h.open k).bind fun result root' h' hresult => ?_
    cases result with
    | error e => exact (h'.fail k).bind fun _ root'' h'' _ => ih h''
    | ok _ =>
      have hk : k ≠ id := fun hid => nomatch hresult hid
      have hne : (some k : Option U64) ≠ some id := fun heq => hk (Option.some.inj heq)
      exact keeps_ite (fun _ => keeps_modify_bind (keeps_pure h' hne)) fun _ => keeps_pure h' hne

section Active

variable (hactive : root.active = some id) (hg : root.generations[id]? = some g)
  (hjournal : g.journal = none)

include hactive hg hjournal

section Opens

variable (hopens : Opens O expectedGenesis g)

include hopens

end Opens

end Active

end GenerationRoot

namespace Generation

open GenerationRoot

variable {after left : Generation} {block : Block} {d : Durable Generation} {m : GenerationManifest}

/-! ## The states a crash can leave -/

end Generation

end Blq
