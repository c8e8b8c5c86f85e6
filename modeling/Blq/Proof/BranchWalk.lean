import Blq.Proof.ChainLinks

/-!
# Assembling a branch

`candidate_branch_from_storage` reads one canonical row per step, `candidate_replacement` has the
whole canonical list in memory. The store may hold anything: parents that are no parents, cycles, rows
of other blocks.

* `returned_of_assembled`: what a returned branch is.
* `branchFrom_agrees`: the two loops side by side.
* `candidate_branch_agrees`: **a returned branch is linked from its canonical ancestor to the tip**,
  and the in-memory version returns the same.
-/

namespace Blq

open Word Result

variable {O : Oracle} {s : SledStorage} {tip : Block}

/-! ## What is returned -/

def Collide (O : Oracle) (a b : BlockHeader) : Prop := a ≠ b ∧ a.hash O = b.hash O

/-- A branch from its canonical ancestor to the tip. `root` is the ancestor as the walk found it,
`canonical` the row it was recognised by: the same header, or the two collide. -/
structure ReturnedBranch (O : Oracle) (s : SledStorage) (tip : Block) (branch : CandidateBranch) :
    Prop where
  ancestor : ∃ root canonical : Block,
    s.blocks[root.header.number]? = some canonical ∧
      branch.commonHeight = canonical.header.number ∧
      branch.commonHash = canonical.header.hash O ∧
      (canonical.header = root.header ∨ Collide O canonical.header root.header) ∧
      (root :: branch.suffix).IsChain (Linked O) ∧
      (root :: branch.suffix).getLast? = some tip
  pending : ∀ b ∈ branch.suffix, ∀ row, s.blocks[b.header.number]? = some row →
    row.header.hash O ≠ b.header.hash O
  bounded : branch.suffix.length ≤ maxCandidateReplaySuffix

theorem returned_of_assembled {branch : CandidateBranch}
    (hb : candidateBranchFromStorage O s tip = .ok branch) : ReturnedBranch O s tip branch := by
  obtain ⟨⟨root, canonical, h⟩, hlength⟩ := candidateBranch_path hb
  obtain ⟨hrow, hhash⟩ := canonicalRow_eq_some.mp h.row
  refine ⟨⟨root, canonical, hrow, h.height, h.hash, ?_, h.path.isChain, h.path.getLast?⟩, ?_,
    hlength⟩
  · by_cases hsame : canonical.header = root.header
    · exact .inl hsame
    · exact .inr ⟨hsame, hhash⟩
  · intro b hb row hget hequal
    have hsome := canonicalRow_eq_some.mpr ⟨hget, hequal⟩
    rw [h.pending b hb] at hsome
    exact absurd hsome (Option.some_ne_none row).symm

/-! ## The two loops side by side -/

/-- Every canonical row is a block of its own height. -/
def RowsNumbered (s : SledStorage) : Prop :=
  ∀ (n : U64) (b : Block), s.blocks[n]? = some b → b.header.number = n

/-- Some block on the way from the tip has the hash of a canonical block with another header. -/
def WalkCollides (O : Oracle) (s : SledStorage) (tip : Block) : Prop :=
  ∃ suffix current canonical, BranchPath O s tip suffix current ∧ canonical ∈ s.canonicalBlocks ∧
    Collide O canonical.header current.header

theorem find?_eq_canonicalRow (hrows : RowsNumbered s) (hnone : ¬WalkCollides O s tip)
    {suffix : List Block} {current : Block} (hpath : BranchPath O s tip suffix current) :
    (s.canonicalBlocks.reverse.find? fun block => block.header.hash O = current.header.hash O) =
      canonicalRow O s current := by
  -- a canonical block of this hash stands at this height
  have hplace : ∀ canonical ∈ s.canonicalBlocks,
      canonical.header.hash O = current.header.hash O →
        s.blocks[current.header.number]? = some canonical := by
    intro canonical hmem hhash
    obtain ⟨n, hn⟩ := mem_canonicalBlocks.mp hmem
    have hsame : canonical.header = current.header := by
      by_contra hne
      exact hnone ⟨suffix, current, canonical, hpath, hmem, hne, hhash⟩
    rw [← hsame, hrows n canonical hn]
    exact hn
  cases hrow : canonicalRow O s current with
  | none =>
    rw [List.find?_eq_none]
    intro canonical hmem hhash
    have hhash := of_decide_eq_true hhash
    have hsome := canonicalRow_eq_some.mpr ⟨hplace canonical (List.mem_reverse.mp hmem) hhash, hhash⟩
    rw [hrow] at hsome
    exact absurd hsome (Option.some_ne_none canonical).symm
  | some canonical =>
    obtain ⟨hget, hhash⟩ := canonicalRow_eq_some.mp hrow
    cases hfind : s.canonicalBlocks.reverse.find?
        fun block => block.header.hash O = current.header.hash O with
    | none =>
      have hmem : canonical ∈ s.canonicalBlocks.reverse :=
        List.mem_reverse.mpr (mem_canonicalBlocks.mpr ⟨_, hget⟩)
      exact absurd (decide_eq_true hhash) (List.find?_eq_none.mp hfind canonical hmem)
    | some found =>
      have hmem := List.mem_reverse.mp (List.mem_of_find?_eq_some hfind)
      have hfoundHash := List.find?_some hfind
      have hfound := hplace found hmem (of_decide_eq_true hfoundHash)
      exact hfound.symm.trans hget

def suffixBytes (blocks : List Block) : ℕ := (blocks.map fun b => b.canonicalBytes.length).sum

/-- The budget suffices for every block on the way that is not canonical. -/
def WithinBudget (O : Oracle) (s : SledStorage) (tip : Block) : Prop :=
  ∀ suffix current, BranchPath O s tip suffix current → canonicalRow O s current = none →
    (∀ b ∈ suffix, canonicalRow O s b = none) →
    suffix.length < maxCandidateReplaySuffix → suffixBytes (current :: suffix) ≤ maxCandidateReplayBytes

/-- The same branch or the same error, but for the words about a branch that is too long. -/
def SameResult (stored inMemory : Except NodeError CandidateBranch) : Prop :=
  stored = inMemory ∨
    (stored = .error (.bail "candidate rejected: branch suffix exceeds live replay limit") ∧
      inMemory = .error (.bail "candidate rejected: branch suffix exceeds replay limit"))

/-- By induction over what is left of the limit, which the two loops count in step. -/
theorem branchFrom_agrees (hrows : RowsNumbered s) (hnone : ¬WalkCollides O s tip)
    (hbudget : WithinBudget O s tip) {remaining : ℕ} {visited : List Hash256} {suffix : List Block}
    {current : Block} (hpath : BranchPath O s tip suffix current)
    (hpending : ∀ b ∈ suffix, canonicalRow O s b = none)
    (hlength : suffix.length + remaining = maxCandidateReplaySuffix) :
    SameResult (branchFrom O s remaining visited (suffixBytes suffix) suffix current)
      (replacementFrom O s s.canonicalBlocks remaining visited suffix current) := by
  induction remaining generalizing visited suffix current with
  | zero =>
    unfold branchFrom replacementFrom
    dsimp only
    rw [find?_eq_canonicalRow hrows hnone hpath]
    by_cases hcycle : current.header.hash O ∈ visited
    · rw [if_pos hcycle, if_pos hcycle]
      exact .inl rfl
    rw [if_neg hcycle, if_neg hcycle]
    rw [← canonicalRow]
    cases canonicalRow O s current with
    | some canonical => exact .inl rfl
    | none => exact .inr ⟨rfl, rfl⟩
  | succ remaining ih =>
    unfold branchFrom replacementFrom
    dsimp only
    rw [find?_eq_canonicalRow hrows hnone hpath]
    by_cases hcycle : current.header.hash O ∈ visited
    · rw [if_pos hcycle, if_pos hcycle]
      exact .inl rfl
    rw [if_neg hcycle, if_neg hcycle]
    rw [← canonicalRow]
    cases hrow : canonicalRow O s current with
    | some canonical => exact .inl rfl
    | none =>
      have hfits := hbudget suffix current hpath hrow hpending (by omega)
      have hbytes : suffixBytes suffix + current.canonicalBytes.length =
          suffixBytes (current :: suffix) := by
        rw [suffixBytes, suffixBytes, List.map_cons, List.sum_cons, Nat.add_comm]
      dsimp only
      rw [hbytes, if_neg (by omega)]
      cases hparent : branchParent O s current with
      | error e => exact .inl rfl
      | ok parent =>
        exact ih (hpath.step hparent) (List.forall_mem_cons.mpr ⟨hrow, hpending⟩)
          (by rw [List.length_cons]; omega)

/-- **A returned branch is linked from its canonical ancestor to the tip**, through blocks that are
not canonical, whatever the store holds; and while the bytes stay within the budget the in-memory
version, run on the whole canonical list, gives the same. -/
theorem candidate_branch_agrees (O : Oracle) (s : SledStorage) (tip : Block) :
    (∀ branch, candidateBranchFromStorage O s tip = .ok branch → ReturnedBranch O s tip branch) ∧
      (RowsNumbered s → WithinBudget O s tip →
        SameResult (candidateBranchFromStorage O s tip)
            (candidateReplacement O s tip s.canonicalBlocks) ∨
          WalkCollides O s tip) := by
  refine ⟨fun _ => returned_of_assembled, fun hrows hbudget => ?_⟩
  by_cases hcollides : WalkCollides O s tip
  · exact .inr hcollides
  · exact .inl (branchFrom_agrees hrows hcollides hbudget .start (by simp) (by simp))

/-! ## Concrete branches -/

deriving instance DecidableEq for CandidateBranch

def forkTip : Block := emptyBlock ((genesisHeader nonceOracle).hash nonceOracle) 1 maxTarget 1

def genesisStore : SledStorage := ({} : SledStorage).insertBlock (genesisBlock nonceOracle)

theorem rowsNumbered_insertBlock {s : SledStorage} (h : RowsNumbered s) (b : Block) :
    RowsNumbered (s.insertBlock b) := Map.forall_insert h rfl

theorem withinBudget_of_parent (parent canonical : Block)
    (hparent : branchParent O s tip = .ok parent) (hrow : canonicalRow O s parent = some canonical)
    (hbytes : tip.canonicalBytes.length ≤ maxCandidateReplayBytes) : WithinBudget O s tip := by
  intro suffix current hpath hcurrent hpending _
  have hfirst : ∀ {suffix : List Block} {current : Block}, BranchPath O s tip suffix current →
      canonicalRow O s current = none → (∀ b ∈ suffix, canonicalRow O s b = none) → suffix = [] := by
    intro suffix current hpath
    induction hpath with
    | start => exact fun _ _ => rfl
    | step h hstep ih =>
      intro hnext hpending
      obtain ⟨hlast, hrest⟩ := List.forall_mem_cons.mp hpending
      obtain rfl := ih hlast hrest
      cases h
      obtain rfl := Except.ok.inj (hstep.symm.trans hparent)
      rw [hrow] at hnext
      exact absurd hnext (Option.some_ne_none canonical)
  obtain rfl := hfirst hpath hcurrent hpending
  cases hpath
  simpa [suffixBytes] using hbytes

theorem candidate_branch_agrees_forkTip :
    (∃ branch, candidateBranchFromStorage nonceOracle genesisStore forkTip = .ok branch ∧
      branch.suffix = [forkTip] ∧ ReturnedBranch nonceOracle genesisStore forkTip branch) ∧
    (SameResult (candidateBranchFromStorage nonceOracle genesisStore forkTip)
        (candidateReplacement nonceOracle genesisStore forkTip genesisStore.canonicalBlocks) ∨
      WalkCollides nonceOracle genesisStore forkTip) := by
  obtain ⟨hreturned, hagrees⟩ := candidate_branch_agrees nonceOracle genesisStore forkTip
  refine ⟨?_, hagrees (rowsNumbered_insertBlock (fun n b h => ?_) _) ?_⟩
  · have hbranch : candidateBranchFromStorage nonceOracle genesisStore forkTip =
        .ok { commonHeight := 0, commonHash := 0, suffix := [forkTip] } := by
      decide +kernel
    exact ⟨_, hbranch, rfl, hreturned _ hbranch⟩
  · exact absurd h (by simp)
  · exact withinBudget_of_parent (genesisBlock nonceOracle) (genesisBlock nonceOracle)
      (by decide +kernel) (by decide +kernel) (by decide +kernel)

def lastBlock : Block := emptyBlock 0 (BitVec.allOnes 64) maxTarget 7

def lastTip : Block := emptyBlock 7 (BitVec.allOnes 64) maxTarget 8

def lastStore : SledStorage := ({} : SledStorage).insertBlock lastBlock

/-- The successor of the last height is the last height, so a branch is returned that does not
climb. -/
theorem lastTip_not_contiguous : ∃ branch,
    candidateBranchFromStorage nonceOracle lastStore lastTip = .ok branch ∧
      branch.suffix = [lastTip] ∧ lastTip.header.number.toNat ≠ branch.commonHeight.toNat + 1 :=
  ⟨{ commonHeight := BitVec.allOnes 64, commonHash := 7, suffix := [lastTip] }, by decide +kernel, rfl,
    by decide⟩

end Blq
