import Blq.Spec.ForkChoice

/-!
# The way from a tip to its ancestor

A branch is assembled by walking from its last block to parents until one is canonical. `BranchPath`
is the walk without its bounds: what was passed, newest last, and where it stands.

* `BranchPath.isChain`: what was passed is linked from where the walk stands to the tip.
* `branchFrom_path`, `replacementFrom_path`: a branch that is returned is a walk that has reached its
  ancestor.
-/

namespace Blq

open Word Result

variable {O : Oracle} {s : SledStorage} {tip : Block} {current : Block} {suffix : List Block}
  {branch : CandidateBranch}

theorem branchParent_eq_ok {parent : Block} :
    branchParent O s current = .ok parent ↔
      branchBlock O s current.header.parentHash = .ok parent ∧
        saturatingAdd parent.header.number 1 = current.header.number ∧
        parent.header.hash O = current.header.parentHash := by
  simp only [branchParent, throw_bind, bind_eq_ok, ite_throw_eq_ok, pure_eq_ok, not_or, not_not]
  constructor
  · rintro ⟨_, hblock, hlink, rfl⟩
    exact ⟨hblock, hlink⟩
  · rintro ⟨hblock, hlink⟩
    exact ⟨parent, hblock, hlink, rfl⟩

/-- The walk from the tip: the blocks passed, newest last, and the block it stands at. -/
inductive BranchPath (O : Oracle) (s : SledStorage) (tip : Block) : List Block → Block → Prop
  | start : BranchPath O s tip [] tip
  | step {suffix : List Block} {current parent : Block} (h : BranchPath O s tip suffix current)
      (hparent : branchParent O s current = .ok parent) :
      BranchPath O s tip (current :: suffix) parent

/-- A child on its parent: by the hash, and at the next height. -/
def Linked (O : Oracle) (parent child : Block) : Prop :=
  child.header.parentHash = parent.header.hash O ∧
    child.header.number = saturatingAdd parent.header.number 1

theorem BranchPath.isChain (h : BranchPath O s tip suffix current) :
    (current :: suffix).IsChain (Linked O) := by
  induction h with
  | start => exact .singleton _
  | step _ hparent ih =>
    obtain ⟨-, hnumber, hhash⟩ := branchParent_eq_ok.mp hparent
    exact ih.cons_cons ⟨hhash.symm, hnumber.symm⟩

theorem BranchPath.getLast? (h : BranchPath O s tip suffix current) :
    (current :: suffix).getLast? = some tip := by
  induction h with
  | start => rfl
  | step _ _ ih => exact ih

/-- A property of the tip that every parent has holds on the whole walk. -/
theorem BranchPath.forall {B : Block → Prop} (htip : B tip)
    (hparent : ∀ current parent, branchParent O s current = .ok parent → B parent)
    (h : BranchPath O s tip suffix current) : B current ∧ ∀ b ∈ suffix, B b := by
  induction h with
  | start => exact ⟨htip, by simp⟩
  | step _ hstep ih => exact ⟨hparent _ _ hstep, List.forall_mem_cons.mpr ih⟩

/-! ## The two loops -/

/-- The canonical block that a branch block is: the one at its height, if it has its hash. -/
def canonicalRow (O : Oracle) (s : SledStorage) (current : Block) : Option Block :=
  s.blocks[current.header.number]?.filter fun block => block.header.hash O = current.header.hash O

theorem canonicalRow_eq_some {canonical : Block} :
    canonicalRow O s current = some canonical ↔
      s.blocks[current.header.number]? = some canonical ∧
        canonical.header.hash O = current.header.hash O := by
  rw [canonicalRow, Option.filter_eq_some_iff, decide_eq_true_iff]

/-- What `candidate_branch_from_storage` returns: the walk has passed blocks that are not canonical
and stands at one that is. -/
structure Assembled (O : Oracle) (s : SledStorage) (tip : Block) (branch : CandidateBranch)
    (root canonical : Block) : Prop where
  path : BranchPath O s tip branch.suffix root
  row : canonicalRow O s root = some canonical
  height : branch.commonHeight = canonical.header.number
  hash : branch.commonHash = canonical.header.hash O
  pending : ∀ b ∈ branch.suffix, canonicalRow O s b = none

/-- By induction over what is left of the limit. -/
theorem branchFrom_path {remaining bytes : ℕ} {visited : List Hash256}
    (hpath : BranchPath O s tip suffix current) (hpending : ∀ b ∈ suffix, canonicalRow O s b = none)
    (hb : branchFrom O s remaining visited bytes suffix current = .ok branch) :
    (∃ root canonical, Assembled O s tip branch root canonical) ∧
      branch.suffix.length ≤ suffix.length + remaining := by
  induction remaining generalizing visited bytes suffix current with
  | zero =>
    unfold branchFrom at hb
    simp only [ite_throw_eq_ok] at hb
    obtain ⟨-, hb⟩ := hb
    split at hb
    next canonical hrow =>
      obtain rfl := pure_eq_ok.mp hb
      exact ⟨⟨current, canonical, hpath, hrow, rfl, rfl, hpending⟩, Nat.le_add_right _ _⟩
    next => exact absurd hb throw_ne_ok
  | succ remaining ih =>
    unfold branchFrom at hb
    simp only [ite_throw_eq_ok] at hb
    obtain ⟨-, hb⟩ := hb
    split at hb
    next canonical hrow =>
      obtain rfl := pure_eq_ok.mp hb
      exact ⟨⟨current, canonical, hpath, hrow, rfl, rfl, hpending⟩, Nat.le_add_right _ _⟩
    next hrow =>
      simp only [ite_throw_eq_ok, bind_eq_ok] at hb
      obtain ⟨-, parent, hparent, hb⟩ := hb
      have hrun := ih (hpath.step hparent) (List.forall_mem_cons.mpr ⟨hrow, hpending⟩) hb
      rw [List.length_cons] at hrun
      exact ⟨hrun.1, by omega⟩

theorem candidateBranch_path (hb : candidateBranchFromStorage O s tip = .ok branch) :
    (∃ root canonical, Assembled O s tip branch root canonical) ∧
      branch.suffix.length ≤ maxCandidateReplaySuffix := by
  obtain ⟨hassembled, hlength⟩ := branchFrom_path .start (by simp) hb
  exact ⟨hassembled, by rwa [List.length_nil, Nat.zero_add] at hlength⟩

theorem replacementFrom_path {previous : List Block} {remaining : ℕ} {visited : List Hash256}
    (hpath : BranchPath O s tip suffix current)
    (hb : replacementFrom O s previous remaining visited suffix current = .ok branch) :
    (∃ root, BranchPath O s tip branch.suffix root) ∧
      branch.suffix.length ≤ suffix.length + remaining := by
  induction remaining generalizing visited suffix current with
  | zero =>
    unfold replacementFrom at hb
    simp only [ite_throw_eq_ok] at hb
    obtain ⟨-, hb⟩ := hb
    split at hb
    · obtain rfl := pure_eq_ok.mp hb
      exact ⟨⟨current, hpath⟩, Nat.le_add_right _ _⟩
    · exact absurd hb throw_ne_ok
  | succ remaining ih =>
    unfold replacementFrom at hb
    simp only [ite_throw_eq_ok] at hb
    obtain ⟨-, hb⟩ := hb
    split at hb
    · obtain rfl := pure_eq_ok.mp hb
      exact ⟨⟨current, hpath⟩, Nat.le_add_right _ _⟩
    · simp only [bind_eq_ok] at hb
      obtain ⟨parent, hparent, hb⟩ := hb
      have hrun := ih (hpath.step hparent) hb
      rw [List.length_cons] at hrun
      exact ⟨hrun.1, by omega⟩

end Blq
