import Mathlib.Data.Prod.Lex
import Blq.Spec.Publication

/-!
# Which chain replaces which

Four places of the node compare a candidate chain with the canonical one. The order they are
meant to implement puts the greater cumulative work first and then the lower tip hash
(`Tip.Outranks`).

* `Decision.replaces_iff_of_work_ne`: at different works all four places follow that order.
* `replacement_is_one_order_iff`: on a set of chains they implement that one order exactly when
  no two of the chains have the same work.
* `equal_work_chains_replace_each_other`: two chains of the same work, each of which replaces
  the other in one place while another place refuses both.
-/

namespace Blq

open Word

/-! ## The order of the tips -/

/-- Tips in the order of preference: the smaller rank is the better one. -/
def Tip.rank (t : Tip) : ℕᵒᵈ ×ₗ ℕ := toLex (OrderDual.toDual t.work.toNat, t.hash.toNat)

/-- Greater work, then the lower hash. -/
def Tip.Outranks (a b : Tip) : Prop := a.rank < b.rank

variable {a b : Tip}

theorem Tip.outranks_iff :
    a.Outranks b ↔ b.work.toNat < a.work.toNat ∨
      (a.work = b.work ∧ a.hash.toNat < b.hash.toNat) := by
  unfold Tip.Outranks Tip.rank
  rw [Prod.Lex.toLex_lt_toLex, OrderDual.toDual_lt_toDual]
  simp only [EmbeddingLike.apply_eq_iff_eq, ← BitVec.toNat_inj]

theorem Tip.Outranks.asymm (h : a.Outranks b) : ¬b.Outranks a := lt_asymm h

theorem Tip.outranks_or_outranks (h : a.hash ≠ b.hash) : a.Outranks b ∨ b.Outranks a := by
  refine lt_or_gt_of_ne fun hrank => h ?_
  have hhash := congrArg Prod.snd (toLex.injective hrank)
  exact BitVec.eq_of_toNat_eq hhash

/-! ## The four decisions -/

/-- The places that decide whether a candidate replaces the canonical chain. -/
inductive Decision where
  | queueCompeting
  | queuePending
  | publication
  | recovery
deriving DecidableEq

def Decision.replaces : Decision → Tip → Tip → Bool
  | .queueCompeting => queueCompetingReplaces
  | .queuePending => queuePendingReplaces
  | .publication => publicationReplaces
  | .recovery => recoveryReplaces

theorem queueReplaces_iff :
    queueReplaces a b = true ↔ b.work.toNat < a.work.toNat ∨
      (a.work = b.work ∧ (a.number ≠ b.number ∨ a.hash.toNat < b.hash.toNat)) := by
  unfold queueReplaces
  simp only [Bool.not_eq_true', Bool.or_eq_false_iff, decide_eq_false_iff_not, Bool.and_eq_false_iff,
    beq_eq_false_iff_ne, ne_eq, ← BitVec.toNat_inj (x := a.work)]
  grind

theorem publicationReplaces_iff : publicationReplaces a b = true ↔ a.Outranks b := by
  rw [Tip.outranks_iff]
  unfold publicationReplaces
  simp only [Bool.not_eq_true', Bool.or_eq_false_iff, decide_eq_false_iff_not, Bool.and_eq_false_iff,
    beq_eq_false_iff_ne, ne_eq, ← BitVec.toNat_inj (x := a.work)]
  omega

theorem recoveryReplaces_iff : recoveryReplaces a b = true ↔ b.work.toNat < a.work.toNat := by
  simp [recoveryReplaces]

/-- **At different works the four decisions are one.** -/
theorem Decision.replaces_iff_of_work_ne (h : a.work ≠ b.work) (d : Decision) :
    d.replaces a b = true ↔ a.Outranks b := by
  have hrank : a.Outranks b ↔ b.work.toNat < a.work.toNat := by simp [Tip.outranks_iff, h]
  have hqueue : queueReplaces a b = true ↔ b.work.toNat < a.work.toNat := by
    simp [queueReplaces_iff, h]
  cases d with
  | queueCompeting => exact hqueue.trans hrank.symm
  | queuePending => exact hqueue.trans hrank.symm
  | publication => exact publicationReplaces_iff
  | recovery => exact recoveryReplaces_iff.trans hrank.symm

/-! ## Chains -/

/-- A chain from a block of height zero on, each block on top of the one before. -/
structure Chain (O : Oracle) where
  blocks : List Block
  ne_nil : blocks ≠ []
  genesis : (blocks.head ne_nil).header.number = 0
  linked : blocks.IsChain fun parent block => extendsHeader O parent.header block

def Chain.tip {O : Oracle} (c : Chain O) : Tip :=
  let last := c.blocks.getLast c.ne_nil
  ⟨canonicalWork c.blocks, last.header.number, last.header.hash O⟩

section OneOrder

variable {O : Oracle}

/-- Some place lets the second chain replace the first. -/
def Replacement (T : Set (Chain O)) (current candidate : Chain O) : Prop :=
  current ∈ T ∧ candidate ∈ T ∧ ∃ d : Decision, d.replaces candidate.tip current.tip = true

/-- On the chains of `T` the four decisions are the one strict order by work and hash. -/
structure OneOrder (T : Set (Chain O)) : Prop where
  /-- Every place decides by the order. -/
  follows : ∀ a ∈ T, ∀ b ∈ T, a ≠ b → ∀ d : Decision,
    d.replaces a.tip b.tip = true ↔ a.tip.Outranks b.tip
  /-- Exactly one of two chains replaces the other. -/
  exactlyOne : ∀ a ∈ T, ∀ b ∈ T, a ≠ b → ∀ d : Decision,
    d.replaces a.tip b.tip = !d.replaces b.tip a.tip
  /-- No sequence of replacements comes back to where it started. -/
  noReturn : ∀ a, ¬Relation.TransGen (Replacement T) a a

/-- A replacement never goes down in the order, and it goes up when works differ. -/
theorem Replacement.outranks {T : Set (Chain O)}
    (hT : ∀ a ∈ T, ∀ b ∈ T, a ≠ b → a.tip.work ≠ b.tip.work) {a b : Chain O}
    (h : Replacement T a b) : b.tip.Outranks a.tip := by
  obtain ⟨ha, hb, d, hd⟩ := h
  by_cases hab : a = b
  · -- no place replaces a chain by itself
    subst hab
    cases d <;>
      simp [Decision.replaces, queueCompetingReplaces, queuePendingReplaces, queueReplaces_iff,
        publicationReplaces_iff, recoveryReplaces_iff] at hd
    exact hd
  · exact (d.replaces_iff_of_work_ne (hT b hb a ha (Ne.symm hab))).mp hd

theorem outranks_of_transGen {T : Set (Chain O)}
    (hT : ∀ a ∈ T, ∀ b ∈ T, a ≠ b → a.tip.work ≠ b.tip.work) {a b : Chain O}
    (h : Relation.TransGen (Replacement T) a b) : b.tip.Outranks a.tip := by
  induction h with
  | single hab => exact hab.outranks hT
  | tail _ hbc ih => exact lt_trans (hbc.outranks hT) ih

/-- **One order exactly without ties.** On a set of chains with different tip hashes the four
decisions agree, let exactly one of two chains replace the other and never lead back to an
earlier chain if and only if no two of the chains have the same work. -/
theorem replacement_is_one_order_iff (T : Set (Chain O))
    (hash : ∀ a ∈ T, ∀ b ∈ T, a.tip.hash = b.tip.hash → a = b) :
    OneOrder T ↔ ∀ a ∈ T, ∀ b ∈ T, a ≠ b → a.tip.work ≠ b.tip.work := by
  constructor
  · intro h a ha b hb hab hwork
    -- the recovery refuses both directions of a tie
    have hone := h.exactlyOne a ha b hb hab .recovery
    have hrefuses : ∀ x y : Tip, x.work = y.work → Decision.recovery.replaces x y = false := by
      intro x y hxy
      simp [Decision.replaces, recoveryReplaces, hxy]
    rw [hrefuses _ _ hwork, hrefuses _ _ hwork.symm] at hone
    exact absurd hone (by decide)
  · intro hT
    have hfollows : ∀ a ∈ T, ∀ b ∈ T, a ≠ b → ∀ d : Decision,
        d.replaces a.tip b.tip = true ↔ a.tip.Outranks b.tip :=
      fun a ha b hb hab d => d.replaces_iff_of_work_ne (hT a ha b hb hab)
    refine ⟨hfollows, ?_, fun a ha => lt_irrefl _ (outranks_of_transGen hT ha)⟩
    intro a ha b hb hab d
    have hto := hfollows a ha b hb hab d
    have hback := hfollows b hb a ha (Ne.symm hab) d
    have hne : a.tip.hash ≠ b.tip.hash := fun heq => hab (hash a ha b hb heq)
    rcases Tip.outranks_or_outranks hne with hout | hout
    · rw [hto.mpr hout, Bool.eq_false_iff.mpr fun hd => hout.asymm (hback.mp hd)]
      rfl
    · rw [hback.mpr hout, Bool.eq_false_iff.mpr fun hd => hout.asymm (hto.mp hd)]
      rfl

end OneOrder

/-! ## A tie -/

/-- An oracle for concrete chains: the hash of a header is its nonce. -/
def nonceOracle : Oracle :=
  { zeroOracle with sha256 := fun bs => BitVec.ofNat 256 (ofBeBytes (bs.drop (bs.length - 8))) }

def emptyBlock (parentHash : Hash256) (number : U64) (target : Hash256) (nonce : U64) : Block where
  header := { genesisHeader nonceOracle with
    parentHash := parentHash
    number := number
    difficultyTarget := target
    nonce := nonce }
  transactions := []
  receipts := []

def heavyChain : Chain nonceOracle where
  blocks := [genesisBlock nonceOracle, emptyBlock 0 1 (maxTarget >>> 1) 1]
  ne_nil := by simp
  genesis := rfl
  linked := by decide +kernel

def longChain : Chain nonceOracle where
  blocks := [genesisBlock nonceOracle, emptyBlock 0 1 maxTarget 2, emptyBlock 2 2 maxTarget 3]
  ne_nil := by simp
  genesis := rfl
  linked := by decide +kernel

/-- Both chains have the same work at different heights: each replaces the other when it is
queued, only the one with the lower hash is published, and the recovery takes neither. -/
theorem equal_work_chains_replace_each_other :
    queuePendingReplaces heavyChain.tip longChain.tip = true ∧
    queuePendingReplaces longChain.tip heavyChain.tip = true ∧
    publicationReplaces longChain.tip heavyChain.tip = false ∧
    recoveryReplaces heavyChain.tip longChain.tip = false ∧
    recoveryReplaces longChain.tip heavyChain.tip = false ∧
    ¬OneOrder {heavyChain, longChain} := by
  have hheavy : queuePendingReplaces heavyChain.tip longChain.tip = true := by decide +kernel
  have hlong : queuePendingReplaces longChain.tip heavyChain.tip = true := by decide +kernel
  refine ⟨hheavy, hlong, by decide +kernel, by decide +kernel, by decide +kernel, fun h => ?_⟩
  -- there and back again
  refine h.noReturn heavyChain (.tail (.single ⟨by simp, ?_, .queuePending, hlong⟩)
    ⟨?_, by simp, .queuePending, hheavy⟩) <;> simp

def shortChain : Chain nonceOracle where
  blocks := [genesisBlock nonceOracle, emptyBlock 0 1 maxTarget 2]
  ne_nil := by simp
  genesis := rfl
  linked := by decide +kernel

theorem heavy_and_short_in_one_order :
    heavyChain.tip.work ≠ shortChain.tip.work ∧ OneOrder {heavyChain, shortChain} := by
  have hwork : heavyChain.tip.work ≠ shortChain.tip.work := by decide +kernel
  have hhash : heavyChain.tip.hash ≠ shortChain.tip.hash := by decide +kernel
  refine ⟨hwork, (replacement_is_one_order_iff {heavyChain, shortChain} ?_).mpr ?_⟩
  · rintro a (rfl | rfl) b (rfl | rfl) hab
    · rfl
    · exact absurd hab hhash
    · exact absurd hab.symm hhash
    · rfl
  · rintro a (rfl | rfl) b (rfl | rfl) hab
    · exact absurd rfl hab
    · exact hwork
    · exact hwork.symm
    · exact absurd rfl hab

end Blq
