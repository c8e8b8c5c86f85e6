import Blq.Proof.ForkChoice
import Blq.Spec.Ingestion

/-!
# The recovery spool

The bodies of a job stand in slots, one for each height, and a global index leads from a hash to a
slot. The index says nothing about what the slot holds: it is right as long as no slot is given to a
body of another hash.

* `SpoolSound`: every index entry leads to a body of its hash.
* `SpoolSound.store`, `SpoolSound.relist`, `SpoolSound.clear`, `SpoolSound.lookup`: each operation
  keeps it, the first one if the slot is free.
* `recovery_lookup_exact`: **in every run that overwrites no body of another hash, a lookup finds
  exactly the bodies that are there**.
-/

namespace Blq

open Word Result

variable {O : Oracle} {spool : RecoverySpool} {hash : Hash256} {block : Block} {row : SpoolRow}

/-- A body of the spool with the work stored with it. -/
def RecoverySpool.Holds (spool : RecoverySpool) (block : Block) (work : U128) : Prop :=
  ∃ row : SpoolRow, spool.rows[row]? = some (block, work)

/-- The slot of a body is empty or holds a body of the same hash. -/
def RecoverySpool.SlotFree (O : Oracle) (spool : RecoverySpool) (tipHash : Hash256) (block : Block) :
    Prop :=
  ∀ (old : Block) (work : U128), spool.rows[spoolRow tipHash block.header.number]? = some (old, work) →
    old.header.hash O = block.header.hash O

/-- Every index entry leads to a body of its hash. -/
def SpoolSound (O : Oracle) (spool : RecoverySpool) : Prop :=
  ∀ (hash : Hash256) (row : SpoolRow), spool.index[hash]? = some row →
    ∃ block work, spool.rows[row]? = some (block, work) ∧ block.header.hash O = hash

/-! ## The operations -/

theorem SpoolSound.store (h : SpoolSound O spool) {tipHash : Hash256} (work : U128)
    (hfree : spool.SlotFree O tipHash block) :
    SpoolSound O (spool.storeRecoveryBlock O tipHash block work) := by
  intro hash row hrow
  simp only [RecoverySpool.storeRecoveryBlock, Map.getElem?_insert_eq] at hrow ⊢
  by_cases hslot : spoolRow tipHash block.header.number = row
  · -- the slot itself: what led there before had the hash of the new body
    refine ⟨block, work, if_pos hslot, ?_⟩
    split at hrow
    next hnew => exact hnew
    next hother =>
      obtain ⟨old, oldWork, hold, hhash⟩ := h hash row hrow
      rw [← hslot] at hold
      exact (hfree old oldWork hold).symm.trans hhash
  · rw [if_neg hslot]
    split at hrow
    next => exact absurd (Option.some.inj hrow) hslot
    next => exact h hash row hrow

theorem SpoolSound.insertIndex (h : SpoolSound O spool)
    {work : U128} (hrow : spool.rows[row]? = some (block, work)) :
    SpoolSound O { spool with index := spool.index.insert (block.header.hash O) row } :=
  Map.forall_insert h ⟨block, work, hrow, rfl⟩

theorem mem_rows_of_job {tipHash : Hash256} {body : Block × U128}
    (h : (row, body) ∈ spool.recoveryBlocksForTip tipHash) : spool.rows[row]? = some body :=
  (Map.mem_toList_iff _ _ _).mp (List.mem_of_mem_filter h)

theorem SpoolSound.relist (h : SpoolSound O spool) (tipHash : Hash256) :
    SpoolSound O (spool.listRecoveryBlocks O tipHash).2 := by
  unfold RecoverySpool.listRecoveryBlocks
  dsimp only
  have hfold : SpoolSound O ((spool.recoveryBlocksForTip tipHash).foldl (fun spool entry =>
      { spool with index := spool.index.insert (entry.2.1.header.hash O) entry.1 }) spool) ∧
      ((spool.recoveryBlocksForTip tipHash).foldl (fun spool entry =>
        { spool with index := spool.index.insert (entry.2.1.header.hash O) entry.1 }) spool).rows =
        spool.rows := by
    refine List.foldlRecOn (motive := fun spool' => SpoolSound O spool' ∧ spool'.rows = spool.rows)
      _ _ ⟨h, rfl⟩ ?_
    rintro spool' ⟨hsound, hrows⟩ ⟨row, block, work⟩ hentry
    have hrow := mem_rows_of_job hentry
    rw [← hrows] at hrow
    exact ⟨hsound.insertIndex hrow, hrows⟩
  exact hfold.1

theorem SpoolSound.eraseRow (h : SpoolSound O spool)
    (hrow : ∀ body, spool.rows[row]? = some body → body.1.header.hash O = block.header.hash O) :
    SpoolSound O { rows := spool.rows.erase row, index := spool.index.erase (block.header.hash O) } := by
  intro hash row' hindex
  simp only [Map.getElem?_erase_eq] at hindex ⊢
  split at hindex
  next => exact absurd hindex (Option.some_ne_none row').symm
  next hother =>
    obtain ⟨held, work, hheld, hhash⟩ := h hash row' hindex
    refine ⟨held, work, ?_, hhash⟩
    rw [if_neg]
    · exact hheld
    · rintro rfl
      exact hother ((hrow _ hheld).symm.trans hhash)

theorem SpoolSound.clear (h : SpoolSound O spool) (tipHash : Hash256) :
    SpoolSound O (spool.clearRecoveryBlocksForTip O tipHash) := by
  unfold RecoverySpool.clearRecoveryBlocksForTip
  -- what is left of the rows are rows of the spool
  have hfold := List.foldlRecOn (motive := fun spool' => SpoolSound O spool' ∧
      ∀ (row : SpoolRow) (body : Block × U128), spool'.rows[row]? = some body →
        spool.rows[row]? = some body)
    (spool.recoveryBlocksForTip tipHash)
    (fun spool entry => { rows := spool.rows.erase entry.1,
                          index := spool.index.erase (entry.2.1.header.hash O) })
    ⟨h, fun _ _ => id⟩ ?_
  · exact hfold.1
  · rintro spool' ⟨hsound, hrows⟩ ⟨row, block, work⟩ hentry
    refine ⟨hsound.eraseRow fun body hbody => ?_, Map.forall_erase hrows⟩
    obtain rfl := Option.some.inj ((hrows row body hbody).symm.trans (mem_rows_of_job hentry))
    rfl

/-! ## Lookups -/

theorem SpoolSound.repairIndex (h : SpoolSound O spool) (hash : Hash256) :
    SpoolSound O (spool.repairIndex O hash) := by
  unfold RecoverySpool.repairIndex
  split
  next row body hfind =>
    obtain ⟨block, work⟩ := body
    have hmem := (Map.mem_toList_iff _ _ _).mp (List.mem_of_find?_eq_some hfind)
    have hhash : block.header.hash O = hash := by simpa using List.find?_some hfind
    rw [← hhash]
    exact h.insertIndex hmem
  next => exact h

theorem SpoolSound.lookup (h : SpoolSound O spool) (hash : Hash256) :
    SpoolSound O (spool.recoveryBlockByHash O hash).2 := by
  unfold RecoverySpool.recoveryBlockByHash
  split
  next => exact h
  next =>
    dsimp only
    split <;> exact h.repairIndex hash

/-- What the scan finds, it finds because it is there. -/
theorem index_repairIndex (hnone : spool.index[hash]? = none) :
    (spool.repairIndex O hash).rows = spool.rows ∧
      (((spool.repairIndex O hash).index[hash]?).isSome ↔
        ∃ block work, spool.Holds block work ∧ block.header.hash O = hash) := by
  unfold RecoverySpool.repairIndex
  split
  next row body hfind =>
    obtain ⟨block, work⟩ := body
    have hmem := (Map.mem_toList_iff _ _ _).mp (List.mem_of_find?_eq_some hfind)
    have hhash : block.header.hash O = hash := by simpa using List.find?_some hfind
    refine ⟨rfl, fun _ => ⟨block, work, ⟨row, hmem⟩, hhash⟩, fun _ => ?_⟩
    simp only [Map.getElem?_insert_eq, if_pos, Option.isSome_some]
  next hfind =>
    refine ⟨rfl, fun hsome => ?_, ?_⟩
    · rw [hnone] at hsome
      exact absurd hsome Bool.false_ne_true
    · rintro ⟨block, work, ⟨row, hrow⟩, hhash⟩
      have hmem := (Map.mem_toList_iff _ _ _).mpr hrow
      have hother := List.find?_eq_none.mp hfind _ hmem
      exact absurd hhash (by simpa using hother)

/-! ## Runs -/

/-- The spools reached from an empty one by stores, listings, clearings and lookups, as long as no
store overwrites a body of another hash. -/
inductive SpoolRun (O : Oracle) : RecoverySpool → Prop
  | empty : SpoolRun O {}
  | store (spool : RecoverySpool) (tipHash : Hash256) (block : Block) (work : U128)
      (h : SpoolRun O spool) (hfree : spool.SlotFree O tipHash block) :
      SpoolRun O (spool.storeRecoveryBlock O tipHash block work)
  | list (spool : RecoverySpool) (tipHash : Hash256) (h : SpoolRun O spool) :
      SpoolRun O (spool.listRecoveryBlocks O tipHash).2
  | clear (spool : RecoverySpool) (tipHash : Hash256) (h : SpoolRun O spool) :
      SpoolRun O (spool.clearRecoveryBlocksForTip O tipHash)
  | lookup (spool : RecoverySpool) (hash : Hash256) (h : SpoolRun O spool) :
      SpoolRun O (spool.recoveryBlockByHash O hash).2

theorem SpoolRun.sound (h : SpoolRun O spool) : SpoolSound O spool := by
  induction h with
  | empty => exact fun _ _ hindex => absurd hindex (by simp)
  | store spool tipHash block work _ hfree ih => exact ih.store work hfree
  | list spool tipHash _ ih => exact ih.relist tipHash
  | clear spool tipHash _ ih => exact ih.clear tipHash
  | lookup spool hash _ ih => exact ih.lookup hash

/-- **In every such run a lookup finds exactly the bodies that are there**, each with its work. -/
theorem recovery_lookup_exact (h : SpoolRun O spool) (hash : Hash256) :
    ((∃ body, (spool.recoveryBlockByHash O hash).1 = .ok body) ↔
        ∃ block work, spool.Holds block work ∧ block.header.hash O = hash) ∧
      ∀ block work, (spool.recoveryBlockByHash O hash).1 = .ok (block, work) →
        spool.Holds block work ∧ block.header.hash O = hash := by
  have h := h.sound
  -- once an index entry is there, it decides
  have hentry : ∀ spool' : RecoverySpool, SpoolSound O spool' → spool'.rows = spool.rows →
      ∀ row, spool'.index[hash]? = some row → ∃ block work,
        orNotFound spool'.rows[row]? = .ok (block, work) ∧ spool.Holds block work ∧
          block.header.hash O = hash := by
    intro spool' hsound hrows row hindex
    obtain ⟨block, work, hrow, hhash⟩ := hsound hash row hindex
    refine ⟨block, work, by rw [hrow]; rfl, ⟨row, ?_⟩, hhash⟩
    rw [← hrows]
    exact hrow
  have hfound : ∀ {x : Except StorageError (Block × U128)} {block : Block} {work : U128},
      x = .ok (block, work) → spool.Holds block work → block.header.hash O = hash →
      ((∃ body, x = .ok body) ↔ ∃ block work, spool.Holds block work ∧ block.header.hash O = hash) ∧
        ∀ block work, x = .ok (block, work) → spool.Holds block work ∧ block.header.hash O = hash := by
    rintro _ block work rfl hholds hhash
    refine ⟨⟨fun _ => ⟨block, work, hholds, hhash⟩, fun _ => ⟨_, rfl⟩⟩, ?_⟩
    rintro _ _ ⟨⟩
    exact ⟨hholds, hhash⟩
  unfold RecoverySpool.recoveryBlockByHash
  split
  next row hindex =>
    obtain ⟨block, work, hresult, hholds, hhash⟩ := hentry spool h rfl row hindex
    exact hfound hresult hholds hhash
  next hnone =>
    obtain ⟨hrows, hsome⟩ := index_repairIndex (O := O) hnone
    dsimp only
    split
    next row hindex =>
      obtain ⟨block, work, hresult, hholds, hhash⟩ :=
        hentry _ (h.repairIndex hash) hrows row hindex
      exact hfound hresult hholds hhash
    next hstill =>
      rw [hstill] at hsome
      refine ⟨⟨fun ⟨_, hok⟩ => absurd hok throw_ne_ok, fun hheld => ?_⟩, fun _ _ hok => ?_⟩
      · exact absurd (hsome.mpr hheld) Bool.false_ne_true
      · exact absurd hok throw_ne_ok

def spooledFirst : Block := emptyBlock 0 1 maxTarget 5

def spooledSecond : Block := emptyBlock 0 1 maxTarget 6

def firstSpool : RecoverySpool := ({} : RecoverySpool).storeRecoveryBlock nonceOracle 9 spooledFirst 2

def clearedSpool : RecoverySpool :=
  (firstSpool.storeRecoveryBlock nonceOracle 8 spooledSecond 3).clearRecoveryBlocksForTip nonceOracle 8

theorem recovery_lookup_exact_clearedSpool :
    (∃ body, (clearedSpool.recoveryBlockByHash nonceOracle 5).1 = .ok body) ∧
      ¬∃ body, (clearedSpool.recoveryBlockByHash nonceOracle 6).1 = .ok body := by
  have hfirst : SpoolRun nonceOracle firstSpool :=
    .store {} 9 spooledFirst 2 .empty (by intro old work h; simp at h)
  have hfree : firstSpool.rows[spoolRow 8 1]? = none := by decide +kernel
  have hrun : SpoolRun nonceOracle clearedSpool := .clear _ 8 (.store _ 8 spooledSecond 3 hfirst
    fun old work h => absurd (hfree.symm.trans h) (by simp))
  have hrows : clearedSpool.rows.toList = [(spoolRow 9 1, spooledFirst, 2)] := by decide +kernel
  refine ⟨(recovery_lookup_exact hrun 5).1.mpr
    ⟨spooledFirst, 2, ⟨spoolRow 9 1, by decide +kernel⟩, by decide +kernel⟩, ?_⟩
  rw [(recovery_lookup_exact hrun 6).1]
  rintro ⟨block, work, ⟨row, hrow⟩, hhash⟩
  have hmem := (Map.mem_toList_iff _ _ _).mpr hrow
  rw [hrows, List.mem_singleton, Prod.mk.injEq, Prod.mk.injEq] at hmem
  obtain ⟨-, rfl, -⟩ := hmem
  exact absurd hhash (by decide +kernel)

/-- The second body takes the slot of the first one, and is then found under the hash of the first
one. -/
theorem overwritten_slot_found :
    ((firstSpool.storeRecoveryBlock nonceOracle 9 spooledSecond 3).recoveryBlockByHash nonceOracle
        (spooledFirst.header.hash nonceOracle)).1 = .ok (spooledSecond, 3) ∧
      spooledSecond.header.hash nonceOracle ≠ spooledFirst.header.hash nonceOracle := by
  constructor
  · decide +kernel
  · decide +kernel

end Blq
