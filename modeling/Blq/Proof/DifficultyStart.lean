import Blq.Proof.DifficultyWindow
import Blq.Spec.Config

/-!
# The first blocks under the median rule

The median rule takes the intervals between the headers below the next block and reads the one in the
middle. Above genesis alone there is no interval.

* `intervals_eq_ok_iff`: the median is read from a list that is empty exactly when the walk back
  finds nothing.
* `expectedTarget_returns_iff`: **on every complete history the next block has a target, except for
  the first block when the rule holds from it on**.
-/

namespace Blq

open Word Result

variable {O : Oracle} {chain : List BlockHeader}
  {lookup : Hash256 → Except NodeError BlockHeader}

theorem headersBefore_eq_nil_iff {count : ℕ} {cursor : BlockHeader} {before : List BlockHeader}
    (h : headersBefore lookup (count + 1) cursor = .ok before) : before = [] ↔ cursor.number = 0 := by
  unfold headersBefore at h
  split at h
  next hzero =>
    obtain rfl := pure_eq_ok.mp h
    exact ⟨fun _ => hzero, fun _ => rfl⟩
  next hzero =>
    simp only [bind_eq_ok, pure_eq_ok] at h
    obtain ⟨previous, -, rest, -, rfl⟩ := h
    exact ⟨fun hnil => absurd hnil (List.cons_ne_nil _ _), fun hnumber => absurd hnumber hzero⟩

theorem isSome_middle_iff {α : Type} (l : List α) : (l[l.length / 2]?).isSome ↔ l ≠ [] := by
  rw [Option.isSome_iff_ne_none, ne_eq, List.getElem?_eq_none_iff, ← List.length_pos_iff]
  omega

theorem intervals_eq_ok_iff {parent : BlockHeader} {before : List BlockHeader}
    (h : headersBefore lookup blockTimeV2MedianWindow parent = .ok before) :
    (∃ intervals, difficultyHistoryIntervalsWithLookup parent lookup = .ok intervals) ↔
      before ≠ [] := by
  unfold difficultyHistoryIntervalsWithLookup difficultyHistoryHeadersWithLookup
  rw [h]
  simp only [ok_bind, pure_bind]
  -- one interval for each header found
  generalize hsorted : ((((parent :: before).reverse.zip (parent :: before).reverse.tail).map
    fun x => maxWord (saturatingSub x.2.timestampSeconds x.1.timestampSeconds) 1).insertionSort
      fun a b => a.toNat ≤ b.toNat) = sorted
  have hlength : sorted.length = before.length := by
    rw [← hsorted, List.length_insertionSort, List.length_map, List.length_zip, List.length_tail]
    simp
  have hempty : sorted ≠ [] ↔ before ≠ [] := by
    rw [← List.length_pos_iff, ← List.length_pos_iff, hlength]
  rw [← hempty, ← isSome_middle_iff]
  cases sorted[sorted.length / 2]? with
  | some median => exact ⟨fun _ => rfl, fun _ => ⟨_, rfl⟩⟩
  | none => exact ⟨fun ⟨_, herror⟩ => absurd herror throw_ne_ok, fun hsome => by simp at hsome⟩

theorem activation_ne_zero_of_load {file : ConfigFile} {config : NodeConfig}
    (h : file.load O = .ok config) : config.blockTimeV2ActivationHeight ≠ some 0 := by
  simp only [ConfigFile.load, throw_bind, ite_throw_eq_ok] at h
  obtain ⟨hzero, hrest⟩ := h
  have hnode : file.node = config := by
    cases hrequired : file.requiredPowAlgorithm with
    | none =>
      simp only [hrequired, ite_throw_eq_ok, pure_eq_ok] at hrest
      exact hrest.2.2
    | some required =>
      simp only [hrequired, ite_throw_eq_ok, pure_eq_ok] at hrest
      exact hrest.2.2.2
  rw [← hnode]
  exact hzero

theorem active_at_one_iff {activation : Option U64} (h : activation ≠ some 0) :
    (activation.any fun height => decide (height.toNat ≤ (1 : U64).toNat)) = true ↔
      activation = some 1 := by
  cases activation with
  | none => simp
  | some height =>
    rw [Option.any_some, decide_eq_true_iff, Option.some_inj]
    constructor
    · intro hle
      have hne : height.toNat ≠ 0 := fun hzero => h (congrArg some (BitVec.eq_of_toNat_eq hzero))
      have hone : (1 : U64).toNat = 1 := rfl
      exact BitVec.eq_of_toNat_eq (by omega)
    · rintro rfl
      exact le_rfl

/-- **The next block has a target exactly if it is not the first one under a rule that starts with
it.** The history is complete, of any length, and the configuration one that is loaded. -/
theorem expectedTarget_returns_iff (file : ConfigFile) (config : NodeConfig)
    (hload : file.load O = .ok config) (hchain : HashLinked O chain)
    (hlookup : CompleteHistory O chain lookup) (parent child : BlockHeader)
    (hparent : chain.getLast? = some parent) (hnumber : child.number = parent.number + 1) :
    (∃ target, expectedDifficultyTargetWithLookup config parent child lookup = .ok target) ↔
      (parent.number = 0 → config.blockTimeV2ActivationHeight ≠ some 1) := by
  obtain ⟨before, hbefore, -⟩ := exists_headersBefore hchain hlookup blockTimeV2MedianWindow
    (List.mem_of_getLast? hparent)
  have hmedian := intervals_eq_ok_iff hbefore
  have hwalk := headersBefore_eq_nil_iff hbefore
  unfold expectedDifficultyTargetWithLookup
  by_cases hgenesis : parent.number = 0
  · -- no header below the parent, so the rule must not hold yet
    have hone : child.number = 1 := by rw [hnumber, hgenesis]; rfl
    have hactive := active_at_one_iff (activation_ne_zero_of_load hload)
    rw [if_neg (by rw [hone]; decide), hone]
    by_cases hone' : config.blockTimeV2ActivationHeight = some 1
    · rw [if_pos (hactive.mpr hone')]
      constructor
      · rintro ⟨target, htarget⟩
        obtain ⟨intervals, hintervals, -⟩ := bind_eq_ok.mp htarget
        exact absurd (hwalk.mpr hgenesis) (hmedian.mp ⟨intervals, hintervals⟩)
      · exact fun hcondition => absurd hone' (hcondition hgenesis)
    · rw [if_neg (fun hany => hone' (hactive.mp hany))]
      exact ⟨fun _ _ => hone', fun _ => ⟨_, rfl⟩⟩
  · -- some header below the parent, so there is a median
    obtain ⟨intervals, hintervals⟩ := hmedian.mpr fun hnil => hgenesis (hwalk.mp hnil)
    refine ⟨fun _ hzero => absurd hzero hgenesis, fun _ => ?_⟩
    split_ifs
    · exact ⟨_, rfl⟩
    · rw [hintervals]
      exact ⟨_, rfl⟩
    · exact ⟨_, rfl⟩

/-! ## A chain that is only genesis -/

def medianFile (activation : U64) : ConfigFile where
  node :=
    { requireSignedTransactions := false
      blockSizeActivationHeight := none
      blockTimeV2ActivationHeight := some activation }
  requiredPowAlgorithm := none
  maxSavedPeers := 32
  maxInboundPeers := 8

def firstHeader : BlockHeader := { genesisHeader zeroOracle with number := 1, timestampSeconds := 30 }

theorem genesis_hashLinked : HashLinked zeroOracle [genesisHeader zeroOracle] :=
  ⟨by rintro header ⟨⟩; rfl, .singleton _⟩

theorem genesis_completeHistory : CompleteHistory zeroOracle [genesisHeader zeroOracle]
    (windowLookup zeroOracle [genesisHeader zeroOracle]) :=
  ⟨by decide +kernel, fun _ _ => windowLookup_sound⟩

theorem expectedTarget_returns_iff_secondHeight : ∃ target,
    expectedDifficultyTargetWithLookup (medianFile 2).node (genesisHeader zeroOracle) firstHeader
      (windowLookup zeroOracle [genesisHeader zeroOracle]) = .ok target :=
  (expectedTarget_returns_iff (medianFile 2) (medianFile 2).node (O := zeroOracle) rfl
    genesis_hashLinked genesis_completeHistory (genesisHeader zeroOracle) firstHeader rfl rfl).mpr
      fun _ => by decide

/-- The configuration is loaded, and the target of the first block reads the middle of no intervals. -/
theorem firstTarget_out_of_bounds :
    (∃ config, (medianFile 1).load zeroOracle = .ok config) ∧
      expectedDifficultyTargetWithLookup (medianFile 1).node (genesisHeader zeroOracle) firstHeader
          (windowLookup zeroOracle [genesisHeader zeroOracle]) =
        .error (.execution "index out of bounds: the len is 0 but the index is 0") :=
  ⟨⟨_, rfl⟩, by decide +kernel⟩

end Blq
