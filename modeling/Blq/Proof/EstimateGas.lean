import Blq.Proof.LogQuery
import Blq.Spec.EvmRpc

/-!
# Gas estimates

The estimate is a bisection: it ends at the least gas limit with which the call succeeds unless an
attempt on the way gives it up.

* `estimateGas_cases`: what the search returns for an executor that is monotone in the gas limit.
* `estimate_least_iff`: **the estimate is the least sufficient limit exactly when every failing attempt
  on the way to it uses all its gas or fails for a gas limit**; a call that fails with gas left over
  ends the search although a higher limit would do. An empty call is never executed at all.
-/

namespace Blq

open Word Result

section

variable (R : Revm) (header : BlockHeader) (state : RevmState) (call : EstimateCall)

def EstimateCall.execute (gas : U64) : Except NodeError (ExecutionOutput × RevmState) :=
  executeTransaction R state header (call.transaction header state gas)

def Succeeds (gas : U64) : Prop :=
  ∃ output after, call.execute R header state gas = .ok (output, after) ∧ output.success = true

/-- A failing attempt that tells the search to go on with more gas. -/
inductive RunsShort (gas : U64) : Prop
  | used (output : ExecutionOutput) (after : RevmState) :
      call.execute R header state gas = .ok (output, after) → output.success = false →
      gas.toNat ≤ output.gasUsed.toNat → RunsShort gas
  | refused (e : NodeError) : call.execute R header state gas = .error e → isGasLimitFailure e = true →
      RunsShort gas

/-- The smallest gas limit from the transfer cost on with which the call succeeds. -/
structure LeastGas (least : U64) : Prop where
  transfer : transferGas.toNat ≤ least.toNat
  succeeds : Succeeds R header state call least
  minimal : ∀ gas : U64, transferGas.toNat ≤ gas.toNat → gas.toNat < least.toNat →
    ¬Succeeds R header state call gas

structure EstimatesLeast (answer : Rpc JsonValue) : Prop where
  enough : Succeeds R header state call (call.maxGas header) →
    ∃ least, LeastGas R header state call least ∧ answer = .ok (.str (hexQuantity least.toNat))
  short : ¬Succeeds R header state call (call.maxGas header) → ∃ e, answer = .error e

end

variable {R : Revm} {header : BlockHeader} {state : RevmState} {call : EstimateCall}

/-! ## Attempts -/

variable {gas bound least : U64}

theorem estimateProbe_enough_iff :
    estimateProbe R header state call gas.toNat = .enough ↔ Succeeds R header state call gas := by
  unfold estimateProbe Succeeds EstimateCall.execute
  rw [ofNat_toNat]
  cases executeTransaction R state header (call.transaction header state gas) with
  | error e =>
    constructor
    · intro h
      dsimp only at h
      split_ifs at h
    · rintro ⟨output, after, hrun, -⟩
      exact absurd hrun (by simp)
  | ok result =>
    obtain ⟨output, after⟩ := result
    constructor
    · intro h
      dsimp only at h
      split_ifs at h with hsuccess
      exact ⟨output, after, rfl, hsuccess⟩
    · rintro ⟨output', after', hrun, hsuccess⟩
      obtain ⟨rfl, rfl⟩ := Prod.mk.inj (Except.ok.inj hrun)
      exact if_pos hsuccess

theorem estimateProbe_short_iff :
    estimateProbe R header state call gas.toNat = .short ↔ RunsShort R header state call gas := by
  unfold estimateProbe
  rw [ofNat_toNat]
  cases hrun : executeTransaction R state header (call.transaction header state gas) with
  | error e =>
    constructor
    · intro h
      dsimp only at h
      split_ifs at h with hlimit
      exact .refused e hrun hlimit
    · rintro (⟨output, after, hother, -, -⟩ | ⟨e', hother, hlimit⟩)
      · exact absurd (hrun.symm.trans hother) (by simp)
      · obtain rfl := Except.error.inj (hrun.symm.trans hother)
        exact if_pos hlimit
  | ok result =>
    obtain ⟨output, after⟩ := result
    constructor
    · intro h
      dsimp only at h
      split_ifs at h with hsuccess hused
      exact .used output after hrun (by simpa using hsuccess) hused
    · rintro (⟨output', after', hother, hfail, hused⟩ | ⟨e, hother, -⟩)
      · obtain ⟨rfl, rfl⟩ := Prod.mk.inj (Except.ok.inj (hrun.symm.trans hother))
        dsimp only
        rw [if_neg (by simp [hfail]), if_pos hused]
      · exact absurd (hrun.symm.trans hother) (by simp)

/-! ## The search -/

/-- If the call succeeds with a gas limit, it succeeds with any larger one. -/
def MonotoneGas (R : Revm) (header : BlockHeader) (state : RevmState) (call : EstimateCall) : Prop :=
  ∀ gas gas' : U64, gas.toNat ≤ gas'.toNat → Succeeds R header state call gas →
    Succeeds R header state call gas'

theorem exists_gas {n : ℕ} (h : n ≤ bound.toNat) :
    ∃ gas : U64, gas.toNat = n ∧ BitVec.ofNat 64 n = gas := by
  refine ⟨BitVec.ofNat 64 n, ?_, rfl⟩
  rw [BitVec.toNat_ofNat]
  exact Nat.mod_eq_of_lt (lt_of_le_of_lt h bound.isLt)

theorem exists_leastGas (hbound : transferGas.toNat ≤ bound.toNat)
    (h : Succeeds R header state call bound) :
    ∃ least, LeastGas R header state call least ∧ least.toNat ≤ bound.toNat := by
  classical
  have hexists : ∃ n, ∃ gas : U64, gas.toNat = n ∧ transferGas.toNat ≤ n ∧
      Succeeds R header state call gas := ⟨bound.toNat, bound, rfl, hbound, h⟩
  obtain ⟨least, hnumber, htransfer, hsucceeds⟩ := Nat.find_spec hexists
  refine ⟨least, ⟨by omega, hsucceeds, fun gas hgas hless hearlier => ?_⟩, ?_⟩
  · exact Nat.find_min hexists (by omega) ⟨gas, rfl, hgas, hearlier⟩
  · rw [hnumber]
    exact Nat.find_min' hexists ⟨bound, rfl, hbound, h⟩

theorem splits_of_leastGas (hmono : MonotoneGas R header state call)
    (h : LeastGas R header state call least) (hbound : least.toNat ≤ bound.toNat) :
    Bisection.Splits (estimateProbe R header state call) least.toNat transferGas.toNat bound.toNat := by
  constructor
  · intro n hn hless henough
    obtain ⟨gas, rfl, -⟩ := exists_gas (show n ≤ bound.toNat by omega)
    exact h.minimal gas hn hless (estimateProbe_enough_iff.mp henough)
  · intro n hleast hn
    obtain ⟨gas, rfl, -⟩ := exists_gas hn
    exact estimateProbe_enough_iff.mpr (hmono least gas hleast h.succeeds)

theorem splits_of_fails (hmono : MonotoneGas R header state call)
    (h : ¬Succeeds R header state call bound) :
    Bisection.Splits (estimateProbe R header state call) (bound.toNat + 1) transferGas.toNat
      bound.toNat := by
  constructor
  · intro n hn hless henough
    obtain ⟨gas, rfl, -⟩ := exists_gas (show n ≤ bound.toNat by omega)
    exact h (hmono gas bound (by omega) (estimateProbe_enough_iff.mp henough))
  · intro n hleast hn
    omega

/-- The maximum of a request that is searched at all. -/
structure AllowedMaximum (header : BlockHeader) (call : EstimateCall) : Prop where
  transfer : transferGas.toNat ≤ (call.maxGas header).toNat
  cap : (call.maxGas header).toNat ≤ maxEvmCallGas.toNat

theorem transferGas_pos : 0 < transferGas.toNat := by decide

theorem estimateGas_eq_search (hempty : call.isEmptyCall state = false)
    (hmax : AllowedMaximum header call) :
    estimateGas R header state call =
      Bisection.search (estimateProbe R header state call) transferGas.toNat
        (call.maxGas header).toNat transferGas_pos none >>= fun found => match found with
          | some gas => pure gas
          | none => throw (.server "gas required exceeds allowance or always fails") := by
  have htransfer := hmax.transfer
  have hcap := hmax.cap
  unfold estimateGas
  rw [hempty, if_neg Bool.false_ne_true, if_neg (by omega)]
  exact if_neg (by omega)

def triedLimits (header : BlockHeader) (call : EstimateCall) (least : U64) : List ℕ :=
  Bisection.midpoints least.toNat transferGas.toNat (call.maxGas header).toNat transferGas_pos

/-- The search ends at the least sufficient limit, unless an attempt on the way gives up. -/
theorem estimateGas_cases (hmono : MonotoneGas R header state call)
    (hempty : call.isEmptyCall state = false) (hmax : AllowedMaximum header call)
    (hleast : LeastGas R header state call least)
    (hbound : least.toNat ≤ (call.maxGas header).toNat) :
    (estimateGas R header state call = .ok least.toNat ∧
      ∀ n ∈ triedLimits header call least, n < least.toNat →
        RunsShort R header state call (BitVec.ofNat 64 n)) ∨
    ((∃ e, estimateGas R header state call = .error e) ∧
      ∃ n ∈ triedLimits header call least, n < least.toNat ∧
        ¬RunsShort R header state call (BitVec.ofNat 64 n)) := by
  have hprobe : ∀ n < least.toNat, estimateProbe R header state call n = .short ↔
      RunsShort R header state call (BitVec.ofNat 64 n) := by
    intro n hless
    obtain ⟨gas, rfl, hgas⟩ := exists_gas hless.le
    rw [hgas]
    exact estimateProbe_short_iff
  rw [estimateGas_eq_search hempty hmax]
  rcases Bisection.search_cases (splits_of_leastGas hmono hleast hbound) hleast.transfer (by omega)
    none with ⟨hsearch, hshort⟩ | ⟨⟨e, hsearch⟩, n, hn, hless, hstop⟩
  · rw [hsearch, Bisection.found, if_pos hbound]
    exact .inl ⟨rfl, fun n hn hless => (hprobe n hless).mp (hshort n hn hless)⟩
  · rw [hsearch]
    exact .inr ⟨⟨e, rfl⟩, n, hn, hless, (hprobe n hless).not.mp hstop⟩

/-- **A call that fails with the maximum is refused.** -/
theorem estimateGas_of_fails (hmono : MonotoneGas R header state call)
    (hempty : call.isEmptyCall state = false) (hmax : AllowedMaximum header call)
    (hfails : ¬Succeeds R header state call (call.maxGas header)) :
    ∃ e, estimateGas R header state call = .error e := by
  have htransfer := hmax.transfer
  rw [estimateGas_eq_search hempty hmax]
  rcases Bisection.search_cases (splits_of_fails hmono hfails) (by omega) le_rfl none with
    ⟨hsearch, -⟩ | ⟨⟨e, hsearch⟩, -⟩
  · rw [hsearch, Bisection.found, if_neg (by omega)]
    exact ⟨_, rfl⟩
  · rw [hsearch]
    exact ⟨e, rfl⟩

/-! ## The answer -/

/-- Every failing attempt on the way to the least sufficient limit asks for more gas; an empty call,
which is not executed, succeeds with the transfer cost. -/
def NeverGivesUp (R : Revm) (header : BlockHeader) (state : RevmState) (call : EstimateCall) : Prop :=
  if call.isEmptyCall state then Succeeds R header state call transferGas
  else Succeeds R header state call (call.maxGas header) → ∀ least, LeastGas R header state call least →
    ∀ n ∈ triedLimits header call least, n < least.toNat →
      RunsShort R header state call (BitVec.ofNat 64 n)

variable {O : Oracle} {peers : BodyPeers} {s : SledStorage} {parsed : JsonValue}

theorem rpcEstimateGas_eq (h : estimateRequest R O peers s parsed = .ok (call, header, state)) :
    rpcEstimateGas R O peers s parsed =
      (estimateGas R header state call).map fun gas => .str (hexQuantity gas) := by
  unfold rpcEstimateGas
  rw [h, ok_bind]
  dsimp only
  cases estimateGas R header state call <;> rfl

theorem estimatesLeast_of_empty (hmono : MonotoneGas R header state call)
    (hmax : AllowedMaximum header call) :
    EstimatesLeast R header state call (.ok (.str (hexQuantity transferGas.toNat))) ↔
      Succeeds R header state call transferGas := by
  constructor
  · intro h
    by_cases hsucceeds : Succeeds R header state call (call.maxGas header)
    · obtain ⟨least, hleast, hanswer⟩ := h.enough hsucceeds
      have hsame : transferGas.toNat = least.toNat :=
        hexQuantity_injective (JsonValue.str.inj (Except.ok.inj hanswer))
      rw [BitVec.eq_of_toNat_eq hsame]
      exact hleast.succeeds
    · obtain ⟨e, hanswer⟩ := h.short hsucceeds
      exact absurd hanswer (by simp)
  · intro hsucceeds
    refine ⟨fun _ => ⟨transferGas, ⟨le_rfl, hsucceeds, fun gas hgas hless => by omega⟩, rfl⟩,
      fun hfails => ?_⟩
    exact absurd (hmono _ _ hmax.transfer hsucceeds) hfails

/-- **An estimate is the least sufficient gas limit exactly when the search never gives up.** -/
theorem estimate_least_iff (h : estimateRequest R O peers s parsed = .ok (call, header, state))
    (hmono : MonotoneGas R header state call) (hmax : AllowedMaximum header call) :
    EstimatesLeast R header state call (rpcEstimateGas R O peers s parsed) ↔
      NeverGivesUp R header state call := by
  rw [rpcEstimateGas_eq h]
  unfold NeverGivesUp
  split_ifs with hempty
  · have hanswer : estimateGas R header state call = .ok transferGas.toNat := by
      unfold estimateGas
      rw [if_pos hempty]
      rfl
    rw [hanswer]
    exact estimatesLeast_of_empty hmono hmax
  · rw [Bool.not_eq_true] at hempty
    constructor
    · intro hestimates hsucceeds least hleast n hn hless
      obtain ⟨least', hleast', hanswer⟩ := hestimates.enough hsucceeds
      have hbound : least.toNat ≤ (call.maxGas header).toNat := by
        by_contra hlt
        exact hleast.minimal _ hmax.transfer (by omega) hsucceeds
      rcases estimateGas_cases hmono hempty hmax hleast hbound with ⟨-, hshort⟩ | ⟨⟨e, herror⟩, -⟩
      · exact hshort n hn hless
      · rw [herror] at hanswer
        exact absurd hanswer (by simp [Except.map])
    · intro hcondition
      refine ⟨fun hsucceeds => ?_, fun hfails => ?_⟩
      · obtain ⟨least, hleast, hbound⟩ := exists_leastGas hmax.transfer hsucceeds
        refine ⟨least, hleast, ?_⟩
        rcases estimateGas_cases hmono hempty hmax hleast hbound with
          ⟨hanswer, -⟩ | ⟨-, n, hn, hless, hstop⟩
        · rw [hanswer]
          rfl
        · exact absurd (hcondition hsucceeds least hleast n hn hless) hstop
      · obtain ⟨e, herror⟩ := estimateGas_of_fails hmono hempty hmax hfails
        rw [herror]
        exact ⟨e, rfl⟩

/-! ## A call that fails with gas left over -/

/-- An executor whose calls need fifty thousand units of gas: with less an inner call runs short and
the outer one reverts after thirty thousand. -/
def innerCallRevm : Revm where
  transact _ _ _ tx :=
    .ok ({ success := 50000 ≤ tx.gasLimit.toNat, gasUsed := 30000, output := [], logs := [] }, ∅)

def innerCallStore : SledStorage := SledStorage.insertBlock {} (emptyBlock 0 0 0 0)

def innerCall : EstimateCall := ⟨some 8, 0, [1], 0, some 60000⟩

def innerCallRequest : JsonValue :=
  .obj [("params", .arr [.obj [("to", .str (Address.toHex 8)), ("data", .str "0x01"),
    ("gas", .str "0xea60")]])]

theorem estimateRequest_innerCall :
    estimateRequest innerCallRevm nonceOracle noPeers innerCallStore innerCallRequest =
      .ok (innerCall, (emptyBlock 0 0 0 0).header, {}) := by decide +kernel

theorem succeeds_innerCall_iff :
    Succeeds innerCallRevm (emptyBlock 0 0 0 0).header {} innerCall gas ↔ 50000 ≤ gas.toNat := by
  constructor
  · rintro ⟨output, after, hrun, hsuccess⟩
    obtain ⟨rfl, -⟩ := Prod.mk.inj (Except.ok.inj hrun)
    exact of_decide_eq_true hsuccess
  · intro hgas
    exact ⟨_, _, rfl, decide_eq_true hgas⟩

theorem monotoneGas_innerCall :
    MonotoneGas innerCallRevm (emptyBlock 0 0 0 0).header {} innerCall := by
  intro gas gas' hle hsucceeds
  rw [succeeds_innerCall_iff] at hsucceeds ⊢
  omega

theorem allowedMaximum_innerCall : AllowedMaximum (emptyBlock 0 0 0 0).header innerCall :=
  ⟨by decide, by decide⟩

theorem estimate_least_iff_innerCall :
    EstimatesLeast innerCallRevm (emptyBlock 0 0 0 0).header {} innerCall
        (rpcEstimateGas innerCallRevm nonceOracle noPeers innerCallStore innerCallRequest) ↔
      NeverGivesUp innerCallRevm (emptyBlock 0 0 0 0).header {} innerCall :=
  estimate_least_iff estimateRequest_innerCall monotoneGas_innerCall allowedMaximum_innerCall

/-- The call succeeds with the maximum of sixty thousand; the first attempt, with forty thousand five
hundred, reverts with gas left and is the answer. -/
theorem inner_call_estimate_reverts :
    MonotoneGas innerCallRevm (emptyBlock 0 0 0 0).header {} innerCall ∧
    AllowedMaximum (emptyBlock 0 0 0 0).header innerCall ∧
    Succeeds innerCallRevm (emptyBlock 0 0 0 0).header {} innerCall
      (innerCall.maxGas (emptyBlock 0 0 0 0).header) ∧
    rpcEstimateGas innerCallRevm nonceOracle noPeers innerCallStore innerCallRequest =
      .error (.server "EVM execution reverted") ∧
    ¬EstimatesLeast innerCallRevm (emptyBlock 0 0 0 0).header {} innerCall
      (rpcEstimateGas innerCallRevm nonceOracle noPeers innerCallStore innerCallRequest) := by
  have hsucceeds : Succeeds innerCallRevm (emptyBlock 0 0 0 0).header {} innerCall
      (innerCall.maxGas (emptyBlock 0 0 0 0).header) := succeeds_innerCall_iff.mpr (by decide)
  have hfirst : estimateProbe innerCallRevm (emptyBlock 0 0 0 0).header {} innerCall 40500 =
      .stop (.server "EVM execution reverted") := rfl
  have hsearch : Bisection.search (estimateProbe innerCallRevm (emptyBlock 0 0 0 0).header {} innerCall)
      transferGas.toNat (innerCall.maxGas (emptyBlock 0 0 0 0).header).toNat transferGas_pos none =
        .error (.server "EVM execution reverted") :=
    Bisection.search_stop (by decide) hfirst none
  have hanswer : rpcEstimateGas innerCallRevm nonceOracle noPeers innerCallStore innerCallRequest =
      .error (.server "EVM execution reverted") := by
    rw [rpcEstimateGas_eq estimateRequest_innerCall,
      estimateGas_eq_search (by decide) allowedMaximum_innerCall, hsearch]
    rfl
  refine ⟨monotoneGas_innerCall, allowedMaximum_innerCall, hsucceeds, hanswer, fun hestimates => ?_⟩
  obtain ⟨least, -, hleast⟩ := hestimates.enough hsucceeds
  exact absurd (hanswer.symm.trans hleast) (by simp)

end Blq
