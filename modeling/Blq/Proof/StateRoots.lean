import Blq.Proof.Persist
import Blq.Word.Delimited

/-!
# What the state root says of the state

A plain block's root is a digest of balances and nonces, a contract block's root one of the
non-empty accounts with the hash of their code and their slots, written one after the other
without counts.

* `nonEmptyRows_eq_of_text`: the contract text determines the accounts once the number of
  slots of each of them is known.
* `state_root_commits_iff`: equal roots stand for equal states exactly when the two states have
  the same numbers of slots, for a contract block, and when the two databases held the same
  code and slots before, for a plain one.
* `state_root_misses_storage`: pairs of states with one root that differ, of both kinds.
-/

namespace Blq

open Word Result

/-! ## The hashed texts -/

def nonEmptyRows (rows : EvmStateSnapshot) : List (Address × EvmAccountSnapshot) :=
  rows.toList.filter fun p => !p.2.isEmpty

/-- A non-empty account of a contract block's text. -/
def rowBytes (O : Oracle) (p : Address × EvmAccountSnapshot) : Bytes :=
  beBytes p.1 ++ (beBytes p.2.balance ++ (beBytes p.2.nonce ++
    (beBytes (hashBytes O p.2.code) ++
      p.2.storage.toList.flatMap fun e => beBytes e.1 ++ beBytes e.2)))

def evmStateText (O : Oracle) (rows : EvmStateSnapshot) : Bytes :=
  "BLQ-EVM-STATE-v1".toUTF8.toList ++ (nonEmptyRows rows).flatMap (rowBytes O)

theorem evmStateRootFromAccounts_eq (O : Oracle) (rows : EvmStateSnapshot) :
    evmStateRootFromAccounts O rows = O.sha256 (evmStateText O rows) := by
  have hrow : rowBytes O = fun p : Address × EvmAccountSnapshot =>
      beBytes p.1 ++ beBytes p.2.balance ++ beBytes p.2.nonce ++
        beBytes (hashBytes O p.2.code) ++
        p.2.storage.toList.flatMap fun e => beBytes e.1 ++ beBytes e.2 := by
    funext p
    simp only [rowBytes, List.append_assoc]
  rw [evmStateText, hrow]
  rfl

def nonEmptyAccounts (accounts : NativeAccounts) : List (Address × Bix × U64) :=
  accounts.toList.filter fun p => decide (p.2.1.toNat > 0) || decide (p.2.2.toNat > 0)

def accountBytes (p : Address × Bix × U64) : Bytes :=
  beBytes p.1 ++ (beBytes p.2.1 ++ beBytes p.2.2)

def plainStateText (accounts : NativeAccounts) : Bytes :=
  "BLQ-STATE-v1".toUTF8.toList ++ toBeBytes 8 (nonEmptyAccounts accounts).length ++
    (nonEmptyAccounts accounts).flatMap accountBytes

theorem stateRootFromAccounts_eq (O : Oracle) (accounts : NativeAccounts) :
    stateRootFromAccounts O accounts = O.sha256 (plainStateText accounts) := by
  have haccount : accountBytes = fun p : Address × Bix × U64 =>
      beBytes p.1 ++ beBytes p.2.1 ++ beBytes p.2.2 := by
    funext p
    simp only [accountBytes, List.append_assoc]
  rw [plainStateText, haccount]
  rfl

/-! ## Reading the texts -/

theorem delimited_slot : Delimited (fun _ : Hash256 × Hash256 => True)
    fun e => beBytes e.1 ++ beBytes e.2 := by
  intro e e' rest rest' _ _ heq
  simp (disch := decide) only [List.append_assoc, beBytes_append_inj] at heq
  obtain ⟨hslot, hvalue, hrest⟩ := heq
  exact ⟨Prod.ext hslot hvalue, hrest⟩

theorem beBytes_append_ne_nil {w : ℕ} (hw : 0 < w / 8) (v : BitVec w) (rest : Bytes) :
    beBytes v ++ rest ≠ [] := by
  intro hnil
  have hlen := congrArg List.length hnil
  rw [List.length_append, beBytes, length_toBeBytes, List.length_nil] at hlen
  omega

variable {accounts : NativeAccounts} {O : Oracle} {rows : EvmStateSnapshot} {S : RevmState}

theorem nonEmptyAccounts_eq_of_text {accounts' : NativeAccounts}
    (heq : plainStateText accounts = plainStateText accounts') :
    nonEmptyAccounts accounts = nonEmptyAccounts accounts' := by
  have hdelimited : Delimited (fun _ : Address × Bix × U64 => True) accountBytes := by
    intro p p' rest rest' _ _ heq
    simp (disch := decide) only [accountBytes, List.append_assoc, beBytes_append_inj] at heq
    obtain ⟨haddress, hbalance, hnonce, hrest⟩ := heq
    exact ⟨Prod.ext haddress (Prod.ext hbalance hnonce), hrest⟩
  have htail := (List.append_inj heq (by simp)).2
  exact hdelimited.flatMap_inj (fun p _ => beBytes_append_ne_nil (by decide) _ _)
    (fun _ _ => trivial) (fun _ _ => trivial) htail

theorem length_rowBytes (O : Oracle) (p : Address × EvmAccountSnapshot) :
    (rowBytes O p).length = 76 + 64 * p.2.storage.size := by
  have hslots : ∀ l : List (Hash256 × Hash256),
      (l.flatMap fun e => beBytes e.1 ++ beBytes e.2).length = 64 * l.length := by
    intro l
    induction l with
    | nil => rfl
    | cons e l ih =>
      rw [List.flatMap_cons, List.length_append, ih, List.length_append, List.length_cons]
      simp only [beBytes, length_toBeBytes]
      omega
  rw [rowBytes, List.length_append, List.length_append, List.length_append, List.length_append,
    hslots, Std.ExtTreeMap.length_toList]
  simp only [beBytes, length_toBeBytes]
  omega

/-- **A contract text determines its accounts, given the number of slots of each.** -/
theorem nonEmptyRows_eq_of_text {rows' : EvmStateSnapshot} {texts : Set Bytes}
    (hfree : Set.InjOn O.sha256 texts) (hcodes : ∀ p ∈ nonEmptyRows rows, p.2.code ∈ texts)
    (hcodes' : ∀ p ∈ nonEmptyRows rows', p.2.code ∈ texts)
    (hsizes : (nonEmptyRows rows).map (fun p => p.2.storage.size) =
      (nonEmptyRows rows').map fun p => p.2.storage.size)
    (heq : evmStateText O rows = evmStateText O rows') :
    nonEmptyRows rows = nonEmptyRows rows' := by
  refine flatMap_inj_of_sizes (P := fun p => p.2.code ∈ texts) (rowBytes O) ?_ ?_
    hcodes hcodes' hsizes (List.append_cancel_left heq)
  · intro p p' hsize
    rw [length_rowBytes, length_rowBytes, hsize]
  · intro p p' hp hp' _ hrow
    simp (disch := decide) only [rowBytes, beBytes_append_inj] at hrow
    obtain ⟨haddress, hbalance, hnonce, hhash, hrow⟩ := hrow
    have hcode : p.2.code = p'.2.code := hfree hp hp' hhash
    have hstorage : p.2.storage = p'.2.storage := by
      refine Std.ExtTreeMap.toList_inj.mp (delimited_slot.flatMap_inj ?_ (fun _ _ => trivial)
        (fun _ _ => trivial) hrow)
      exact fun e _ => beBytes_append_ne_nil (by decide) _ _
    obtain ⟨a, r⟩ := p
    obtain ⟨a', r'⟩ := p'
    cases r
    cases r'
    simp_all

/-! ## The rows of a contract block's state -/

def RevmAccount.snapshot (account : RevmAccount) : EvmAccountSnapshot where
  balance := account.balance.setWidth 128
  nonce := account.nonce
  code := account.code
  storage := account.storage

theorem toRevm_snapshot {account : RevmAccount} (h : account.balance.toNat < 2 ^ 128) :
    account.snapshot.toRevm = account := by
  have hbalance : (account.balance.setWidth 128).setWidth 256 = account.balance := by
    refine BitVec.eq_of_toNat_eq ?_
    rw [BitVec.toNat_setWidth, BitVec.toNat_setWidth, Nat.mod_eq_of_lt h,
      Nat.mod_eq_of_lt (h.trans (by decide))]
  rw [RevmAccount.snapshot, EvmAccountSnapshot.toRevm, hbalance]

theorem evmAccountsFromRevmState_ok (h : evmAccountsFromRevmState S = .ok rows) :
    (∀ p ∈ S.accounts.toList, p.2.balance.toNat < 2 ^ 128) ∧
      rows = S.accounts.map fun _ account => account.snapshot :=
  (foldlM_inRange_eq_ok (fun account balance => EvmAccountSnapshot.mk balance account.nonce account.code
    account.storage) _).mp h

theorem snapshot_isEmpty_iff {account : RevmAccount} (h : account.balance.toNat < 2 ^ 128) :
    account.snapshot.isEmpty = true ↔ account = {} := by
  constructor
  · intro hempty
    simp only [EvmAccountSnapshot.isEmpty, Bool.and_eq_true, beq_iff_eq, List.isEmpty_iff,
      Std.ExtTreeMap.isEmpty_iff] at hempty
    obtain ⟨⟨⟨hbalance, hnonce⟩, hcode⟩, hstorage⟩ := hempty
    rw [← toRevm_snapshot h]
    simp only [EvmAccountSnapshot.toRevm, hbalance, hnonce, hcode, hstorage]
    rfl
  · rintro rfl
    rfl

def RevmState.nonEmpty (S : RevmState) : List (Address × RevmAccount) :=
  S.accounts.toList.filter fun p => decide (p.2 ≠ {})

/-- The number of slots of each non-empty account, in the order of the addresses. -/
def RevmState.slotCounts (S : RevmState) : List ℕ := S.nonEmpty.map fun p => p.2.storage.size

theorem nonEmptyRows_eq (h : evmAccountsFromRevmState S = .ok rows) :
    nonEmptyRows rows = S.nonEmpty.map fun p => (p.1, p.2.snapshot) := by
  obtain ⟨hrange, rfl⟩ := evmAccountsFromRevmState_ok h
  rw [nonEmptyRows, Std.ExtTreeMap.toList_map, List.filter_map, RevmState.nonEmpty]
  refine congrArg _ (List.filter_congr fun p hp => ?_)
  have hiff := snapshot_isEmpty_iff (hrange p hp)
  show (!p.2.snapshot.isEmpty) = decide (p.2 ≠ {})
  by_cases hempty : p.2 = {}
  · rw [hiff.mpr hempty, decide_eq_false (not_not.mpr hempty)]
    rfl
  · rw [Bool.eq_false_iff.mpr fun htrue => hempty (hiff.mp htrue), decide_eq_true hempty]
    rfl

/-- Two states agree when every account that is not empty in one of them is the same in both:
a missing account reads as the empty one. -/
def Agree (S S' : RevmState) : Prop := ∀ a, S.account a = S'.account a

theorem agree_iff_nonEmpty {S' : RevmState} : Agree S S' ↔ S.nonEmpty = S'.nonEmpty :=
  (Map.filter_toList_eq_iff ({} : RevmAccount) (fun account => decide (account ≠ {}))
    (by simp)).symm

/-! ## The accounts of a plain block's state -/

theorem isSome_of_transferStep {header : BlockHeader} {split : FeeSplit} {p p' : TransferProgress}
    {t : Transaction} (h : transferStep O header split p t = .ok p') {a : Address}
    (ha : (p.accounts[a]?).isSome) : (p'.accounts[a]?).isSome := by
  simp only [transferStep, bind_eq_ok, throw_bind] at h
  obtain ⟨-, -, -, -, h⟩ := h
  split at h
  · next to_ _ =>
    simp only [ite_throw_eq_ok, pure_eq_ok] at h
    obtain ⟨-, -, rfl⟩ := h
    rw [Map.getElem?_entry, Map.getElem?_insert_eq]
    split
    · rfl
    · split
      · rfl
      · exact ha
  · exact absurd h throw_ne_ok

theorem isSome_of_simulateStateTransition {accounts' : NativeAccounts} {block : Block}
    {timestamp gasUsed : U64} {receipts : List Receipt}
    (h : simulateStateTransitionFromAccounts O accounts block timestamp =
      .ok (accounts', receipts, gasUsed)) {a : Address} (ha : (accounts[a]?).isSome) :
    (accounts'[a]?).isSome := by
  simp only [simulateStateTransitionFromAccounts, bind_eq_ok, throw_bind, ite_throw_eq_ok,
    pure_eq_ok, Prod.mk.injEq] at h
  obtain ⟨_, -, -, p, hloop, rfl, -, -⟩ := h
  have hp := foldlM_rec (P := fun p : TransferProgress => (p.accounts[a]?).isSome) hloop ha
    fun _ _ _ _ hstep hq => isSome_of_transferStep hstep hq
  split
  · rw [Map.getElem?_entry]
    split
    · rfl
    · exact hp
  · exact hp

/-- An account after a plain block: new balance and nonce, old code and slots. -/
theorem account_of_plain {s : SledStorage} {block : Block} {timestamp gasUsed : U64}
    {receipts : List Receipt}
    (h : simulateStateTransitionFromAccounts O s.accountSnapshot block timestamp =
      .ok (accounts, receipts, gasUsed)) (a : Address) :
    (mergeNativeAccountsIntoRevmState (revmStateFromSled s) accounts).account a =
      { (revmStateFromSled s).account a with
        balance := ((accounts[a]?).getD (0, 0)).1.setWidth 256
        nonce := ((accounts[a]?).getD (0, 0)).2 } := by
  rw [account_mergeNativeAccounts]
  cases hrow : accounts[a]? with
  | some row => rfl
  | none =>
    -- an address without a row had none before
    have hnone : s.accountSnapshot[a]? = none := by
      by_contra hsome
      have := isSome_of_simulateStateTransition h (Option.isSome_iff_ne_none.mpr hsome)
      rw [hrow] at this
      cases this
    have hzero := accountSnapshot_getD s a
    rw [hnone, Option.getD_none, Prod.mk.injEq] at hzero
    have hview := view_revmStateFromSled s a
    have hbalance : ((revmStateFromSled s).account a).balance = 0 := by
      have := congrArg AccountView.balance hview
      rw [show (s.view a).balance = (s.balance a).setWidth 256 from rfl, ← hzero.1] at this
      exact this
    have hnonce : ((revmStateFromSled s).account a).nonce = 0 := by
      have := congrArg AccountView.nonce hview
      rw [show (s.view a).nonce = s.nonce a from rfl, ← hzero.2] at this
      exact this
    rw [Option.elim_none, Option.getD_none]
    show _ = RevmAccount.mk 0 0 _ _
    rw [← hbalance, ← hnonce]

/-! ## Equal roots -/

section Roots

variable {O : Oracle} {R : Revm} {s s' : SledStorage} {block block' : Block}

/-- The texts that are hashed for the root of a block: the text of the state and, for a contract
block, the code of its accounts. -/
def stateTexts (O : Oracle) (R : Revm) (s : SledStorage) (block : Block) : List Bytes :=
  if block.transactions.any isEvmTransaction then
    match simulateEvmStateTransition O R s block with
    | .ok simulation =>
      match evmAccountsFromRevmState simulation.state with
      | .ok rows => evmStateText O rows :: (nonEmptyRows rows).map fun p => p.2.code
      | .error _ => []
    | .error _ => []
  else
    match simulateStateTransition O s block with
    | .ok (accounts, _, _) => [plainStateText accounts]
    | .error _ => []

theorem contract_root {e : Executed} (hkind : block.transactions.any isEvmTransaction = true)
    (he : executeBlock O R s block = .ok e) (hS : executedState O R s block = .ok S) :
    ∃ rows, evmAccountsFromRevmState S = .ok rows ∧
      e.stateRoot = O.sha256 (evmStateText O rows) ∧
      stateTexts O R s block = evmStateText O rows :: (nonEmptyRows rows).map fun p => p.2.code := by
  simp only [executeBlock, hkind, if_true, bind_eq_ok, pure_eq_ok, evmStateRootFromRevmState] at he
  obtain ⟨simulation, hsim, root, ⟨rows, hrows, rfl⟩, rfl⟩ := he
  have hstate : S = simulation.state := by
    simp only [executedState, hkind, if_true, bind_eq_ok, pure_eq_ok] at hS
    simp only [simulateEvmStateTransition, bind_eq_ok] at hsim
    obtain ⟨timestamp, ht, simulation', hrun, rfl⟩ := hS
    obtain ⟨timestamp', ht', hrun'⟩ := hsim
    rw [ht] at ht'
    obtain rfl := Except.ok.inj ht'
    rw [hrun] at hrun'
    rw [Except.ok.inj hrun']
  subst hstate
  refine ⟨rows, hrows, evmStateRootFromAccounts_eq O rows, ?_⟩
  simp only [stateTexts, hkind, if_true, hsim, hrows]

theorem plain_root {e : Executed} (hkind : block.transactions.any isEvmTransaction = false)
    (he : executeBlock O R s block = .ok e) (hS : executedState O R s block = .ok S) :
    ∃ accounts : NativeAccounts, e.stateRoot = O.sha256 (plainStateText accounts) ∧
      stateTexts O R s block = [plainStateText accounts] ∧
      ∀ a, S.account a = { (revmStateFromSled s).account a with
        balance := ((accounts[a]?).getD (0, 0)).1.setWidth 256
        nonce := ((accounts[a]?).getD (0, 0)).2 } := by
  simp only [executeBlock, hkind, Bool.false_eq_true, if_false, bind_eq_ok, pure_eq_ok] at he
  obtain ⟨⟨accounts, receipts, gasUsed⟩, hsim, rfl⟩ := he
  have htexts : stateTexts O R s block = [plainStateText accounts] := by
    simp only [stateTexts, hkind, Bool.false_eq_true, if_false, hsim]
  simp only [simulateStateTransition, bind_eq_ok] at hsim
  obtain ⟨timestamp, ht, hrun⟩ := hsim
  simp only [executedState, hkind, Bool.false_eq_true, if_false, ht, ok_bind, hrun, pure_eq_ok] at hS
  subst hS
  exact ⟨accounts, stateRootFromAccounts_eq O accounts, htexts, account_of_plain hrun⟩

/-- Two databases that hold the same code and the same slots at every address. -/
def SameContracts (s s' : SledStorage) : Prop :=
  ∀ a, ((revmStateFromSled s).account a).code = ((revmStateFromSled s').account a).code ∧
    ((revmStateFromSled s).account a).storage = ((revmStateFromSled s').account a).storage

/-- **When the state root commits to the state.** Of two blocks of one kind that lead to one
state root, the states agree in every balance, nonce, code and slot if and only if, for contract
blocks, their non-empty accounts have the same numbers of slots, and, for plain blocks, the
databases before the blocks held the same code and slots. -/
theorem state_root_commits_iff (O : Oracle) (R : Revm) (s s' : SledStorage) (block block' : Block)
    (e e' : Executed) (S S' : RevmState)
    (hkind : block.transactions.any isEvmTransaction = block'.transactions.any isEvmTransaction)
    (he : executeBlock O R s block = .ok e) (he' : executeBlock O R s' block' = .ok e')
    (hS : executedState O R s block = .ok S) (hS' : executedState O R s' block' = .ok S')
    (hfree : Set.InjOn O.sha256
      {text | text ∈ stateTexts O R s block ++ stateTexts O R s' block'})
    (hroot : e.stateRoot = e'.stateRoot) :
    Agree S S' ↔ if block.transactions.any isEvmTransaction then S.slotCounts = S'.slotCounts
      else SameContracts s s' := by
  by_cases hevm : block.transactions.any isEvmTransaction = true
  · rw [if_pos hevm]
    obtain ⟨rows, hrows, hsha, htexts⟩ := contract_root hevm he hS
    obtain ⟨rows', hrows', hsha', htexts'⟩ := contract_root (hkind ▸ hevm) he' hS'
    rw [htexts, htexts'] at hfree
    constructor
    · intro hagree
      rw [RevmState.slotCounts, RevmState.slotCounts, agree_iff_nonEmpty.mp hagree]
    · intro hcounts
      have htext : evmStateText O rows = evmStateText O rows' :=
        hfree (by simp) (by simp) (by rw [← hsha, ← hsha', hroot])
      have hsizes : ∀ (S : RevmState) (rows : EvmStateSnapshot),
          evmAccountsFromRevmState S = .ok rows →
          (nonEmptyRows rows).map (fun p => p.2.storage.size) = S.slotCounts := by
        intro S rows hrows
        rw [nonEmptyRows_eq hrows, List.map_map]
        rfl
      have hsame := nonEmptyRows_eq_of_text hfree
        (fun p hp => List.mem_append_left _
          (List.mem_cons_of_mem _ (List.mem_map.mpr ⟨p, hp, rfl⟩)))
        (fun p hp => List.mem_append_right _
          (List.mem_cons_of_mem _ (List.mem_map.mpr ⟨p, hp, rfl⟩)))
        (by rw [hsizes S rows hrows, hsizes S' rows' hrows', hcounts]) htext
      rw [nonEmptyRows_eq hrows, nonEmptyRows_eq hrows'] at hsame
      -- in range a row says what the account is
      have hback : ∀ (S : RevmState) (rows : EvmStateSnapshot),
          evmAccountsFromRevmState S = .ok rows →
          (S.nonEmpty.map fun p => (p.1, p.2.snapshot)).map (fun p => (p.1, p.2.toRevm)) =
            S.nonEmpty := by
        intro S rows hrows
        rw [List.map_map]
        refine (List.map_congr_left fun p hp => ?_).trans (List.map_id _)
        have hrange := (evmAccountsFromRevmState_ok hrows).1 p (List.mem_of_mem_filter hp)
        exact Prod.ext rfl (toRevm_snapshot hrange)
      rw [agree_iff_nonEmpty, ← hback S rows hrows, hsame, hback S' rows' hrows']
  · rw [if_neg hevm]
    have hplain := Bool.eq_false_iff.mpr hevm
    obtain ⟨accounts, hsha, htexts, haccount⟩ := plain_root hplain he hS
    obtain ⟨accounts', hsha', htexts', haccount'⟩ := plain_root (hkind ▸ hplain) he' hS'
    rw [htexts, htexts'] at hfree
    have htext : plainStateText accounts = plainStateText accounts' :=
      hfree (by simp) (by simp) (by rw [← hsha, ← hsha', hroot])
    have hnative : ∀ a : Address, (accounts[a]?).getD (0, 0) = (accounts'[a]?).getD (0, 0) := by
      refine (Map.filter_toList_eq_iff (0, 0)
        (fun row : Bix × U64 => decide (row.1.toNat > 0) || decide (row.2.toNat > 0))
        ?_).mp (nonEmptyAccounts_eq_of_text htext)
      rintro ⟨balance, nonce⟩
      simp [BitVec.toNat_eq, Prod.ext_iff]
    constructor
    · intro hagree a
      have hsame := hagree a
      rw [haccount a, haccount' a, RevmAccount.mk.injEq] at hsame
      exact ⟨hsame.2.2.1, hsame.2.2.2⟩
    · intro hcontracts a
      rw [haccount a, haccount' a, hnative a]
      dsimp only
      rw [(hcontracts a).1, (hcontracts a).2]

end Roots

/-! ## Different states with one root -/

def scaledOracle : Oracle :=
  { zeroOracle with sha256 := fun bs => BitVec.ofNat 256 ((bs.length + 1) * 2 ^ 96) }

def contractStore (slots : Map Hash256 Hash256) : SledStorage :=
  (((({} : SledStorage).putHeader (genesisHeader zeroOracle)).putAccount alice
    1000000000000000000 0)).putEvmAccount 1 7 1 [1, 2] slots

def slotStore : SledStorage :=
  (contractStore ((∅ : Map Hash256 Hash256).insert (BitVec.ofNat 256 (2 ^ 97)) 2)).putEvmAccount
    2 5 3 [] ∅

/-- The contract has no slot, and the account behind it is made of the bytes of the slot; its
own slot has the rest of the account above. -/
def shiftedStore : SledStorage :=
  (contractStore ∅).putEvmAccount 2 0 0 [1]
    ((∅ : Map Hash256 Hash256).insert (BitVec.ofNat 256 (2 * 2 ^ 192 + 5 * 2 ^ 64 + 3))
      (BitVec.ofNat 256 (2 ^ 96)))

def idleBlock : Block := { keptTipsBlock with transactions := [] }

/-- Two runs of a block with equal roots and no collision among the hashed texts. -/
structure EqualRoots (O : Oracle) (R : Revm) (s s' : SledStorage) (block : Block)
    (e e' : Executed) (S S' : RevmState) : Prop where
  executed : executeBlock O R s block = .ok e
  executed' : executeBlock O R s' block = .ok e'
  state : executedState O R s block = .ok S
  state' : executedState O R s' block = .ok S'
  free : Set.InjOn O.sha256 {text | text ∈ stateTexts O R s block ++ stateTexts O R s' block}
  root : e.stateRoot = e'.stateRoot

/-- The two runs on concrete databases, with what is asked of the two states. -/
def equalRootsWith (s s' : SledStorage) (block : Block) (p : RevmState → RevmState → Bool) : Bool :=
  match executeBlock scaledOracle callRevm s block, executeBlock scaledOracle callRevm s' block,
    executedState scaledOracle callRevm s block, executedState scaledOracle callRevm s' block with
  | .ok e, .ok e', .ok S, .ok S' =>
    let texts := stateTexts scaledOracle callRevm s block ++ stateTexts scaledOracle callRevm s' block
    e.stateRoot == e'.stateRoot && p S S' &&
      decide (∀ x ∈ texts, ∀ y ∈ texts, scaledOracle.sha256 x = scaledOracle.sha256 y → x = y)
  | _, _, _, _ => false

theorem of_equalRootsWith (s s' : SledStorage) (block : Block) (p : RevmState → RevmState → Bool)
    (h : equalRootsWith s s' block p = true) :
    ∃ e e' S S', EqualRoots scaledOracle callRevm s s' block e e' S S' ∧ p S S' = true := by
  unfold equalRootsWith at h
  split at h
  · next e e' S S' he he' hS hS' =>
    simp only [Bool.and_eq_true, beq_iff_eq, decide_eq_true_eq] at h
    exact ⟨e, e', S, S', ⟨he, he', hS, hS', fun x hx y hy hxy => h.2 x hx y hy hxy, h.1.1⟩, h.1.2⟩
  · cases h

/-- **One root, two states.** A contract block on two databases in which the bytes of a slot and
of an account are cut differently, and an empty block on two databases that differ in a slot. -/
theorem state_root_misses_storage :
    (∃ e e' S S', EqualRoots scaledOracle callRevm slotStore shiftedStore keptTipsBlock e e' S S' ∧
      ¬ Agree S S') ∧
    ∃ e e' S S', EqualRoots scaledOracle callRevm (contractStore ∅)
      (contractStore ((∅ : Map Hash256 Hash256).insert 1 2)) idleBlock e e' S S' ∧
      ¬ Agree S S' := by
  constructor
  · obtain ⟨e, e', S, S', h, hdiffer⟩ := of_equalRootsWith slotStore shiftedStore keptTipsBlock
      (fun S S' => S.account 1 != S'.account 1) (by decide +kernel)
    exact ⟨e, e', S, S', h, fun hagree => bne_iff_ne.mp hdiffer (hagree 1)⟩
  · obtain ⟨e, e', S, S', h, hdiffer⟩ := of_equalRootsWith (contractStore ∅)
      (contractStore ((∅ : Map Hash256 Hash256).insert 1 2)) idleBlock
      (fun S S' => S.account 1 != S'.account 1) (by decide +kernel)
    exact ⟨e, e', S, S', h, fun hagree => bne_iff_ne.mp hdiffer (hagree 1)⟩

/-- Two databases of which one has a row for an empty account. -/
theorem state_root_commits_contractStore :
    ∃ e e' S S', EqualRoots scaledOracle callRevm (contractStore ∅)
      ((contractStore ∅).putAccount 9 0 0) keptTipsBlock e e' S S' ∧
      (Agree S S' ↔ if keptTipsBlock.transactions.any isEvmTransaction then
        S.slotCounts = S'.slotCounts
        else SameContracts (contractStore ∅) ((contractStore ∅).putAccount 9 0 0)) := by
  obtain ⟨e, e', S, S', h, -⟩ := of_equalRootsWith (contractStore ∅)
    ((contractStore ∅).putAccount 9 0 0) keptTipsBlock (fun _ _ => true) (by decide +kernel)
  exact ⟨e, e', S, S', h, state_root_commits_iff scaledOracle callRevm _ _ keptTipsBlock
    keptTipsBlock e e' S S' rfl h.executed h.executed' h.state h.state' h.free h.root⟩

end Blq
