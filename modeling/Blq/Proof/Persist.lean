import Blq.Monad.Invariant
import Blq.Proof.Supply
import Blq.Spec.Node

/-!
# What the database holds after a block

The abstract content of a state is its `view`: for each address the balance, nonce, code
and the value of every storage slot. A state map and the key-value encoding of the
database have one each.

* `view_revmStateFromSled`: decoding the database gives back its view.
* `view_putEvmAccount`: writing an account changes the view at its address only, to the
  account written.
* `view_persistRevmState`: writing a state leaves the view of that state at its accounts
  and the old view everywhere else. Accounts that the state no longer has are not removed.
* `insertBlock_persists_iff`: the database decodes to the executed state exactly when no
  account with any content has disappeared from it.
-/

namespace Blq

open Word Result

/-! ## Views -/

/-- An account as the executor reads it. -/
@[ext] structure AccountView where
  balance : U256
  nonce : U64
  code : Bytes
  slot : U256 → U256

def AccountView.empty : AccountView := ⟨0, 0, [], fun _ => 0⟩

def RevmAccount.view (account : RevmAccount) : AccountView where
  balance := account.balance
  nonce := account.nonce
  code := account.code
  slot key := (account.storage[key]?).getD 0

def RevmState.view (S : RevmState) (a : Address) : AccountView := (S.account a).view

def SledStorage.view (s : SledStorage) (a : Address) : AccountView where
  balance := (s.balance a).setWidth 256
  nonce := s.nonce a
  code := (s.codes[a]?).getD []
  slot key := (s.slots[storageKey a key]?).getD 0

variable {S : RevmState} {s s' : SledStorage} {block : Block}

theorem RevmState.view_of_none {a : Address} (h : S.accounts[a]? = none) :
    S.view a = AccountView.empty := by
  unfold RevmState.view RevmState.account
  rw [h]
  ext
  · rfl
  · rfl
  · rfl
  · simp [RevmAccount.view, AccountView.empty, default]

/-! ## Storage keys -/

theorem addressFromStorageKey_storageKey (a : Address) (slot : Hash256) :
    addressFromStorageKey (storageKey a slot) = (a, slot) := by
  unfold addressFromStorageKey storageKey
  refine Prod.ext ?_ ?_
  · refine BitVec.eq_of_getLsbD_eq fun i hi => ?_
    rw [BitVec.getLsbD_extractLsb', BitVec.getLsbD_append]
    simp [hi]
  · refine BitVec.eq_of_getLsbD_eq fun i hi => ?_
    rw [BitVec.getLsbD_setWidth, BitVec.getLsbD_append]
    simp [hi]

theorem storageKey_addressFromStorageKey (key : StorageKey) :
    storageKey (addressFromStorageKey key).1 (addressFromStorageKey key).2 = key := by
  unfold addressFromStorageKey storageKey
  refine BitVec.eq_of_getLsbD_eq fun i hi => ?_
  rw [BitVec.getLsbD_append, BitVec.getLsbD_extractLsb', BitVec.getLsbD_setWidth]
  split
  · simp [*]
  · have h1 : i - 256 < 160 := by omega
    have h2 : 256 + (i - 256) = i := by omega
    simp [h1, h2]

theorem storageKey_eq_iff {a b : Address} {k l : Hash256} :
    storageKey a k = storageKey b l ↔ a = b ∧ k = l := by
  constructor
  · intro h
    have h' := congrArg addressFromStorageKey h
    rw [addressFromStorageKey_storageKey, addressFromStorageKey_storageKey] at h'
    exact Prod.mk.inj h'
  · rintro ⟨rfl, rfl⟩
    rfl

/-! ## Decoding the database -/

section Decode

variable (s : SledStorage) (a : Address)

theorem getElem?_accountSnapshot :
    s.accountSnapshot[a]? = (s.nonces[a]?).elim ((s.balances[a]?).map fun b => (b, 0))
      fun n => some (s.balance a, n) := by
  have hbal := Map.observe_foldl (fun (m : NativeAccounts) x => m[x]?)
    (fun accounts address balance => Map.entry accounts address (0, 0) fun e => (balance, e.2))
    (fun balance found => some (balance, (found.getD (0, 0)).2)) a
    (fun m k b => Map.getElem?_entry ..) s.balances ∅
  have hnonce := Map.observe_foldl (fun (m : NativeAccounts) x => m[x]?)
    (fun accounts address nonce => Map.entry accounts address (0, 0) fun e => (e.1, nonce))
    (fun nonce found => some ((found.getD (0, 0)).1, nonce)) a
    (fun m k b => Map.getElem?_entry ..) s.nonces
  rw [SledStorage.accountSnapshot, hnonce, hbal, SledStorage.balance]
  cases s.balances[a]? <;> cases s.nonces[a]? <;> rfl

theorem accountSnapshot_getD : (s.accountSnapshot[a]?).getD (0, 0) = (s.balance a, s.nonce a) := by
  rw [getElem?_accountSnapshot, SledStorage.balance, SledStorage.nonce]
  cases s.balances[a]? <;> cases s.nonces[a]? <;> rfl

theorem accountsWithCode_getD :
    (s.accountsWithCode[a]?).getD {} =
      { balance := s.balance a, nonce := s.nonce a, code := (s.codes[a]?).getD [] } := by
  have hcode := Map.observe_foldl (fun (m : EvmStateSnapshot) x => (m[x]?).getD {})
    (fun accounts address code => Map.entry accounts address {} fun e => { e with code := code })
    (fun code row => { row with code := code }) a
    (fun m k b => by rw [Map.getElem?_entry]; split <;> rfl) s.codes
  have hnative : ((s.accountSnapshot.map fun _ e =>
      ({ balance := e.1, nonce := e.2 } : EvmAccountSnapshot))[a]?).getD {} =
      { balance := s.balance a, nonce := s.nonce a } := by
    rw [Std.ExtTreeMap.getElem?_map, getElem?_accountSnapshot, SledStorage.balance, SledStorage.nonce]
    cases s.balances[a]? <;> cases s.nonces[a]? <;> rfl
  rw [SledStorage.accountsWithCode, hcode, hnative]
  cases s.codes[a]? <;> rfl

/-- Reading the slots leaves the other columns of every row. -/
theorem evmAccountSnapshot_columns :
    ({ (s.evmAccountSnapshot[a]?).getD {} with storage := ∅ } : EvmAccountSnapshot) =
      { balance := s.balance a, nonce := s.nonce a, code := (s.codes[a]?).getD [] } := by
  refine (Map.observe_foldl_of_forall
    (fun (m : EvmStateSnapshot) => ({ (m[a]?).getD {} with storage := ∅ } : EvmAccountSnapshot)) _
    (fun m key value => ?_) s.slots s.accountsWithCode).trans (by rw [accountsWithCode_getD])
  simp only [Map.getElem?_entry]
  split <;> rfl

theorem evmAccountSnapshot_slot (key : Hash256) :
    ((s.evmAccountSnapshot[a]?).getD {}).storage[key]? = s.slots[storageKey a key]? := by
  have h := Map.observe_foldl
    (fun (m : EvmStateSnapshot) (x : StorageKey) =>
      ((m[(addressFromStorageKey x).1]?).getD {}).storage[(addressFromStorageKey x).2]?)
    (fun accounts key value =>
      Map.entry accounts (addressFromStorageKey key).1 {} fun e =>
        { e with storage := e.storage.insert (addressFromStorageKey key).2 value })
    (fun value _ => some value) (storageKey a key)
    (fun m k v => by
      have hkey : k = storageKey a key ↔
          (addressFromStorageKey k).1 = a ∧ (addressFromStorageKey k).2 = key := by
        rw [← storageKey_eq_iff, storageKey_addressFromStorageKey]
      simp only [addressFromStorageKey_storageKey, Map.getElem?_entry, hkey, ite_and]
      split
      · simp only [Option.getD_some, Map.getElem?_insert_eq]
      · rfl) s.slots s.accountsWithCode
  simp only [addressFromStorageKey_storageKey, accountsWithCode_getD,
    Std.ExtTreeMap.getElem?_empty] at h
  rw [SledStorage.evmAccountSnapshot, h]
  cases s.slots[storageKey a key]? <;> rfl

def EvmAccountSnapshot.toRevm (row : EvmAccountSnapshot) : RevmAccount where
  nonce := row.nonce
  balance := row.balance.setWidth 256
  code := row.code
  storage := row.storage

theorem accounts_foldl_rows (rows : EvmStateSnapshot) :
    (rows.foldl (fun state address (account : EvmAccountSnapshot) =>
      state.putAccount address account.toRevm) ({} : RevmState)).accounts[a]? =
      (rows[a]?).map EvmAccountSnapshot.toRevm := by
  refine (Map.observe_foldl (fun (T : RevmState) x => T.accounts[x]?)
    (fun state address (account : EvmAccountSnapshot) => state.putAccount address account.toRevm)
    (fun account _ => some account.toRevm) a
    (fun T k row => RevmState.accounts_putAccount ..) rows {}).trans ?_
  cases rows[a]? <;> simp

theorem accounts_merge (S : RevmState) (accounts : NativeAccounts) :
    (mergeNativeAccountsIntoRevmState S accounts).accounts[a]? =
      (accounts[a]?).elim S.accounts[a]? fun row =>
        some { S.account a with balance := row.1.setWidth 256, nonce := row.2 } :=
  Map.observe_foldl (fun (T : RevmState) x => T.accounts[x]?)
    (fun state address (row : Bix × U64) => state.putAccount address
      { state.account address with balance := row.1.setWidth 256, nonce := row.2 })
    (fun row found => some { found.getD default with balance := row.1.setWidth 256, nonce := row.2 }) a
    (fun T k row => by
      rw [RevmState.accounts_putAccount]
      split
      · next hk => rw [← hk]; rfl
      · rfl) accounts S

theorem account_mergeNativeAccounts (S : RevmState) (accounts : NativeAccounts) :
    (mergeNativeAccountsIntoRevmState S accounts).account a =
      (accounts[a]?).elim (S.account a) fun row =>
        { S.account a with balance := row.1.setWidth 256, nonce := row.2 } := by
  rw [RevmState.account, accounts_merge]
  cases accounts[a]? <;> rfl

/-- The account decoded at an address is the row of the snapshot there. The native pass
writes the same balance and nonce once more. -/
theorem account_revmStateFromSled :
    (revmStateFromSled s).account a = ((s.evmAccountSnapshot[a]?).getD {}).toRevm := by
  have hrow := accountSnapshot_getD s a
  obtain ⟨hbal, hnonce, -⟩ := EvmAccountSnapshot.mk.inj (evmAccountSnapshot_columns s a)
  have h := account_mergeNativeAccounts a
    (s.evmAccountSnapshot.foldl (fun state address (account : EvmAccountSnapshot) =>
      state.putAccount address account.toRevm) ({} : RevmState)) s.accountSnapshot
  have hrows : (s.evmAccountSnapshot.foldl (fun state address (account : EvmAccountSnapshot) =>
      state.putAccount address account.toRevm) ({} : RevmState)).account a =
      ((s.evmAccountSnapshot[a]?).getD {}).toRevm := by
    rw [RevmState.account, accounts_foldl_rows]
    cases s.evmAccountSnapshot[a]? <;> rfl
  rw [hrows] at h
  refine Eq.trans h ?_
  cases hnative : s.accountSnapshot[a]? with
  | none => rfl
  | some row =>
    rw [hnative] at hrow
    obtain rfl := (hrow : row = _)
    simp only [Option.elim_some, EvmAccountSnapshot.toRevm, hbal, hnonce]

/-- **Decoding gives back the view of the database.** -/
theorem view_revmStateFromSled : (revmStateFromSled s).view a = s.view a := by
  obtain ⟨hbal, hnonce, hcodes, -⟩ := EvmAccountSnapshot.mk.inj (evmAccountSnapshot_columns s a)
  unfold RevmState.view
  rw [account_revmStateFromSled]
  refine AccountView.ext ?_ hnonce hcodes ?_
  · exact congrArg (BitVec.setWidth 256) hbal
  · funext key
    exact congrArg (fun found => found.getD 0) (evmAccountSnapshot_slot s a key)

end Decode

/-! ## Writing accounts -/

section Write

variable (s : SledStorage) (a b : Address) (balance : Bix) (nonce : U64)

theorem view_putAccount :
    (s.putAccount a balance nonce).view b =
      if a = b then { s.view b with balance := balance.setWidth 256, nonce := nonce }
      else s.view b := by
  simp only [SledStorage.view, SledStorage.putAccount, SledStorage.balance, SledStorage.nonce,
    Map.getElem?_insert_eq]
  split <;> rfl

theorem getElem?_writeSlots (storage : Map Hash256 Hash256) (slots : Map StorageKey Hash256)
    (key : Hash256) :
    (storage.foldl (fun slots slot v => if v = 0 then slots.erase (storageKey a slot)
      else slots.insert (storageKey a slot) v) slots)[storageKey b key]? =
      if a = b then (storage[key]?).elim slots[storageKey b key]? fun v => if v = 0 then none else some v
      else slots[storageKey b key]? := by
  have hwrite : ∀ (m : Map StorageKey Hash256) slot (v k : Hash256),
      (if v = 0 then m.erase (storageKey a slot) else m.insert (storageKey a slot) v)[storageKey b k]? =
        if a = b ∧ slot = k then if v = 0 then none else some v else m[storageKey b k]? := by
    intro m slot v k
    split
    · simp only [Map.getElem?_erase_eq, storageKey_eq_iff]
    · simp only [Map.getElem?_insert_eq, storageKey_eq_iff]
  by_cases hab : a = b
  · rw [if_pos hab]
    refine Map.observe_foldl (fun (m : Map StorageKey Hash256) k => m[storageKey b k]?) _
      (fun v _ => if v = 0 then none else some v) key (fun m k v => ?_) storage slots
    rw [hwrite]
    simp only [hab, true_and]
  · rw [if_neg hab]
    refine Map.observe_foldl_of_forall (fun (m : Map StorageKey Hash256) => m[storageKey b key]?) _
      (fun m k v => ?_) storage slots
    rw [hwrite, if_neg fun h => hab h.1]

theorem getElem?_slots_putEvmAccount_of_ne (hab : a ≠ b) (code : Bytes) (storage : Map Hash256 Hash256)
    (key : Hash256) : (s.putEvmAccount a balance nonce code storage).slots[storageKey b key]? =
      s.slots[storageKey b key]? := by
  refine (getElem?_writeSlots a b storage _ key).trans ?_
  have hne : (b == a) = false := beq_false_of_ne (Ne.symm hab)
  rw [if_neg hab, Std.ExtTreeMap.getElem?_filter', addressFromStorageKey_storageKey]
  simp only [hne, Bool.false_and, Bool.not_false]
  show Option.filter (fun _ => true) s.slots[storageKey b key]? = _
  cases s.slots[storageKey b key]? <;> rfl

/-- The slots of an account after it is written, at its own address and elsewhere: the old
slots that are not in the new storage are gone. -/
theorem slots_putEvmAccount (code : Bytes) (storage : Map Hash256 Hash256) (key : Hash256) :
    ((s.putEvmAccount a balance nonce code storage).slots[storageKey b key]?).getD 0 =
      if a = b then (storage[key]?).getD 0 else (s.slots[storageKey b key]?).getD 0 := by
  by_cases hab : a = b
  · refine (congrArg (·.getD 0) (getElem?_writeSlots a b storage _ key)).trans ?_
    rw [Std.ExtTreeMap.getElem?_filter', addressFromStorageKey_storageKey]
    have hcontains := Std.ExtTreeMap.contains_eq_isSome_getElem? (t := storage) (a := key)
    rw [if_pos hab, if_pos hab, hab]
    cases hkey : storage[key]? with
    | none =>
      rw [hkey, Option.isSome_none] at hcontains
      simp only [Option.elim_none, hcontains, beq_self_eq_true, Bool.not_false, Bool.and_self,
        Bool.not_true]
      cases (s.putAccount b balance nonce).slots[storageKey b key]? <;> rfl
    | some v =>
      dsimp only [Option.elim_some]
      split
      · next hv => rw [hv]; rfl
      · rfl
  · rw [if_neg hab, getElem?_slots_putEvmAccount_of_ne s a b balance nonce hab]

/-- **An account written to the database** is what is read at its address; every other
address keeps its account. -/
theorem view_putEvmAccount (code : Bytes) (storage : Map Hash256 Hash256) :
    (s.putEvmAccount a balance nonce code storage).view b =
      if a = b then ⟨balance.setWidth 256, nonce, code, fun key => (storage[key]?).getD 0⟩
      else s.view b := by
  have hnative := view_putAccount s a b balance nonce
  have hcode : ((s.putEvmAccount a balance nonce code storage).codes[b]?).getD [] =
      if a = b then code else (s.codes[b]?).getD [] := by
    unfold SledStorage.putEvmAccount
    by_cases hempty : code.isEmpty
    · rw [List.isEmpty_iff] at hempty
      subst hempty
      simp only [List.isEmpty_nil, if_true, Map.getElem?_erase_eq, SledStorage.putAccount]
      split <;> rfl
    · simp only [hempty, Bool.false_eq_true, if_false, Map.getElem?_insert_eq,
        SledStorage.putAccount]
      split <;> rfl
  have hslot := slots_putEvmAccount s a b balance nonce code storage
  have hbal := congrArg AccountView.balance hnative
  have hnonce := congrArg AccountView.nonce hnative
  by_cases hab : a = b
  · simp only [if_pos hab] at hbal hnonce hcode hslot ⊢
    exact AccountView.ext hbal hnonce hcode (funext hslot)
  · simp only [if_neg hab] at hbal hnonce hcode hslot ⊢
    exact AccountView.ext hbal hnonce hcode (funext hslot)

end Write

/-! ## The accounts of a state -/

/-- **The accounts of a state in the range of the database**: one entry for each account, if every
balance fits. The state's rows and its native accounts are both collected like this. -/
theorem foldlM_inRange_eq_ok {V : Type} (row : RevmAccount → Bix → V) (e : NodeError)
    {entries : Map Address V} :
    (S.accounts.toList.foldlM (fun (entries : Map Address V) (p : Address × RevmAccount) =>
      match balanceToBix p.2.balance with
      | some balance => pure (entries.insert p.1 (row p.2 balance))
      | none => throw e) ∅ : Except NodeError (Map Address V)) = .ok entries ↔
      (∀ p ∈ S.accounts.toList, p.2.balance.toNat < 2 ^ 128) ∧
        entries = S.accounts.map fun _ account => row account (account.balance.setWidth 128) := by
  have hloop : ∀ (l : List (Address × RevmAccount)) (first entries : Map Address V),
      l.foldlM (fun (entries : Map Address V) (p : Address × RevmAccount) =>
        match balanceToBix p.2.balance with
        | some balance => pure (entries.insert p.1 (row p.2 balance))
        | none => throw e) first = Except.ok (ε := NodeError) entries ↔
      (∀ p ∈ l, p.2.balance.toNat < 2 ^ 128) ∧
        entries = l.foldl (fun entries p =>
          entries.insert p.1 (row p.2 (p.2.balance.setWidth 128))) first := by
    intro l
    induction l with
    | nil =>
      intro first entries
      exact ⟨fun h => ⟨by simp, (pure_eq_ok.mp h).symm⟩, fun h => h.2 ▸ rfl⟩
    | cons p l ih =>
      intro first entries
      rw [List.foldlM_cons, bind_eq_ok, List.forall_mem_cons, List.foldl_cons]
      by_cases hrange : p.2.balance.toNat < 2 ^ 128
      · have hfits : balanceToBix p.2.balance = some (p.2.balance.setWidth 128) := if_pos hrange
        simp only [hfits, pure_eq_ok, exists_eq_left', ih, hrange, true_and]
      · have hlarge : balanceToBix p.2.balance = none := if_neg hrange
        simp only [hlarge, throw_ne_ok, false_and, exists_false, hrange]
  have hfold : S.accounts.toList.foldl
      (fun entries p => entries.insert p.1 (row p.2 (p.2.balance.setWidth 128))) ∅ =
      S.accounts.map fun _ account => row account (account.balance.setWidth 128) := by
    refine Std.ExtTreeMap.ext_getElem? fun a => ?_
    have hobserve := Map.observe_foldl (fun (entries : Map Address V) (a : Address) => entries[a]?)
      (fun entries address (account : RevmAccount) =>
        entries.insert address (row account (account.balance.setWidth 128)))
      (fun account _ => some (row account (account.balance.setWidth 128))) a
      (fun entries k account => Map.getElem?_insert_eq ..) S.accounts ∅
    rw [Std.ExtTreeMap.foldl_eq_foldl_toList] at hobserve
    rw [Std.ExtTreeMap.getElem?_map]
    refine hobserve.trans ?_
    cases S.accounts[a]? <;> simp
  rw [hloop, hfold]

/-! ## Inserting a block -/

theorem view_setWidth {account : RevmAccount} (h : account.balance.toNat < 2 ^ 128) :
    (⟨(account.balance.setWidth 128).setWidth 256, account.nonce, account.code,
      fun key => (account.storage[key]?).getD 0⟩ : AccountView) = account.view := by
  refine AccountView.ext (BitVec.eq_of_toNat_eq ?_) rfl rfl rfl
  rw [BitVec.toNat_setWidth_of_le (by norm_num), BitVec.toNat_setWidth, Nat.mod_eq_of_lt h]
  rfl

theorem persistRevmState_ok (h : (persistRevmState S).run s = .ok ⟨⟩ s') :
    (∀ p ∈ S.accounts.toList, p.2.balance.toNat < 2 ^ 128) ∧
      s' = S.accounts.foldl (fun s address account => s.putEvmAccount address
        (account.balance.setWidth 128) account.nonce account.code account.storage) s := by
  obtain ⟨hbound, hfold⟩ := run_forM_eq_ok
    (p := fun q : Address × RevmAccount => q.2.balance.toNat < 2 ^ 128)
    (g := fun q s => s.putEvmAccount q.1 (q.2.balance.setWidth 128) q.2.nonce q.2.code q.2.storage)
    (fun q s s' hq => by
      unfold balanceToBix at hq
      by_cases hb : q.2.balance.toNat < 2 ^ 128
      · simp only [if_pos hb] at hq
        exact ⟨hb, run_modify_eq_ok.mp hq⟩
      · simp only [if_neg hb] at hq
        exact absurd hq run_throw_ne_ok) h
  rw [Std.ExtTreeMap.foldl_eq_foldl_toList]
  exact ⟨hbound, hfold.symm⟩

/-- **A state written to the database**: its accounts are read back, and at every other
address the database keeps what it had. -/
theorem view_persistRevmState (h : (persistRevmState S).run s = .ok ⟨⟩ s') (a : Address) :
    s'.view a = (S.accounts[a]?).elim (s.view a) RevmAccount.view := by
  obtain ⟨hbound, hfold⟩ := persistRevmState_ok h
  have hview := Map.observe_foldl SledStorage.view
    (fun s address (account : RevmAccount) => s.putEvmAccount address
      (account.balance.setWidth 128) account.nonce account.code account.storage)
    (fun account _ => ⟨(account.balance.setWidth 128).setWidth 256, account.nonce, account.code,
      fun key => (account.storage[key]?).getD 0⟩) a
    (fun s k account => view_putEvmAccount ..) S.accounts s
  rw [hfold, hview]
  cases hacc : S.accounts[a]? with
  | none => rfl
  | some account => exact view_setWidth (hbound _ ((Map.mem_toList_iff _ _ _).mpr hacc))

theorem view_putAccounts (accounts : NativeAccounts) (s : SledStorage) (a : Address) :
    (accounts.foldl (fun s address (row : Bix × U64) => s.putAccount address row.1 row.2) s).view a =
      (accounts[a]?).elim (s.view a) fun row =>
        { s.view a with balance := row.1.setWidth 256, nonce := row.2 } :=
  Map.observe_foldl SledStorage.view
    (fun s address (row : Bix × U64) => s.putAccount address row.1 row.2)
    (fun row view => { view with balance := row.1.setWidth 256, nonce := row.2 }) a
    (fun _ _ _ => view_putAccount ..) accounts s

theorem view_persistHistoricalEvmSnapshot {number : U64}
    (h : (persistHistoricalEvmSnapshot number).run s = .ok ⟨⟩ s') : s'.view = s.view := by
  unfold persistHistoricalEvmSnapshot at h
  split at h
  · obtain ⟨-, rfl⟩ := run_pure_eq_ok.mp h
    rfl
  · obtain rfl := run_modify_eq_ok.mp h
    rfl

variable (O : Oracle) (R : Revm)

/-- **The state a block leads to**, from the state the database decodes to: the executor's
result, or for a plain block the old accounts with the new balances and nonces. -/
def executedState (s : SledStorage) (block : Block) : Except NodeError RevmState := do
  let timestamp ← liftStorage (parentTimestamp s block.header)
  if block.transactions.any isEvmTransaction then
    let simulation ← simulateEvmStateTransitionFromState O R (revmStateFromSled s) block timestamp
    pure simulation.state
  else
    let (accounts, _, _) ← simulateStateTransitionFromAccounts O s.accountSnapshot block timestamp
    pure (mergeNativeAccountsIntoRevmState (revmStateFromSled s) accounts)

variable {O R}

theorem nodeInsertBlock_evm (hevm : block.transactions.any isEvmTransaction = true)
    (h : (nodeInsertBlock O R block).run s = .ok ⟨⟩ s') :
    ∃ timestamp simulation s₁, parentTimestamp s block.header = .ok timestamp ∧
      simulateEvmStateTransitionFromState O R (revmStateFromSled s) block timestamp =
        .ok simulation ∧ (persistRevmState simulation.state).run (s.insertBlock block) = .ok ⟨⟩ s₁ ∧
      (persistHistoricalEvmSnapshot block.header.number).run
        (s₁.setRewardIndexedTo block.header.number) = .ok ⟨⟩ s' := by
  simp only [nodeInsertBlock, hevm, if_true, run_bind_eq_ok, run_get_eq_ok, run_modify_eq_ok,
    run_runExcept_eq_ok, asSerialization, mapError_eq_ok] at h
  obtain ⟨_, _, ⟨rfl, rfl⟩, timestamp, _, ⟨htime, rfl⟩, simulation, _, ⟨hsim, rfl⟩, _, _, rfl, ⟨⟩,
    s₁, hpersist, _, _, rfl, hlast⟩ := h
  exact ⟨timestamp, simulation, s₁, htime, hsim, hpersist, hlast⟩

theorem nodeInsertBlock_plain (hevm : ¬block.transactions.any isEvmTransaction = true)
    (h : (nodeInsertBlock O R block).run s = .ok ⟨⟩ s') :
    ∃ timestamp accounts receipts gasUsed, parentTimestamp s block.header = .ok timestamp ∧
      simulateStateTransitionFromAccounts O s.accountSnapshot block timestamp =
        .ok (accounts, receipts, gasUsed) ∧ (persistHistoricalEvmSnapshot block.header.number).run
        ((accounts.foldl (fun s address (row : Bix × U64) => s.putAccount address row.1 row.2)
          (s.insertBlock block)).setRewardIndexedTo block.header.number) = .ok ⟨⟩ s' := by
  simp only [nodeInsertBlock, if_neg hevm, run_bind_eq_ok, run_get_eq_ok, run_modify_eq_ok,
    run_runExcept_eq_ok, asSerialization, mapError_eq_ok] at h
  obtain ⟨_, _, ⟨rfl, rfl⟩, timestamp, _, ⟨htime, rfl⟩, ⟨accounts, receipts, gasUsed⟩, _,
    ⟨hsim, rfl⟩, _, _, rfl, ⟨⟩, s₁, hput, _, _, rfl, hlast⟩ := h
  obtain ⟨-, rfl⟩ := run_forM_eq_ok (p := fun _ : Address × Bix × U64 => True)
    (g := fun q (s : SledStorage) => s.putAccount q.1 q.2.1 q.2.2)
    (fun q s s' hq => ⟨trivial, run_modify_eq_ok.mp hq⟩) hput
  refine ⟨timestamp, accounts, receipts, gasUsed, htime, hsim, ?_⟩
  rw [Std.ExtTreeMap.foldl_eq_foldl_toList]
  exact hlast

/-- What an insertion leaves at each address: after a plain block the state the block leads
to, after a contract block that state wherever it has an account. -/
theorem view_nodeInsertBlock (h : (nodeInsertBlock O R block).run s = .ok ⟨⟩ s') :
    ∃ S', executedState O R s block = .ok S' ∧
      ((∃ accounts, S' = mergeNativeAccountsIntoRevmState (revmStateFromSled s) accounts ∧
          ∀ a, s'.view a = S'.view a) ∨
        ∀ a, s'.view a = (S'.accounts[a]?).elim (s.view a) RevmAccount.view) := by
  by_cases hevm : block.transactions.any isEvmTransaction = true
  · obtain ⟨timestamp, simulation, s₁, htime, hsim, hpersist, hlast⟩ := nodeInsertBlock_evm hevm h
    refine ⟨simulation.state, ?_, .inr fun a => ?_⟩
    · simp [executedState, liftStorage, hevm, htime, hsim]
    · rw [view_persistHistoricalEvmSnapshot hlast]
      exact view_persistRevmState hpersist a
  · obtain ⟨timestamp, accounts, receipts, gasUsed, htime, hsim, hlast⟩ :=
      nodeInsertBlock_plain hevm h
    refine ⟨mergeNativeAccountsIntoRevmState (revmStateFromSled s) accounts, ?_,
      .inl ⟨accounts, rfl, fun a => ?_⟩⟩
    · simp [executedState, liftStorage, hevm, htime, hsim]
    · have hold := view_revmStateFromSled s a
      rw [view_persistHistoricalEvmSnapshot hlast]
      refine Eq.trans (view_putAccounts accounts (s.insertBlock block) a) ?_
      unfold RevmState.view at hold ⊢
      rw [account_mergeNativeAccounts]
      cases accounts[a]? with
      | none => exact hold.symm
      | some row =>
        rw [Option.elim_some, Option.elim_some]
        refine AccountView.ext rfl rfl ?_ ?_
        · exact (congrArg AccountView.code hold).symm
        · exact (congrArg AccountView.slot hold).symm

theorem isSome_mergeNativeAccounts {accounts : NativeAccounts} {a : Address}
    (h : (S.accounts[a]?).isSome) :
    ((mergeNativeAccountsIntoRevmState S accounts).accounts[a]?).isSome := by
  rw [accounts_merge]
  cases accounts[a]? with
  | none => exact h
  | some row => rfl

/-- **What the database decodes to after a block**: at every address the balance, nonce, code and
storage slots of the state its execution led to, exactly when every account that had any content
before is still an account of that state. An account the executor has removed keeps its old rows. -/
theorem insertBlock_persists_iff {s s' : SledStorage}
    (h : (nodeInsertBlock O R block).run s = .ok ⟨⟩ s') :
    ∃ S', executedState O R s block = .ok S' ∧ ((∀ a, (revmStateFromSled s').view a = S'.view a) ↔
        ∀ a, (revmStateFromSled s).view a ≠ AccountView.empty → (S'.accounts[a]?).isSome) := by
  obtain ⟨S', hexec, hview⟩ := view_nodeInsertBlock h
  refine ⟨S', hexec, ?_⟩
  simp only [view_revmStateFromSled s']
  rcases hview with ⟨accounts, rfl, hview⟩ | hview
  · -- a plain block
    refine ⟨fun _ a ha => ?_, fun _ => hview⟩
    refine isSome_mergeNativeAccounts (Option.isSome_iff_ne_none.mpr fun hnone => ?_)
    exact ha (RevmState.view_of_none hnone)
  · constructor
    · intro hsame a ha
      refine Option.isSome_iff_ne_none.mpr fun hnone => ha ?_
      have h' := hview a
      rw [hsame a, hnone, RevmState.view_of_none hnone] at h'
      rw [view_revmStateFromSled]
      exact h'.symm
    · intro hkept a
      rw [hview a]
      cases hacc : S'.accounts[a]? with
      | none =>
        rw [RevmState.view_of_none hacc, Option.elim_none, ← view_revmStateFromSled]
        by_contra hne
        have := hkept a hne
        rw [hacc] at this
        cases this
      | some account =>
        unfold RevmState.view RevmState.account
        rw [hacc]
        rfl

/-! ## A removed account

Carol's address holds a balance and no code. A contract is created there and destroyed in
one transaction, its balance going to Alice. -/

def destroyRevm : Revm where
  transact _ S _ _ :=
    .ok ({ success := true, gasUsed := 53000, output := [], logs := [] },
      ((∅ : Changes).insert carol
        { selfdestructed := true, nonce := 0, balance := 0, code := none, storage := ∅ }).insert alice
        { selfdestructed := false
          nonce := (S.account alice).nonce + 1
          balance := (S.account alice).balance + (S.account carol).balance
          code := none
          storage := ∅ })

def fundedStore : SledStorage :=
  ((({} : SledStorage).putHeader (genesisHeader zeroOracle)).putAccount alice 1000000000000000000
    0).putAccount carol 5 0

/-- After the block the state has no account for Carol, the database still has five units. -/
def removedAccount : Option (Bool × U256 × U256) :=
  match (nodeInsertBlock zeroOracle destroyRevm keptTipsBlock).run fundedStore,
    executedState zeroOracle destroyRevm fundedStore keptTipsBlock with
  | .ok _ s', .ok S' =>
    some ((S'.accounts[carol]?).isSome, ((revmStateFromSled s').account carol).balance,
      (S'.account carol).balance)
  | _, _ => none

/-- The removed account's balance is read back after the block. -/
theorem removed_account_is_resurrected :
    ∃ s' S', (nodeInsertBlock zeroOracle destroyRevm keptTipsBlock).run fundedStore = .ok ⟨⟩ s' ∧
      executedState zeroOracle destroyRevm fundedStore keptTipsBlock = .ok S' ∧
      (revmStateFromSled s').view carol ≠ S'.view carol := by
  have hrun : removedAccount = some (false, 5, 0) := by decide +kernel
  unfold removedAccount at hrun
  split at hrun
  · next s' S' hinsert hexec =>
    refine ⟨s', S', hinsert, hexec, fun hview => ?_⟩
    have hbal : ((revmStateFromSled s').account carol).balance = (S'.account carol).balance :=
      congrArg AccountView.balance hview
    simp only [Option.some_inj, Prod.mk.injEq] at hrun
    rw [hrun.2.1, hrun.2.2] at hbal
    exact absurd hbal (by decide)
  · cases hrun

theorem insertBlock_persists_keptTips :
    ∃ s', (nodeInsertBlock zeroOracle callRevm keptTipsBlock).run fundedStore = .ok ⟨⟩ s' ∧
      ∃ S', executedState zeroOracle callRevm fundedStore keptTipsBlock = .ok S' ∧
        ((∀ a, (revmStateFromSled s').view a = S'.view a) ↔
          ∀ a, (revmStateFromSled fundedStore).view a ≠ AccountView.empty →
            (S'.accounts[a]?).isSome) := by
  have hinsert := eq_ok_finalState (x := nodeInsertBlock zeroOracle callRevm keptTipsBlock)
    (s := fundedStore) (by decide +kernel)
  exact ⟨_, hinsert, insertBlock_persists_iff hinsert⟩

end Blq
