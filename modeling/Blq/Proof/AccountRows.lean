import Blq.Proof.Locator
import Blq.Proof.Rows
import Blq.Spec.AccountRows

/-!
# The accounts a database holds

Four families of rows hold the accounts, one row for each balance, nonce, code and storage slot. The
keys are texts, so what a scan reads is what was written only because a key stands for one row and no
family's tag begins a key of another.

* `AccountItem.key_injective`: a key stands for one row of one account.
* `Represents`: the rows are exactly those of some accounts. `Represents.putAccount` and
  `Represents.putEvmAccount` say which accounts these are after a write.
* `Represents.evmAccountSnapshot`: the scans collect the accounts again.
* `snapshot_of_writes`: **a snapshot shows for every address what was last written there.**
-/

namespace Blq

open Word Result

namespace Rows

/-! ## The rows of an account -/

inductive AccountFamily
  | balance
  | nonce
  | code
  | storage
deriving DecidableEq

def AccountFamily.tag : AccountFamily → RowKey
  | balance => "account:balance:".toList
  | nonce => "account:nonce:".toList
  | code => "account:code:".toList
  | storage => "account:storage:".toList

inductive AccountItem
  | balance (address : Address)
  | nonce (address : Address)
  | code (address : Address)
  | slot (address : Address) (index : Hash256)
deriving DecidableEq

namespace AccountItem

@[simp]
def address : AccountItem → Address
  | balance address | nonce address | code address | slot address _ => address

def family : AccountItem → AccountFamily
  | balance _ => .balance
  | nonce _ => .nonce
  | code _ => .code
  | slot _ _ => .storage

def key : AccountItem → RowKey
  | balance address => balanceKey address
  | nonce address => nonceKey address
  | code address => codeKey address
  | slot address index => storageKey address index

/-- What the row holds for an account; no code and an absent slot have no row. -/
@[simp]
def value (account : EvmAccountSnapshot) : AccountItem → Option RowValue
  | balance _ => some (.bytes (beBytes account.balance))
  | nonce _ => some (.bytes (beBytes account.nonce))
  | code _ => if account.code.isEmpty then none else some (.bytes account.code)
  | slot _ index => (account.storage[index]?).map fun value => .bytes (beBytes value)

variable (item : AccountItem) {item' : AccountItem} {family : AccountFamily} {value : RowValue}

theorem tag_isPrefix : item.family.tag <+: item.key := by
  cases item with
  | slot address index => exact (List.prefix_append _ _).trans (List.prefix_append _ _)
  | _ => exact List.prefix_append _ _

theorem accountKey_of_tag {key : RowKey} (h : family.tag <+: key) :
    AccountKey key := by
  refine List.IsPrefix.trans ?_ h
  cases family <;> decide

variable {item}

theorem family_eq_of_isPrefix (h : family.tag <+: item.key) :
    item.family = family := by
  have hapart : item.family = family ∨ Apart item.family.tag family.tag := by
    generalize item.family = family'
    cases family <;> cases family' <;> decide
  exact hapart.resolve_right fun hapart => hapart.not_both item.tag_isPrefix h

end AccountItem

/-! ## Names in keys -/

theorem suffixOf_append (tag : RowKey) (refusal : String) (name : RowKey) :
    suffixOf tag refusal (tag ++ name) = .ok name := by
  unfold suffixOf
  rw [if_pos (List.isPrefixOf_iff_prefix.mpr (List.prefix_append tag name)), List.drop_left]
  rfl

theorem readName_address (address : Address) :
    readName Address.fromHex (hexEncode (beBytes address)).toList = .ok address := by
  have hlength : (beBytes address).length = 20 := by simp [beBytes]
  have hread : Address.fromHex (hexEncode (beBytes address)) = some address := by
    unfold Address.fromHex
    rw [decodeHex_plain]
    dsimp only
    rw [if_neg (not_not.mpr hlength), ofNat_ofBeBytes_beBytes rfl]
  unfold readName
  rw [String.ofList_toList, hread]
  rfl

theorem readName_hash (hash : Hash256) : readName Hash256.fromHex hash.toHex.toList = .ok hash := by
  unfold readName
  rw [String.ofList_toList, fromHex_toHex]
  rfl

theorem colon_not_mem_hexEncode (bytes : Bytes) : ∀ c ∈ (hexEncode bytes).toList, c ≠ ':' := by
  have hdigit : ∀ digit : Fin 16, Nat.digitChar digit ≠ ':' := by decide
  induction bytes with
  | nil => simp [hexEncode]
  | cons byte bytes ih =>
    rw [toList_hexEncode_cons, List.forall_mem_cons, List.forall_mem_cons]
    have hbyte := byte.toNat_lt
    exact ⟨hdigit ⟨_, by omega⟩, hdigit ⟨_, by omega⟩, ih⟩

theorem addressFromStorageKey_storageKey (address : Address) (slot : Hash256) :
    addressFromStorageKey (storageKey address slot) = .ok (address, slot) := by
  have hname : ∀ c ∈ (hexEncode (beBytes address)).toList, decide (c ≠ ':') = true :=
    fun c hc => decide_eq_true (colon_not_mem_hexEncode _ c hc)
  unfold addressFromStorageKey storageKey
  rw [List.append_assoc, suffixOf_append, ok_bind, if_neg (by simp),
    List.takeWhile_append_of_pos hname, List.dropWhile_append_of_pos hname]
  simp [readName_address, readName_hash]

theorem wordFromSlice_beBytes {width : ℕ} (hwidth : width = 8 * (width / 8)) (refusal : String)
    (word : BitVec width) : wordFromSlice width refusal (.bytes (beBytes word)) = .ok word := by
  have hlength : (beBytes word).length = width / 8 := by simp [beBytes]
  unfold wordFromSlice
  dsimp only
  rw [if_pos hlength, ofNat_ofBeBytes_beBytes hwidth]
  rfl

/-- **A key stands for one row.** -/
theorem AccountItem.key_injective : Function.Injective AccountItem.key := by
  intro item item' h
  have hfamily : item'.family = item.family := family_eq_of_isPrefix (h ▸ item.tag_isPrefix)
  have haddress : ∀ {tag : RowKey} {a b : Address}, tag ++ (hexEncode (beBytes a)).toList =
      tag ++ (hexEncode (beBytes b)).toList → a = b :=
    fun h => beBytes_inj rfl (hexEncode_inj (List.append_cancel_left h))
  cases item with
  | balance => cases item' with
    | balance => rw [haddress h]
    | _ => cases hfamily
  | nonce => cases item' with
    | nonce => rw [haddress h]
    | _ => cases hfamily
  | code => cases item' with
    | code => rw [haddress h]
    | _ => cases hfamily
  | slot a index => cases item' with
    | slot a' index' =>
      have hread := congrArg addressFromStorageKey (show storageKey a index = storageKey a' index' from h)
      rw [addressFromStorageKey_storageKey, addressFromStorageKey_storageKey] at hread
      obtain ⟨rfl, rfl⟩ := Prod.mk.inj (Except.ok.inj hread)
      rfl
    | _ => cases hfamily

/-! ## The accounts of a database -/

/-- No other row is in the families of the accounts. -/
def OnlyItems (rows : Rows) : Prop :=
  ∀ key, AccountKey key → (∀ item : AccountItem, item.key ≠ key) → rows[key]? = none

/-- **The rows of the accounts are exactly those of these accounts.** -/
structure Represents (rows : Rows) (accounts : Address → Option EvmAccountSnapshot) : Prop where
  row : ∀ item : AccountItem, rows[item.key]? = (accounts item.address).bind item.value
  only : OnlyItems rows

variable {rows rows' : Rows} {accounts : Address → Option EvmAccountSnapshot}
  {account : EvmAccountSnapshot} {a : Address}

theorem Represents.write (h : Represents rows accounts)
    (hown : ∀ item : AccountItem, item.address = a → rows'[item.key]? = item.value account)
    (hother : ∀ key, (∀ item : AccountItem, item.address = a → item.key ≠ key) →
      rows'[key]? = rows[key]?) : Represents rows' (Function.update accounts a (some account)) := by
  refine ⟨fun item => ?_, fun key hkey hitem => ?_⟩
  · by_cases ha : item.address = a
    · rw [hown item ha, ha, Function.update_self]
      rfl
    · rw [hother, h.row, Function.update_of_ne ha]
      rintro item' ha' hkey
      exact ha (AccountItem.key_injective hkey ▸ ha')
  · rw [hother key fun item _ => hitem item, h.only key hkey hitem]

/-! ## Scans -/

theorem OnlyItems.item_of_scan (h : OnlyItems rows) (family : AccountFamily) {entry : RowKey × RowValue}
    (hentry : entry ∈ scanPrefix rows family.tag) :
    ∃ item : AccountItem, item.family = family ∧ item.key = entry.1 := by
  obtain ⟨htag, hrow⟩ := mem_scanPrefix.mp hentry
  by_contra hnone
  have hkey : ∀ item : AccountItem, item.key ≠ entry.1 := fun item hkey =>
    hnone ⟨item, AccountItem.family_eq_of_isPrefix (hkey ▸ htag), hkey⟩
  rw [h _ (AccountItem.accountKey_of_tag htag) hkey] at hrow
  cases hrow

theorem Represents.mem_scan (h : Represents rows accounts) (family : AccountFamily)
    {entry : RowKey × RowValue} (hentry : entry ∈ scanPrefix rows family.tag) :
    ∃ item : AccountItem, ∃ account, item.family = family ∧ item.key = entry.1 ∧
      accounts item.address = some account ∧ item.value account = some entry.2 := by
  obtain ⟨item, hfamily, hkey⟩ := h.only.item_of_scan family hentry
  have hrow := (mem_scanPrefix.mp hentry).2
  rw [← hkey, h.row] at hrow
  obtain ⟨account, haccount, hvalue⟩ := Option.bind_eq_some_iff.mp hrow
  exact ⟨item, account, hfamily, hkey, haccount, hvalue⟩

/-! ## Writing -/

theorem getElem?_putSlot (slot value : Hash256) (key : RowKey) :
    (putSlot a rows slot value)[key]? = if storageKey a slot = key then
      if value = 0 then none else some (.bytes (beBytes value)) else rows[key]? := by
  unfold putSlot
  split
  · exact Map.getElem?_erase_eq _ _ _
  · exact Map.getElem?_insert_eq _ _ _ _

theorem getElem?_putCode (code : Bytes) (key : RowKey) :
    (putCode a code rows)[key]? = if (AccountItem.code a).key = key then
      if code.isEmpty then none else some (.bytes code) else rows[key]? := by
  unfold putCode
  split
  · exact Map.getElem?_erase_eq _ _ _
  · exact Map.getElem?_insert_eq _ _ _ _

theorem storageKey_inj {b : Address} {slot slot' : Hash256} :
    storageKey a slot = storageKey b slot' ↔ a = b ∧ slot = slot' := by
  refine (AccountItem.key_injective.eq_iff (a := .slot a slot) (b := .slot b slot')).trans ?_
  rw [AccountItem.slot.injEq]

theorem OnlyItems.eraseSlots (h : OnlyItems rows) (a : Address) (storage : Map Hash256 Hash256) :
    ∃ stored rows', (scanPrefix rows "account:storage:".toList).mapM (fun (key, _) => do
        pure (key, ← addressFromStorageKey key)) = .ok stored ∧
      (stored.filter fun (_, storedAddress, _) => storedAddress == a).foldl
        (fun rows (key, _, slot) => if storage.contains slot then rows else rows.erase key) rows =
          rows' ∧
      (∀ slot, storage.contains slot = false → rows'[storageKey a slot]? = none) ∧
      ∀ key, (∀ slot, storageKey a slot ≠ key) → rows'[key]? = rows[key]? := by
  have hread : ∀ entry ∈ scanPrefix rows "account:storage:".toList, ∃ b slot,
      entry.1 = storageKey b slot ∧ addressFromStorageKey entry.1 = .ok (b, slot) := by
    intro entry hentry
    obtain ⟨item, hfamily, hkey⟩ := h.item_of_scan .storage hentry
    cases item with
    | slot b slot => exact ⟨b, slot, hkey.symm, hkey ▸ addressFromStorageKey_storageKey b slot⟩
    | _ => cases hfamily
  obtain ⟨stored, hstored⟩ := exists_mapM_eq_ok (f := fun (entry : RowKey × RowValue) => do
    pure (entry.1, ← addressFromStorageKey entry.1)) fun entry hentry => by
      obtain ⟨b, slot, -, hok⟩ := hread entry hentry
      exact ⟨_, by rw [hok]; rfl⟩
  have hget := Map.getElem?_foldl_erase_unless (V := RowValue) Prod.fst
    (fun e : RowKey × Address × Hash256 => storage.contains e.2.2) (stored.filter fun e => e.2.1 == a)
    rows
  refine ⟨stored, _, hstored, rfl, fun slot hslot => (hget _).trans ?_,
    fun key hkey => (hget key).trans (if_neg fun hmem => ?_)⟩
  · split_ifs with hmem
    · rfl
    refine Option.eq_none_iff_forall_ne_some.mpr fun value hrow => hmem ?_
    obtain ⟨e, he, hok⟩ := forall_of_mapM_eq_ok hstored (storageKey a slot, value)
      (mem_scanPrefix.mpr ⟨(AccountItem.slot a slot).tag_isPrefix, hrow⟩)
    rw [addressFromStorageKey_storageKey] at hok
    obtain rfl := Except.ok.inj hok
    simp only [List.filter_filter, List.mem_map, List.mem_filter]
    exact ⟨_, ⟨he, by simp [hslot]⟩, rfl⟩
  · obtain ⟨e, he, rfl⟩ := List.mem_map.mp hmem
    obtain ⟨he, haddress⟩ := List.mem_filter.mp (List.mem_filter.mp he).1
    obtain ⟨entry, hentry, hok⟩ := mem_of_mapM_eq_ok hstored e he
    obtain ⟨b, slot, hkey', hok'⟩ := hread entry hentry
    rw [hok'] at hok
    obtain rfl := Except.ok.inj hok
    obtain rfl : b = a := by simpa using haddress
    exact hkey slot hkey'.symm

theorem getElem?_putSlots (storage : Map Hash256 Hash256)
    (hgone : ∀ slot, storage.contains slot = false → rows[storageKey a slot]? = none) (slot : Hash256) :
    (storage.foldl (putSlot a) rows)[storageKey a slot]? =
      ((storage.filter fun _ value => value ≠ 0)[slot]?).map fun value => .bytes (beBytes value) := by
  refine (Map.observe_foldl (fun (rows : Rows) slot => rows[storageKey a slot]?) (putSlot a)
    (fun value _ => if value = 0 then none else some (.bytes (beBytes value))) slot
    (fun t slot' value => ?_) storage rows).trans ?_
  · simp only [getElem?_putSlot, storageKey_inj, true_and]
  · have hcontains := Std.ExtTreeMap.contains_eq_isSome_getElem? (t := storage) (a := slot)
    rw [Std.ExtTreeMap.getElem?_filter']
    cases hvalue : storage[slot]? with
    | none => exact hgone slot (by rw [hcontains, hvalue]; rfl)
    | some value =>
      by_cases hzero : value = 0
      · simp [hzero, Option.filter]
      · simp only [Option.elim_some, Option.filter, ne_eq, hzero, not_false_eq_true, decide_true,
          if_true, if_false, Option.map_some]

def putNative (rows : Rows) (a : Address) (balance : Bix) (nonce : U64) : Rows :=
  (rows.insert (AccountItem.balance a).key (.bytes (beBytes balance))).insert (AccountItem.nonce a).key
    (.bytes (beBytes nonce))

theorem getElem?_putNative (balance : Bix) (nonce : U64) (key : RowKey) :
    (putNative rows a balance nonce)[key]? =
      if (AccountItem.nonce a).key = key then some (.bytes (beBytes nonce))
      else if (AccountItem.balance a).key = key then some (.bytes (beBytes balance))
      else rows[key]? := by
  rw [putNative, Map.getElem?_insert_eq, Map.getElem?_insert_eq]

/-- **`put_account` keeps the code and the storage.** -/
theorem Represents.putAccount (h : Represents rows accounts) (balance : Bix) (nonce : U64) :
    ∃ rows', putAccount a balance nonce rows = .ok () rows' ∧ Represents rows' (Function.update accounts a
      (some { (accounts a).getD {} with balance := balance, nonce := nonce })) := by
  refine ⟨putNative rows a balance nonce, rfl, h.write (fun item ha => ?_) fun key hkey => ?_⟩
  · subst ha
    simp only [getElem?_putNative, AccountItem.key_injective.eq_iff, h.row]
    cases item with
    | balance b => simp
    | nonce b => simp
    | code b => cases hb : accounts b <;> simp [hb]
    | slot b slot => cases hb : accounts b <;> simp [hb]
  · rw [getElem?_putNative, if_neg (hkey (.nonce a) rfl), if_neg (hkey (.balance a) rfl)]

/-- **`put_evm_account` leaves the written account, without the slots that hold zero.** -/
theorem Represents.putEvmAccount (h : Represents rows accounts) (balance : Bix) (nonce : U64)
    (code : Bytes) (storage : Map Hash256 Hash256) :
    ∃ rows', putEvmAccount a balance nonce code storage rows = .ok () rows' ∧
      Represents rows' (Function.update accounts a
        (some ⟨balance, nonce, code, storage.filter fun _ value => value ≠ 0⟩)) := by
  have hother : ∀ key, (∀ item : AccountItem, item.address = a → item.key ≠ key) →
      (putCode a code (putNative rows a balance nonce))[key]? = rows[key]? := by
    intro key hkey
    rw [getElem?_putCode, if_neg (hkey (.code a) rfl), getElem?_putNative, if_neg (hkey (.nonce a) rfl),
      if_neg (hkey (.balance a) rfl)]
  have honly : OnlyItems (putCode a code (putNative rows a balance nonce)) := fun key hkey hitem =>
    (hother key fun item _ => hitem item).trans (h.only key hkey hitem)
  obtain ⟨stored, erased, hstored, herased, hgone, hkept⟩ := honly.eraseSlots a storage
  have hput : ∀ key, (∀ slot, storageKey a slot ≠ key) → (storage.foldl (putSlot a) erased)[key]? =
      (putCode a code (putNative rows a balance nonce))[key]? := by
    intro key hkey
    rw [← hkept key hkey]
    refine Map.observe_foldl_of_forall (fun rows : Rows => rows[key]?) _ (fun t slot value => ?_) _ _
    rw [getElem?_putSlot, if_neg (hkey slot)]
  refine ⟨storage.foldl (putSlot a) erased, ?_, h.write (fun item ha => ?_) fun key hkey => ?_⟩
  · unfold Rows.putEvmAccount
    refine (bind_apply_of_ok rfl).trans ((bind_apply_of_ok rfl).trans ?_)
    rw [get_bind_apply, ← herased]
    exact (runExcept_bind_of_ok hstored).trans rfl
  · cases item with
    | slot b slot =>
      obtain rfl : b = a := ha
      exact getElem?_putSlots storage hgone slot
    | _ =>
      obtain rfl : _ = a := ha
      rw [hput _ fun slot hkey => absurd (@AccountItem.key_injective (.slot _ slot) _ hkey) (by simp)]
      simp [getElem?_putCode, getElem?_putNative, AccountItem.key_injective.eq_iff]
  · exact (hput key fun slot => hkey (.slot a slot) rfl).trans (hother key hkey)

/-! ## The snapshot -/

theorem mem_scanned (item : AccountItem) :
    item.key ∈ (scanPrefix rows item.family.tag).reverse.map Prod.fst ↔
      (rows[item.key]?).isSome := by
  rw [List.map_reverse, List.mem_reverse, mem_scanPrefix_keys, Option.isSome_iff_exists]
  exact and_iff_right item.tag_isPrefix

theorem Represents.scan_entries {V : Type} (h : Represents rows accounts)
    (item : Address → AccountItem) (hitem : ∀ a, (item a).family = family ∧ (item a).address = a)
    (hown : ∀ i : AccountItem, i.family = family → i = item i.address) {d : V}
    {set : EvmAccountSnapshot → V → V}
    {step : Map Address V → RowKey × RowValue → Except NodeError (Map Address V)}
    (hstep : ∀ a account value t, (item a).value account = some value →
      step t ((item a).key, value) = .ok (Map.entry t a d (set account)))
    (hset : ∀ account v, set account (set account v) = set account v) (init : Map Address V) :
    ∃ t, (scanPrefix rows family.tag).foldlM step init = .ok t ∧
      ∀ a, t[a]? = if (rows[(item a).key]?).isSome then
        (accounts a).map fun account => set account ((init[a]?).getD d) else init[a]? := by
  obtain ⟨t, hrun, hget⟩ := exists_foldlM_eq_ok (l := scanPrefix rows family.tag) (f := step)
    (fun done t => ∀ a, t[a]? = if (item a).key ∈ done.map Prod.fst then
      (accounts a).map fun account => set account ((init[a]?).getD d) else init[a]?)
    (fun (key, value) hentry done t ht => by
      obtain ⟨i, account, hfamily, rfl, haccount, hvalue⟩ := h.mem_scan family hentry
      obtain ⟨b, rfl⟩ : ∃ b, i = item b := ⟨_, hown i hfamily⟩
      rw [(hitem b).2] at haccount
      refine ⟨_, hstep b account value t hvalue, fun a => ?_⟩
      rw [Map.getElem?_entry, List.map_cons, ht a]
      simp only [List.mem_cons, AccountItem.key_injective.eq_iff]
      by_cases hb : b = a
      · subst hb
        rw [if_pos rfl, haccount]
        simp only [true_or, if_true, Option.map_some]
        split
        · exact congrArg some (hset _ _)
        · rfl
      · have hne : item a ≠ item b := fun heq => hb (by rw [← (hitem b).2, ← heq, (hitem a).2])
        simp only [if_neg hb, hne, false_or])
    (b := init) fun a => (if_neg List.not_mem_nil).symm
  refine ⟨t, hrun, fun a => (hget a).trans ?_⟩
  rw [← (hitem a).1]
  simp only [mem_scanned]

theorem addressOf (tag : RowKey) (refusal : String) (a : Address) :
    (suffixOf tag refusal (tag ++ (hexEncode (beBytes a)).toList) >>= readName Address.fromHex) =
      .ok a := by
  rw [suffixOf_append, ok_bind, readName_address]

theorem addBalance_row (t : NativeAccounts) (a : Address)
    (h : (AccountItem.balance a).value account = some value) : addBalance t (balanceKey a, value) =
      .ok (Map.entry t a (0, 0) fun e => (account.balance, e.2)) := by
  obtain rfl := Option.some.inj h
  unfold addBalance addressFromBalanceKey balanceKey
  dsimp only
  rw [addressOf, ok_bind, u128FromSlice, wordFromSlice_beBytes rfl]
  rfl

theorem addNonce_row (t : NativeAccounts) (a : Address)
    (h : (AccountItem.nonce a).value account = some value) : addNonce t (nonceKey a, value) =
      .ok (Map.entry t a (0, 0) fun e => (e.1, account.nonce)) := by
  obtain rfl := Option.some.inj h
  unfold addNonce addressFromNonceKey nonceKey
  dsimp only
  rw [addressOf, ok_bind, wordFromSlice_beBytes rfl]
  rfl

theorem addCode_row (t : EvmStateSnapshot) (a : Address)
    (h : (AccountItem.code a).value account = some value) : addCode t (codeKey a, value) =
      .ok (Map.entry t a {} fun e => { e with code := account.code }) := by
  obtain ⟨-, hvalue⟩ := Option.ite_none_left_eq_some.mp h
  obtain rfl := Option.some.inj hvalue
  unfold addCode addressFromCodeKey codeKey
  dsimp only
  rw [addressOf]
  rfl

theorem addSlot_row (t : EvmStateSnapshot) (a : Address) (slot value : Hash256) :
    addSlot t (storageKey a slot, .bytes (beBytes value)) =
      .ok (Map.entry t a {} fun e => { e with storage := e.storage.insert slot value }) := by
  unfold addSlot
  dsimp only
  rw [addressFromStorageKey_storageKey, ok_bind, hashFromBytes, wordFromSlice_beBytes rfl]
  rfl

theorem Represents.accountSnapshot (h : Represents rows accounts) : ∃ native,
    accountSnapshot rows = .ok native ∧
      ∀ a, native[a]? = (accounts a).map fun account => (account.balance, account.nonce) := by
  obtain ⟨balances, hbalances, hget⟩ := h.scan_entries .balance (fun _ => ⟨rfl, rfl⟩)
    (fun i hi => by cases i <;> first | rfl | cases hi)
    (fun a account value t hvalue => addBalance_row t a hvalue) (fun _ _ => rfl) ∅
  obtain ⟨native, hnative, hget'⟩ := h.scan_entries .nonce (fun _ => ⟨rfl, rfl⟩)
    (fun i hi => by cases i <;> first | rfl | cases hi)
    (fun a account value t hvalue => addNonce_row t a hvalue) (fun _ _ => rfl) balances
  refine ⟨native, bind_eq_ok.mpr ⟨balances, hbalances, hnative⟩, fun a => ?_⟩
  rw [hget' a, hget a, h.row, h.row]
  cases ha : accounts a <;> simp [ha]

/-- The account with the slots that have been read. -/
def withSlots (done : List (RowKey × RowValue)) (a : Address) (account : EvmAccountSnapshot) :
    EvmAccountSnapshot :=
  { account with
    storage := account.storage.filter (fun slot _ => storageKey a slot ∈ done.map Prod.fst) }

theorem getElem?_withSlots (done : List (RowKey × RowValue)) (slot : Hash256) :
    (withSlots done a account).storage[slot]? =
      if storageKey a slot ∈ done.map Prod.fst then account.storage[slot]? else none := by
  unfold withSlots
  rw [Std.ExtTreeMap.getElem?_filter']
  split_ifs with hmem <;> cases account.storage[slot]? <;> simp [Option.filter, hmem]

variable (account) in
theorem eq_withSlots {done : List (RowKey × RowValue)} {storage : Map Hash256 Hash256}
    (h : ∀ slot, storage[slot]? =
      if storageKey a slot ∈ done.map Prod.fst then account.storage[slot]? else none) :
    { account with storage := storage } = withSlots done a account := by
  refine congrArg (fun storage => { account with storage := storage }) ?_
  exact Std.ExtTreeMap.ext_getElem? fun slot => (h slot).trans (getElem?_withSlots done slot).symm

/-- **The scan of the storage comes by every slot.** Each belongs to an account that is there already. -/
theorem Represents.scan_slots (h : Represents rows accounts) (coded : EvmStateSnapshot)
    (hcoded : ∀ a, coded[a]? = (accounts a).map fun account => { account with storage := ∅ }) :
    ∃ snapshot, (scanPrefix rows AccountFamily.storage.tag).foldlM addSlot coded = .ok snapshot ∧
      ∀ a, snapshot[a]? = accounts a := by
  obtain ⟨t, hrun, hget⟩ := exists_foldlM_eq_ok (l := scanPrefix rows AccountFamily.storage.tag)
    (f := addSlot) (fun done t => ∀ a, t[a]? = (accounts a).map (withSlots done a))
    (fun (key, value) hentry done t ht => by
      obtain ⟨item, account, hfamily, rfl, haccount, hvalue⟩ := h.mem_scan .storage hentry
      cases item with
      | slot b index =>
        obtain ⟨word, hword, hbytes⟩ := Option.map_eq_some_iff.mp hvalue
        obtain rfl : RowValue.bytes (beBytes word) = value := hbytes
        have hb : accounts b = some account := haccount
        refine ⟨_, addSlot_row t b index word, fun a => ?_⟩
        rw [Map.getElem?_entry, ht a]
        by_cases ha : b = a
        · subst ha
          rw [if_pos rfl, hb]
          refine congrArg some (eq_withSlots account fun slot => ?_)
          show ((withSlots done b account).storage.insert index word)[slot]? = _
          rw [Map.getElem?_insert_eq, getElem?_withSlots]
          by_cases hslot : index = slot
          · subst hslot
            exact (if_pos rfl).trans (hword.symm.trans (if_pos List.mem_cons_self).symm)
          · simp only [AccountItem.key, List.map_cons, List.mem_cons, storageKey_inj, hslot, Ne.symm hslot,
              and_false, false_or, if_false]
        · rw [if_neg ha]
          refine Option.map_congr fun account' _ => eq_withSlots _ fun slot => ?_
          refine (getElem?_withSlots done slot).trans ?_
          simp only [AccountItem.key, List.map_cons, List.mem_cons, storageKey_inj, Ne.symm ha, false_and,
            false_or]
      | _ => cases hfamily)
    (b := coded) fun a => by
      rw [hcoded a]
      exact Option.map_congr fun account _ => eq_withSlots _ fun slot => by simp
  refine ⟨t, hrun, fun a => (hget a).trans ?_⟩
  cases ha : accounts a with
  | none => rfl
  | some account =>
    refine congrArg some (eq_withSlots account fun slot => ?_).symm
    split_ifs with hmem
    · rfl
    · have hnone := mt (mem_scanned (.slot a slot)).mpr hmem
      rw [h.row] at hnone
      simpa [ha] using hnone

theorem Represents.evmAccountSnapshot (h : Represents rows accounts) : ∃ snapshot,
    evmAccountSnapshot rows = .ok snapshot ∧ ∀ a, snapshot[a]? = accounts a := by
  obtain ⟨native, hnative, hget⟩ := h.accountSnapshot
  obtain ⟨coded, hcoded, hcode⟩ := h.scan_entries .code (fun _ => ⟨rfl, rfl⟩)
    (fun i hi => by cases i <;> first | rfl | cases hi)
    (fun a account value t hvalue => addCode_row t a hvalue) (fun _ _ => rfl)
    (native.map fun _ e => (⟨e.1, e.2, [], ∅⟩ : EvmAccountSnapshot))
  obtain ⟨snapshot, hsnapshot, hsame⟩ := h.scan_slots coded fun a => by
    rw [hcode a, Std.ExtTreeMap.getElem?_map, hget a, h.row]
    cases ha : accounts a with
    | none => simp [ha]
    | some account => cases hc : account.code <;> simp [ha, hc]
  refine ⟨snapshot, bind_eq_ok.mpr ⟨native, hnative, bind_eq_ok.mpr ⟨coded, hcoded, hsnapshot⟩⟩, hsame⟩

/-! ## Any sequence of writes -/

inductive AccountWrite
  | putAccount (address : Address) (balance : Bix) (nonce : U64)
  | putEvmAccount (address : Address) (balance : Bix) (nonce : U64) (code : Bytes)
      (storage : Map Hash256 Hash256)

namespace AccountWrite

def address : AccountWrite → Address
  | putAccount address _ _ | putEvmAccount address _ _ _ _ => address

def run : AccountWrite → EStateM NodeError Rows Unit
  | putAccount address balance nonce => Rows.putAccount address balance nonce
  | putEvmAccount address balance nonce code storage =>
    Rows.putEvmAccount address balance nonce code storage

def apply (account : EvmAccountSnapshot) : AccountWrite → EvmAccountSnapshot
  | putAccount _ balance nonce => { account with balance := balance, nonce := nonce }
  | putEvmAccount _ balance nonce code storage =>
    ⟨balance, nonce, code, storage.filter fun _ value => value ≠ 0⟩

end AccountWrite

def written (writes : List AccountWrite) (found : Option EvmAccountSnapshot) (a : Address) :
    Option EvmAccountSnapshot :=
  (writes.filter (·.address = a)).foldl (fun found write => some (write.apply (found.getD {}))) found

theorem Represents.run (h : Represents rows accounts) (write : AccountWrite) :
    ∃ rows', write.run rows = .ok () rows' ∧ Represents rows' (Function.update accounts write.address
      (some (write.apply ((accounts write.address).getD {})))) := by
  cases write with
  | putAccount address balance nonce => exact h.putAccount balance nonce
  | putEvmAccount address balance nonce code storage => exact h.putEvmAccount balance nonce code storage

theorem Represents.runAll (h : Represents rows accounts) (writes : List AccountWrite) :
    ∃ rows', writes.forM AccountWrite.run rows = .ok () rows' ∧
      Represents rows' fun a => written writes (accounts a) a := by
  induction writes generalizing rows accounts with
  | nil => exact ⟨rows, rfl, h⟩
  | cons write writes ih =>
    obtain ⟨rows₁, hrun, h₁⟩ := h.run write
    obtain ⟨rows₂, hrest, h₂⟩ := ih h₁
    refine ⟨rows₂, (bind_apply_of_ok hrun).trans hrest, ?_⟩
    convert h₂ using 2 with a
    unfold written
    rw [List.filter_cons]
    by_cases ha : write.address = a
    · subst ha
      simp
    · simp [ha, Function.update_of_ne (Ne.symm ha)]

/-- **A snapshot shows what was written**: for every address the balance and the nonce of the last write
there, the code and the non-zero slots of the last write that had them, and no account elsewhere. -/
theorem snapshot_of_writes (hempty : ∀ key, AccountKey key → rows[key]? = none)
    (writes : List AccountWrite) : ∃ rows' snapshot, writes.forM AccountWrite.run rows = .ok () rows' ∧
      evmAccountSnapshot rows' = .ok snapshot ∧ ∀ a, snapshot[a]? = written writes none a := by
  have h : Represents rows fun _ => none := by
    refine ⟨fun item => ?_, fun key hkey _ => hempty key hkey⟩
    exact hempty _ (AccountItem.accountKey_of_tag item.tag_isPrefix)
  obtain ⟨rows', hrun, h'⟩ := h.runAll writes
  obtain ⟨snapshot, hsnapshot, hsame⟩ := h'.evmAccountSnapshot
  exact ⟨rows', snapshot, hrun, hsnapshot, hsame⟩

def clearingWrites : List AccountWrite :=
  [.putEvmAccount 1 5 0 [0x60] ((∅ : Map Hash256 Hash256).insert 2 3), .putAccount 4 7 1,
    .putEvmAccount 1 5 1 [] ((∅ : Map Hash256 Hash256).insert 2 0)]

theorem snapshot_of_writes_clearing : ∃ rows' snapshot,
    clearingWrites.forM AccountWrite.run ∅ = .ok () rows' ∧ evmAccountSnapshot rows' = .ok snapshot ∧
      ∀ a, snapshot[a]? = written clearingWrites none a :=
  snapshot_of_writes (fun _ _ => Std.ExtTreeMap.getElem?_empty) clearingWrites

end Rows

end Blq
