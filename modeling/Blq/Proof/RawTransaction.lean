import Blq.Spec.RawTransaction

/-!
# What a raw transaction is re-encoded to

The reader of raw transactions accepts more than the canonical encoding: a single byte with a
header, a length in long form, an integer zero as a zero byte, a signature scalar with leading
zeros. The transaction is then written canonically, so the external hash it was given is the
hash of other bytes.

* `Reads`: what a field reader makes of the next canonical item, one lemma for each reader.
* `canonicalRaw_of_signedBytes`: what is written is canonical.
* `raw_transaction_reencodes_iff`: an accepted raw transaction is written back byte for byte
  exactly if it is canonical, and then it passes the signature checks.
* `headed_nonce_is_refused`: one that is accepted and fails them.
-/

namespace Blq

open Word Result Rlp

/-! ## Reading a canonical item -/

variable {rest payload raw : Bytes} {len w count total : ℕ} {fields items : List Item} {item : Item}
  {tx : Transaction} {signature : TransactionSignature}

theorem run_rlpSplitPayload {list : Bool} {input : Bytes} {short : String} (h : len ≤ rest.length) :
    (rlpSplitPayload list rest len short).run input = .ok (list, rest.take len) (rest.drop len) := by
  have hlt : ¬ rest.length < len := by omega
  unfold rlpSplitPayload
  rw [if_neg hlt]
  rfl

theorem rlpDecodeLength_lengthBytes (h : 56 ≤ len) (hlt : len < 2 ^ 64) (rest : Bytes) :
    rlpDecodeLength (lengthBytes len ++ rest) (lengthBytes len).length = .ok (len, rest) := by
  obtain ⟨hone, height⟩ := lengthBytes_length h hlt
  have hvalue := ofBeBytes_lengthBytes hlt
  have hguard : ¬ ((lengthBytes len).length = 0 ∨ (lengthBytes len).length > 8 ∨
      (lengthBytes len ++ rest).length < (lengthBytes len).length) := by
    rw [List.length_append]
    omega
  have hfits : ¬ len ≥ 2 ^ 64 := by omega
  unfold rlpDecodeLength
  rw [if_neg hguard]
  simp only [List.take_left, List.drop_left, hvalue, if_neg hfits]
  rfl

/-- The header byte of a canonical item tells a string from a list. -/
def headerOffset (list : Bool) : UInt8 := if list then 0xc0 else 0x80

theorem rlpTakeItem_short {list : Bool} (hlen : len < 56) (hrest : len ≤ rest.length) :
    rlpTakeItem.run ((headerOffset list + UInt8.ofNat len) :: rest) =
      .ok (list, rest.take len) (rest.drop len) := by
  have hfirst : (headerOffset list + UInt8.ofNat len).toNat = (headerOffset list).toNat + len := by
    rw [UInt8.toNat_add, UInt8.toNat_ofNat']
    cases list <;> simp [headerOffset] <;> omega
  generalize headerOffset list + UInt8.ofNat len = first at hfirst
  unfold rlpTakeItem
  show EStateM.run (if _ then _ else _) _ = _
  cases list with
  | false =>
    have hoffset : first.toNat = 0x80 + len := hfirst
    have hsub : first.toNat - 0x80 = len := by omega
    rw [if_neg (by omega), if_pos (by omega), hsub]
    exact run_rlpSplitPayload hrest
  | true =>
    have hoffset : first.toNat = 0xc0 + len := hfirst
    have hsub : first.toNat - 0xc0 = len := by omega
    rw [if_neg (by omega), if_neg (by omega), if_neg (by omega), if_pos (by omega), hsub]
    exact run_rlpSplitPayload hrest

theorem rlpTakeItem_long {list : Bool} (hlong : 56 ≤ len) (hlt : len < 2 ^ 64)
    (hrest : len ≤ rest.length) :
    rlpTakeItem.run ((headerOffset list + 55 + UInt8.ofNat (lengthBytes len).length) ::
      (lengthBytes len ++ rest)) = .ok (list, rest.take len) (rest.drop len) := by
  obtain ⟨hone, height⟩ := lengthBytes_length hlong hlt
  have hdecode := rlpDecodeLength_lengthBytes hlong hlt rest
  generalize hcount : (lengthBytes len).length = count at hone height hdecode ⊢
  have hfirst : (headerOffset list + 55 + UInt8.ofNat count).toNat =
      (headerOffset list).toNat + 55 + count := by
    rw [UInt8.toNat_add, UInt8.toNat_add, UInt8.toNat_ofNat']
    cases list <;> simp [headerOffset] <;> omega
  generalize headerOffset list + 55 + UInt8.ofNat count = first at hfirst
  unfold rlpTakeItem
  show EStateM.run (if _ then _ else _) _ = _
  cases list with
  | false =>
    have hoffset : first.toNat = 0xb7 + count := hfirst
    have hsub : first.toNat - 0xb7 = count := by omega
    rw [if_neg (by omega), if_neg (by omega), if_pos (by omega), hsub, hdecode]
    exact run_rlpSplitPayload hrest
  | true =>
    have hoffset : first.toNat = 0xf7 + count := hfirst
    have hsub : first.toNat - 0xf7 = count := by omega
    rw [if_neg (by omega), if_neg (by omega), if_neg (by omega), if_neg (by omega), hsub, hdecode]
    exact run_rlpSplitPayload hrest

theorem rlpTakeItem_header (list : Bool) (hlt : payload.length < 2 ^ 64) (rest : Bytes) :
    rlpTakeItem.run (header (headerOffset list) payload.length ++ (payload ++ rest)) =
      .ok (list, payload) rest := by
  have hle : payload.length ≤ (payload ++ rest).length := by simp
  unfold header
  by_cases hshort : payload.length < 56
  · rw [if_pos hshort, List.singleton_append, rlpTakeItem_short hshort hle, List.take_left,
      List.drop_left]
  · rw [if_neg hshort, List.cons_append, rlpTakeItem_long (by omega) hlt hle, List.take_left,
      List.drop_left]

/-- **A canonical item is read back.** -/
theorem rlpTakeItem_encode (item : Item) (hlt : item.payload.length < 2 ^ 64) (rest : Bytes) :
    rlpTakeItem.run (item.encode ++ rest) = .ok (item.isList, item.payload) rest := by
  cases item with
  | str bs =>
    rw [Item.encode, encodeString]
    by_cases hsingle : bs.length = 1 ∧ bs.headD 0 < 0x80
    · rw [if_pos hsingle]
      obtain ⟨b, rfl⟩ := List.length_eq_one_iff.mp hsingle.1
      have hb : b.toNat ≤ 0x7f := by
        have : b.toNat < 0x80 := UInt8.lt_iff_toNat_lt.mp hsingle.2
        omega
      unfold rlpTakeItem
      show EStateM.run (if _ then _ else _) _ = _
      rw [if_pos hb]
      rfl
    · rw [if_neg hsingle, List.append_assoc]
      exact rlpTakeItem_header false hlt rest
  | list items =>
    rw [Item.encode, encodeList, List.append_assoc]
    exact rlpTakeItem_header true hlt rest

/-! ## Reading field by field -/

/-- A reader takes exactly one item off a canonical input, and `P` says what it makes of it. -/
def Reads {α : Type} (reader : RlpReader α) (P : Item → α → Prop) : Prop :=
  (∀ a rest, reader.run [] ≠ .ok a rest) ∧
    ∀ item rest a rest', item.payload.length < 2 ^ 64 →
      reader.run (item.encode ++ rest) = .ok a rest' → rest' = rest ∧ P item a

theorem reads_item : Reads rlpTakeItem fun item p => p = (item.isList, item.payload) := by
  refine ⟨fun a rest h => (nomatch h), ?_⟩
  intro item rest a rest' hlt h
  rw [rlpTakeItem_encode item hlt] at h
  cases h
  exact ⟨rfl, rfl⟩

theorem Reads.bind {α β : Type} {reader : RlpReader α} {P : Item → α → Prop}
    {f : α → RlpReader β} {Q : Item → β → Prop} (h : Reads reader P)
    (hf : ∀ a s b s', (f a).run s = .ok b s' → s' = s ∧
      ∀ item, item.payload.length < 2 ^ 64 → P item a → Q item b) : Reads (reader >>= f) Q := by
  constructor
  · intro b rest hrun
    obtain ⟨a, s₁, ha, -⟩ := run_bind_eq_ok.mp hrun
    exact h.1 a s₁ ha
  · intro item rest b rest' hlt hrun
    obtain ⟨a, s₁, ha, hb⟩ := run_bind_eq_ok.mp hrun
    obtain ⟨rfl, hP⟩ := h.2 item rest a s₁ hlt ha
    obtain ⟨rfl, hQ⟩ := hf a s₁ b rest' hb
    exact ⟨rfl, hQ item hlt hP⟩

theorem Reads.cons {α : Type} {reader : RlpReader α} {P : Item → α → Prop} (h : Reads reader P)
    {a : α} (hlt : (encodeItems fields).length < 2 ^ 64)
    (hrun : reader.run (encodeItems fields) = .ok a rest) :
    ∃ item fields', fields = item :: fields' ∧ rest = encodeItems fields' ∧ P item a ∧
      (encodeItems fields').length < 2 ^ 64 := by
  cases fields with
  | nil => exact absurd hrun (h.1 a rest)
  | cons item fields' =>
    rw [encodeItems, List.length_append] at hlt
    have hpayload := payload_length_le item
    rw [encodeItems] at hrun
    obtain ⟨rfl, hP⟩ := h.2 item _ a rest (by omega) hrun
    exact ⟨item, fields', rfl, rfl, hP, by omega⟩

theorem reads_bytes : Reads rlpTakeBytes fun item bs => item = .str bs := by
  refine reads_item.bind ?_
  rintro ⟨list, payload⟩ s bs s' hrun
  cases list with
  | true => cases hrun
  | false =>
    cases hrun
    refine ⟨rfl, fun item _ hitem => ?_⟩
    cases item with
    | str bs => rw [(Prod.mk.inj hitem).2, Item.payload]
    | list items => exact absurd (Prod.mk.inj hitem).1 Bool.false_ne_true

def ReadsUint (w : ℕ) (item : Item) (v : BitVec w) : Prop :=
  ∃ bs, item = .str bs ∧ v.toNat = ofBeBytes bs

theorem toNat_ofNat_ofBeBytes {bs : Bytes} (h : 8 * bs.length ≤ w) :
    (BitVec.ofNat w (ofBeBytes bs)).toNat = ofBeBytes bs := by
  have hlt : ofBeBytes bs < 2 ^ w := calc
    ofBeBytes bs < 256 ^ bs.length := ofBeBytes_lt bs
    _ = 2 ^ (8 * bs.length) := by norm_num [pow_mul]
    _ ≤ 2 ^ w := Nat.pow_le_pow_right (by decide) h
  rw [toNat_ofNat_of_lt hlt]

theorem reads_u128 : Reads rlpTakeU128 (ReadsUint 128) := by
  refine reads_bytes.bind fun bs s v s' hrun => ?_
  simp only [run_ite_throw_eq_ok, run_pure_eq_ok] at hrun
  obtain ⟨hlong, -, rfl, rfl⟩ := hrun
  exact ⟨rfl, fun item _ hitem => ⟨bs, hitem, toNat_ofNat_ofBeBytes (by omega)⟩⟩

theorem reads_u64 : Reads rlpTakeU64 (ReadsUint 64) := by
  refine reads_u128.bind fun value s v s' hrun => ?_
  simp only [run_ite_throw_eq_ok, run_pure_eq_ok] at hrun
  obtain ⟨hsmall, rfl, rfl⟩ := hrun
  have hvalue : (value.setWidth 64).toNat = value.toNat := by
    rw [BitVec.toNat_setWidth, Nat.mod_eq_of_lt (by omega)]
  exact ⟨rfl, fun item _ ⟨bs, hitem, hbs⟩ => ⟨bs, hitem, hvalue.trans hbs⟩⟩

theorem reads_word : Reads rlpTakeWord (ReadsUint 256) := by
  refine reads_bytes.bind fun bs s v s' hrun => ?_
  simp only [run_ite_throw_eq_ok, run_pure_eq_ok] at hrun
  obtain ⟨hlong, rfl, rfl⟩ := hrun
  exact ⟨rfl, fun item _ hitem => ⟨bs, hitem, toNat_ofNat_ofBeBytes (by omega)⟩⟩

theorem reads_optionalAddress : Reads rlpTakeOptionalAddress fun item to_ =>
    (Item.str ((to_.map beBytes).getD [])) = item := by
  unfold rlpTakeOptionalAddress
  refine reads_bytes.bind fun bs s to_ s' hrun => ?_
  by_cases hempty : bs = []
  · rw [if_pos hempty] at hrun
    cases hrun
    exact ⟨rfl, fun item _ hitem => hitem ▸ congrArg Item.str hempty.symm⟩
  · rw [if_neg hempty] at hrun
    simp only [run_ite_throw_eq_ok, run_pure_eq_ok] at hrun
    obtain ⟨hlen, rfl, rfl⟩ := hrun
    have hbytes : beBytes (BitVec.ofNat 160 (ofBeBytes bs)) = bs :=
      beBytes_of_toNat (by omega) (toNat_ofNat_ofBeBytes (by omega))
    exact ⟨rfl, fun item _ hitem => (congrArg Item.str hbytes).trans hitem.symm⟩

/-! ## Writing the fields again -/

theorem rlpEncodeUint_eq (v : BitVec w) :
    rlpEncodeUint v = (Item.str (stripZeros (beBytes v))).encode := by
  unfold rlpEncodeUint
  split
  · next h =>
    have hzero : v.toNat = 0 := by simp [h]
    rw [beBytes, hzero, stripZeros_toBeBytes_zero, Item.encode, rlpEncodeBytes]
  · rfl

/-- **An integer without leading zeros is written as it was read.** -/
theorem rlpEncodeUint_of_minimal (hw : w = 8 * (w / 8)) {v : BitVec w} (hread : ReadsUint w item v)
    (hmin : item.Minimal) : rlpEncodeUint v = item.encode := by
  obtain ⟨bs, rfl, hv⟩ := hread
  have hlt : ofBeBytes bs < 256 ^ (w / 8) := hv ▸ toNat_lt_pow hw v
  rw [rlpEncodeUint_eq, beBytes, hv,
    stripZeros_toBeBytes_ofBeBytes (length_le_of_ofBeBytes_lt hmin hlt) hmin]

/-! ## Access lists -/

def storageKeyItem (key : Hash256) : Item := .str (beBytes key)

def accessEntryItem (item : TransactionAccessListItem) : Item :=
  .list [.str (beBytes item.address), .list (item.storageKeys.map storageKeyItem)]

def accessListItem (accessList : List TransactionAccessListItem) : Item :=
  .list (accessList.map accessEntryItem)

theorem encode_accessEntryItem (item : TransactionAccessListItem) :
    (accessEntryItem item).encode = encodeRlpList [rlpEncodeBytes (beBytes item.address),
      encodeRlpList (item.storageKeys.map fun key => rlpEncodeBytes (beBytes key))] := by
  simp only [accessEntryItem, storageKeyItem, Item.encode, encodeItems, encodeItems_map,
    encodeRlpList, rlpEncodeBytes, List.flatten_cons, List.flatten_nil]

theorem encodeAccessList_eq (accessList : List TransactionAccessListItem) :
    encodeAccessList accessList = (accessListItem accessList).encode := by
  simp only [encodeAccessList, accessListItem, Item.encode, encodeItems_map,
    encode_accessEntryItem]
  rfl

theorem encodeItems_eq_nil (h : encodeItems items = []) : items = [] := by
  cases items with
  | nil => rfl
  | cons item items =>
    rw [encodeItems, List.append_eq_nil_iff] at h
    exact absurd h.1 (encode_ne_nil item)

theorem takeFrom_eq_ok {α : Type} {reader : RlpReader α} {input : Bytes} {a : α} :
    takeFrom reader input = .ok (a, rest) ↔ reader.run input = .ok a rest := by
  unfold takeFrom
  cases reader.run input <;> simp

theorem rlpTakeStorageKeys_canonical {fuel : ℕ} {keys : List Hash256}
    (hlt : (encodeItems items).length < 2 ^ 64)
    (h : rlpTakeStorageKeys fuel (encodeItems items) count total = .ok keys) :
    items = keys.map storageKeyItem := by
  induction fuel generalizing items count total keys with
  | zero =>
    rw [rlpTakeStorageKeys, ite_else_throw_eq_ok] at h
    obtain ⟨hnil, hkeys⟩ := h
    obtain rfl := pure_eq_ok.mp hkeys
    exact encodeItems_eq_nil hnil
  | succ fuel ih =>
    rw [rlpTakeStorageKeys] at h
    by_cases hnil : encodeItems items = []
    · rw [if_pos hnil] at h
      obtain rfl := pure_eq_ok.mp h
      exact encodeItems_eq_nil hnil
    · rw [if_neg hnil] at h
      simp only [throw_bind, ite_throw_eq_ok, bind_eq_ok, pure_eq_ok, Prod.exists,
        takeFrom_eq_ok] at h
      obtain ⟨-, key, rest, hkey, hlen, others, hothers, rfl⟩ := h
      obtain ⟨item, items', rfl, rfl, rfl, hlt'⟩ := reads_bytes.cons hlt hkey
      have hbytes : beBytes (BitVec.ofNat 256 (ofBeBytes key)) = key :=
        beBytes_of_toNat (by omega) (toNat_ofNat_ofBeBytes (by omega))
      rw [List.map_cons, ← ih hlt' hothers, storageKeyItem, hbytes]

theorem rlpDecodeList_canonical (hlt : item.payload.length < 2 ^ 64)
    (h : decodeRlpList item.encode = .ok payload) :
    ∃ items, item = .list items ∧ payload = encodeItems items := by
  simp only [decodeRlpList, throw_bind, ite_throw_eq_ok, bind_eq_ok, pure_eq_ok, Prod.exists,
    takeFrom_eq_ok] at h
  obtain ⟨list, payload', rest, htake, -, hlist, rfl⟩ := h
  have hread := rlpTakeItem_encode item hlt []
  rw [List.append_nil, htake] at hread
  cases hread
  cases item with
  | str bs => simp [Item.isList] at hlist
  | list items => exact ⟨items, rfl, rfl⟩

theorem decodeAccessListEntry_canonical {entry : TransactionAccessListItem}
    (hlt : item.payload.length < 2 ^ 64) (h : decodeAccessListEntry item.encode total = .ok entry) :
    item = accessEntryItem entry := by
  simp only [decodeAccessListEntry, throw_bind, ite_throw_eq_ok, bind_eq_ok, pure_eq_ok,
    Prod.exists, takeFrom_eq_ok] at h
  obtain ⟨payload, hlist, address, rest, haddress, hlen, list, keys, rest', hitem, hguard,
    storageKeys, hkeys, rfl⟩ := h
  obtain ⟨items, rfl, rfl⟩ := rlpDecodeList_canonical hlt hlist
  obtain ⟨item₁, items₁, rfl, rfl, rfl, hlt₁⟩ := reads_bytes.cons hlt haddress
  obtain ⟨item₂, items₂, rfl, rfl, hitem₂, hlt₂⟩ := reads_item.cons hlt₁ hitem
  simp only [not_or, Bool.not_eq_true', Bool.not_eq_false, ne_eq, not_not] at hguard
  obtain rfl := encodeItems_eq_nil hguard.2
  simp only [Prod.mk.injEq] at hitem₂
  cases item₂ with
  | str bs => simp [hitem₂.1, Item.isList] at hguard
  | list keyItems =>
    have hkeys' : keys = encodeItems keyItems := hitem₂.2
    have hlt₃ : (encodeItems keyItems).length < 2 ^ 64 := by
      have hle := payload_length_le (.list keyItems)
      simp only [encodeItems, List.append_nil, Item.payload] at hlt₁ hle
      omega
    rw [hkeys'] at hkeys
    have haddr : beBytes (BitVec.ofNat 160 (ofBeBytes address)) = address :=
      beBytes_of_toNat (by omega) (toNat_ofNat_ofBeBytes (by omega))
    rw [accessEntryItem, haddr, ← rlpTakeStorageKeys_canonical hlt₃ hkeys]

theorem reads_raw : Reads rlpTakeRaw fun item raw => raw = item.encode := by
  constructor
  · intro raw rest hrun
    simp only [rlpTakeRaw, run_bind_eq_ok, run_get_eq_ok] at hrun
    obtain ⟨start, s₁, ⟨rfl, rfl⟩, p, s₂, htake, -⟩ := hrun
    exact reads_item.1 p s₂ htake
  · intro item rest raw rest' hlt hrun
    simp only [rlpTakeRaw, run_bind_eq_ok, run_get_eq_ok, run_pure_eq_ok] at hrun
    obtain ⟨start, s₁, ⟨rfl, rfl⟩, p, s₂, htake, rest₂, s₃, ⟨rfl, rfl⟩, rfl, rfl⟩ := hrun
    obtain ⟨rfl, -⟩ := reads_item.2 item rest p _ hlt htake
    refine ⟨rfl, ?_⟩
    rw [List.length_append, Nat.add_sub_cancel, List.take_left]

theorem rlpTakeRaws_canonical {raws : List Bytes} (hlt : (encodeItems fields).length < 2 ^ 64)
    (hrun : (rlpTakeRaws count).run (encodeItems fields) = .ok raws rest) :
    ∃ taken fields', fields = taken ++ fields' ∧ taken.length = count ∧
      raws = taken.map Item.encode ∧ rest = encodeItems fields' ∧
      (encodeItems fields').length < 2 ^ 64 := by
  induction count generalizing fields raws with
  | zero =>
    obtain ⟨rfl, rfl⟩ := run_pure_eq_ok.mp hrun
    exact ⟨[], fields, rfl, rfl, rfl, rfl, hlt⟩
  | succ count ih =>
    simp only [rlpTakeRaws, run_bind_eq_ok, run_pure_eq_ok] at hrun
    obtain ⟨raw, s₁, hraw, raws', s₂, hraws, rfl, rfl⟩ := hrun
    obtain ⟨item, fields₁, rfl, rfl, rfl, hlt₁⟩ := reads_raw.cons hlt hraw
    obtain ⟨taken, fields₂, rfl, hlen, rfl, rfl, hlt₂⟩ := ih hlt₁ hraws
    exact ⟨item :: taken, fields₂, rfl, by rw [List.length_cons, hlen], rfl, rfl, hlt₂⟩

theorem decodeAccessListEntries_canonical {fuel : ℕ} {accessList : List TransactionAccessListItem}
    (hlt : (encodeItems items).length < 2 ^ 64)
    (h : decodeAccessListEntries fuel (encodeItems items) count total = .ok accessList) :
    items = accessList.map accessEntryItem := by
  induction fuel generalizing items count total accessList with
  | zero =>
    rw [decodeAccessListEntries, ite_else_throw_eq_ok] at h
    obtain ⟨hnil, hlist⟩ := h
    obtain rfl := pure_eq_ok.mp hlist
    exact encodeItems_eq_nil hnil
  | succ fuel ih =>
    rw [decodeAccessListEntries] at h
    by_cases hnil : encodeItems items = []
    · rw [if_pos hnil] at h
      obtain rfl := pure_eq_ok.mp h
      exact encodeItems_eq_nil hnil
    · rw [if_neg hnil] at h
      simp only [throw_bind, ite_throw_eq_ok, bind_eq_ok, pure_eq_ok, Prod.exists,
        takeFrom_eq_ok] at h
      obtain ⟨-, raw, rest, hraw, entry, hentry, others, hothers, rfl⟩ := h
      have hlen := hlt
      obtain ⟨item, items', rfl, rfl, rfl, hlt'⟩ := reads_raw.cons hlt hraw
      rw [encodeItems, List.length_append] at hlen
      have hle := payload_length_le item
      have hitem := decodeAccessListEntry_canonical (by omega) hentry
      rw [List.map_cons, ← ih hlt' hothers, ← hitem]

theorem reads_accessList : Reads rlpDecodeAccessList fun item accessList =>
    item = accessListItem accessList := by
  refine reads_item.bind ?_
  rintro ⟨list, entries⟩ s accessList s' hrun
  simp only [run_ite_throw_eq_ok, run_runExcept_eq_ok] at hrun
  obtain ⟨hlist, hentries, rfl⟩ := hrun
  refine ⟨rfl, fun item hlt hitem => ?_⟩
  obtain ⟨rfl, rfl⟩ := Prod.mk.inj hitem
  cases item with
  | str bs => simp [Item.isList] at hlist
  | list items => rw [accessListItem, ← decodeAccessListEntries_canonical hlt hentries]

/-! ## Typed transactions -/

theorem ofNat_toNat_beq_one {y : U64} (h : ¬ y.toNat > 1) : BitVec.ofNat 64 (y == 1).toNat = y := by
  have hcases : y.toNat = 0 ∨ y.toNat = 1 := by omega
  rcases hcases with hy | hy
  · obtain rfl : y = 0 := BitVec.eq_of_toNat_eq hy
    rfl
  · obtain rfl : y = 1 := BitVec.eq_of_toNat_eq hy
    rfl

/-- The items a typed transaction ends with, from the gas limit on, are written as they were read. -/
theorem takeTypedRest_canonical {eip : String} {f : TypedRest}
    (hlt : (encodeItems fields).length < 2 ^ 64)
    (hrun : (takeTypedRest eip).run (encodeItems fields) = .ok f rest)
    (hmin : ∀ i ∈ [0, 2, 5, 6, 7], ∀ item, fields[i]? = some item → item.Minimal) :
    fields.map Item.encode =
      [rlpEncodeU64 f.gasLimit, rlpEncodeBytes ((f.to_.map beBytes).getD []),
        rlpEncodeU128 f.value, rlpEncodeBytes f.input, encodeAccessList f.accessList,
        rlpEncodeU64 (BitVec.ofNat 64 f.signature.yParity.toNat), rlpEncodeWord f.signature.r,
        rlpEncodeWord f.signature.s] := by
  simp only [takeTypedRest, run_bind_eq_ok, run_ite_throw_eq_ok, run_get_eq_ok,
    run_pure_eq_ok] at hrun
  obtain ⟨gas, s₁, hgas, to_, s₂, hto, value, s₃, hvalue, input, s₄, hinput, -, accessList, s₅,
    haccess, y, s₆, hy, hparity, r, s₇, hr, s, s₈, hs, rest', s₉, ⟨rfl, rfl⟩, hend, rfl, rfl⟩ := hrun
  obtain ⟨i₁, fs₁, rfl, rfl, hi₁, hlt₁⟩ := reads_u64.cons hlt hgas
  obtain ⟨i₂, fs₂, rfl, rfl, rfl, hlt₂⟩ := reads_optionalAddress.cons hlt₁ hto
  obtain ⟨i₃, fs₃, rfl, rfl, hi₃, hlt₃⟩ := reads_u128.cons hlt₂ hvalue
  obtain ⟨i₄, fs₄, rfl, rfl, rfl, hlt₄⟩ := reads_bytes.cons hlt₃ hinput
  obtain ⟨i₅, fs₅, rfl, rfl, rfl, hlt₅⟩ := reads_accessList.cons hlt₄ haccess
  obtain ⟨i₆, fs₆, rfl, rfl, hi₆, hlt₆⟩ := reads_u64.cons hlt₅ hy
  obtain ⟨i₇, fs₇, rfl, rfl, hi₇, hlt₇⟩ := reads_word.cons hlt₆ hr
  obtain ⟨i₈, fs₈, rfl, rfl, hi₈, hlt₈⟩ := reads_word.cons hlt₇ hs
  obtain rfl := encodeItems_eq_nil (not_not.mp hend)
  simp only [List.mem_cons, List.not_mem_nil, or_false, forall_eq_or_imp, forall_eq] at hmin
  obtain ⟨h₁, h₃, h₆, h₇, h₈⟩ := hmin
  simp only [List.map_cons, List.map_nil, rlpEncodeU64, rlpEncodeU128, rlpEncodeWord,
    ofNat_toNat_beq_one hparity, rlpEncodeUint_of_minimal rfl hi₁ (h₁ _ rfl),
    rlpEncodeUint_of_minimal rfl hi₃ (h₃ _ rfl), rlpEncodeUint_of_minimal rfl hi₆ (h₆ _ rfl),
    rlpEncodeUint_of_minimal rfl hi₇ (h₇ _ rfl), rlpEncodeUint_of_minimal rfl hi₈ (h₈ _ rfl),
    encodeAccessList_eq, rlpEncodeBytes, Item.encode]

variable {O : Oracle}

theorem verifyTransactionSignature_of (hsig : tx.signature = some signature)
    (hlow : rejectHighSSignature O signature = .ok ())
    (hpayload : transactionSigningPayload tx = .ok payload)
    (hsigner : recoverSigner O signature payload = .ok tx.from_)
    (hexternal : tx.externalHash = some (O.keccak256 raw))
    (hwire : transactionSignedBytes tx = .ok raw) : verifyTransactionSignature O tx = .ok () := by
  unfold verifyTransactionSignature
  simp only [hsig, hlow, hpayload, hsigner, hexternal, hwire, ok_bind, ne_eq, not_true_eq_false,
    if_false]
  rfl

/-- What every accepted encoding yields: a low `s`, and the sender recovered from the fields
as they were received. -/
structure Accepted (O : Oracle) (raw signingPayload : Bytes) (tx : Transaction) : Prop where
  signed : ∃ signature, tx.signature = some signature ∧
    rejectHighSSignature O signature = .ok () ∧
    recoverSigner O signature signingPayload = .ok tx.from_
  external : tx.externalHash = some (O.keccak256 raw)

theorem Accepted.verify {signingPayload : Bytes} (h : Accepted O raw signingPayload tx)
    (hpayload : transactionSigningPayload tx = .ok signingPayload)
    (hwire : transactionSignedBytes tx = .ok raw) : verifyTransactionSignature O tx = .ok () := by
  obtain ⟨signature, hsig, hlow, hsigner⟩ := h.signed
  exact verifyTransactionSignature_of hsig hlow hpayload hsigner h.external hwire

theorem decodeRlpList_fields (hlt : (encodeItems fields).length < 2 ^ 64)
    (h : decodeRlpList (Item.list fields).encode = .ok payload) : payload = encodeItems fields := by
  obtain ⟨items, hitems, rfl⟩ := @rlpDecodeList_canonical _ (.list fields) hlt h
  rw [Item.list.inj hitems]

theorem encodeTypedSigningPayload_canonical {type : UInt8}
    (hlt : (encodeItems fields).length < 2 ^ 64)
    (h : encodeTypedSigningPayload (encodeItems fields) count type = .ok payload) :
    payload = encodeTypedRlp type ((fields.take count).map Item.encode).flatten := by
  simp only [encodeTypedSigningPayload, throw_bind, ite_throw_eq_ok, bind_eq_ok, pure_eq_ok,
    Prod.exists, takeFrom_eq_ok] at h
  obtain ⟨raws, rest, hraws, -, rfl⟩ := h
  obtain ⟨taken, fields', rfl, rfl, rfl, rfl, -⟩ := rlpTakeRaws_canonical hlt hraws
  rw [List.take_left]

theorem flatten_map_encode (items : List Item) :
    (items.map Item.encode).flatten = encodeItems items := by
  have hmap := encodeItems_map id items
  rw [List.map_id] at hmap
  exact hmap.symm

theorem typed_of_fields {type : UInt8} {signing : Bytes} (htype : type = 1 ∨ type = 2)
    (htx : tx.transactionType = type) (hsig : tx.signature = some signature)
    (hwrites : fields.map Item.encode = tx.signedFields ++
      [rlpEncodeU64 (BitVec.ofNat 64 signature.yParity.toNat), rlpEncodeWord signature.r,
        rlpEncodeWord signature.s]) (hcount : tx.signedFields.length = count)
    (hsigning : signing = encodeTypedRlp type ((fields.take count).map Item.encode).flatten)
    (haccepted : Accepted O (type :: (Item.list fields).encode) signing tx) :
    transactionSignedBytes tx = .ok (type :: (Item.list fields).encode) ∧
      verifyTransactionSignature O tx = .ok () := by
  have hsigned : (fields.take count).map Item.encode = tx.signedFields := by
    rw [List.map_take, hwrites, ← hcount, List.take_left]
  have hwire : transactionSignedBytes tx = .ok (type :: (Item.list fields).encode) := by
    unfold transactionSignedBytes
    simp only [hsig, htx]
    rcases htype with rfl | rfl <;>
      simp only [← hwrites, flatten_map_encode, encodeTypedRlp, Item.encode] <;> rfl
  have hpayload : transactionSigningPayload tx = .ok signing := by
    unfold transactionSigningPayload
    simp only [htx, hsigning, hsigned]
    rcases htype with rfl | rfl <;> rfl
  exact ⟨hwire, haccepted.verify hpayload hwire⟩

theorem decodeEip1559_of_canonical (hlt : (encodeItems fields).length < 2 ^ 64)
    (hmin : ∀ i ∈ [0, 1, 2, 3, 4, 6, 9, 10, 11], ∀ item, fields[i]? = some item → item.Minimal)
    (h : decodeEip1559Transaction O (0x02 :: (Item.list fields).encode) = .ok tx) :
    transactionSignedBytes tx = .ok (0x02 :: (Item.list fields).encode) ∧
      verifyTransactionSignature O tx = .ok () := by
  simp only [decodeEip1559Transaction, List.drop_succ_cons, List.drop_zero, bind_eq_ok,
    pure_eq_ok, Prod.exists, takeFrom_eq_ok, finishTyped, run_bind_eq_ok, run_pure_eq_ok,
    run_runExcept_eq_ok, Prod.mk.injEq] at h
  obtain ⟨payload, hlist, signing, hsigning, chainId, nonce, prio, maxFee, f, rest,
    ⟨_, s₁, hchain, ⟨⟩, s₂, ⟨-, rfl⟩, _, s₃, hnonce, _, s₄, hprio, _, s₅, hmax, _, s₆, hrest,
      ⟨rfl, rfl, rfl, rfl, rfl⟩, rfl⟩, ⟨⟩, hlow, signer, hsigner, rfl⟩ := h
  obtain rfl := decodeRlpList_fields hlt hlist
  have hsigning := encodeTypedSigningPayload_canonical hlt hsigning
  obtain ⟨i₁, fs₁, rfl, rfl, hi₁, hlt₁⟩ := reads_u64.cons hlt hchain
  obtain ⟨i₂, fs₂, rfl, rfl, hi₂, hlt₂⟩ := reads_u64.cons hlt₁ hnonce
  obtain ⟨i₃, fs₃, rfl, rfl, hi₃, hlt₃⟩ := reads_u128.cons hlt₂ hprio
  obtain ⟨i₄, fs₄, rfl, rfl, hi₄, hlt₄⟩ := reads_u128.cons hlt₃ hmax
  have hwrites := takeTypedRest_canonical hlt₄ hrest fun i hi item =>
    hmin (i + 4) (by simp at hi ⊢; omega) item
  refine typed_of_fields (Or.inr rfl) rfl rfl ?_ rfl hsigning ⟨⟨_, rfl, hlow, hsigner⟩, rfl⟩
  simp only [List.map_cons, hwrites, ← rlpEncodeUint_of_minimal rfl hi₁ (hmin 0 (by simp) _ rfl),
    ← rlpEncodeUint_of_minimal rfl hi₂ (hmin 1 (by simp) _ rfl),
    ← rlpEncodeUint_of_minimal rfl hi₃ (hmin 2 (by simp) _ rfl),
    ← rlpEncodeUint_of_minimal rfl hi₄ (hmin 3 (by simp) _ rfl)]
  rfl

theorem decodeEip2930_of_canonical (hlt : (encodeItems fields).length < 2 ^ 64)
    (hmin : ∀ i ∈ [0, 1, 2, 3, 5, 8, 9, 10], ∀ item, fields[i]? = some item → item.Minimal)
    (h : decodeEip2930Transaction O (0x01 :: (Item.list fields).encode) = .ok tx) :
    transactionSignedBytes tx = .ok (0x01 :: (Item.list fields).encode) ∧
      verifyTransactionSignature O tx = .ok () := by
  simp only [decodeEip2930Transaction, List.drop_succ_cons, List.drop_zero, bind_eq_ok,
    pure_eq_ok, Prod.exists, takeFrom_eq_ok, finishTyped, run_bind_eq_ok, run_pure_eq_ok,
    run_runExcept_eq_ok, Prod.mk.injEq] at h
  obtain ⟨payload, hlist, signing, hsigning, chainId, nonce, gasPrice, f, rest,
    ⟨_, s₁, hchain, ⟨⟩, s₂, ⟨-, rfl⟩, _, s₃, hnonce, _, s₄, hprice, _, s₅, hrest,
      ⟨rfl, rfl, rfl, rfl⟩, rfl⟩, ⟨⟩, hlow, signer, hsigner, rfl⟩ := h
  obtain rfl := decodeRlpList_fields hlt hlist
  have hsigning := encodeTypedSigningPayload_canonical hlt hsigning
  obtain ⟨i₁, fs₁, rfl, rfl, hi₁, hlt₁⟩ := reads_u64.cons hlt hchain
  obtain ⟨i₂, fs₂, rfl, rfl, hi₂, hlt₂⟩ := reads_u64.cons hlt₁ hnonce
  obtain ⟨i₃, fs₃, rfl, rfl, hi₃, hlt₃⟩ := reads_u128.cons hlt₂ hprice
  have hwrites := takeTypedRest_canonical hlt₃ hrest fun i hi item =>
    hmin (i + 3) (by simp at hi ⊢; omega) item
  refine typed_of_fields (Or.inl rfl) rfl rfl ?_ rfl hsigning ⟨⟨_, rfl, hlow, hsigner⟩, rfl⟩
  simp only [List.map_cons, hwrites, ← rlpEncodeUint_of_minimal rfl hi₁ (hmin 0 (by simp) _ rfl),
    ← rlpEncodeUint_of_minimal rfl hi₂ (hmin 1 (by simp) _ rfl),
    ← rlpEncodeUint_of_minimal rfl hi₃ (hmin 2 (by simp) _ rfl)]
  rfl

/-! ## Legacy transactions -/

theorem decodeField_canonical {α : Type} {reader : RlpReader α} {P : Item → α → Prop}
    (hreads : Reads reader P) {trailing : String} {a : α} (hlt : item.payload.length < 2 ^ 64)
    (h : decodeField reader trailing item.encode = .ok a) : P item a := by
  simp only [decodeField, throw_bind, ite_throw_eq_ok, bind_eq_ok, pure_eq_ok, Prod.exists,
    takeFrom_eq_ok] at h
  obtain ⟨_, rest, hrun, -, rfl⟩ := h
  rw [← List.append_nil item.encode] at hrun
  exact (hreads.2 item [] _ rest hlt hrun).2

theorem legacyV_splitLegacyV {v chainId : U64} {yParity : Bool}
    (h : splitLegacyV v = .ok (chainId, yParity)) (hchain : chainId = mainnetChainId) :
    legacyV chainId yParity = v := by
  simp only [splitLegacyV, ite_throw_eq_ok, ite_else_throw_eq_ok, pure_eq_ok, Prod.mk.injEq] at h
  obtain ⟨-, hv, rfl, rfl⟩ := h
  have hsub : (v - 35).toNat = v.toNat - 35 := BitVec.toNat_sub_of_le (BitVec.le_def.mpr hv)
  have hhalf : (v.toNat - 35) / 2 = 707070 := by
    rw [← hsub]
    exact (BitVec.toNat_udiv).symm.trans (congrArg BitVec.toNat hchain)
  -- the chain leaves two values, one for each parity
  have hcases : v.toNat = 1414175 ∨ v.toNat = 1414176 := by omega
  rcases hcases with hv | hv
  · obtain rfl : v = 1414175 := BitVec.eq_of_toNat_eq hv
    decide
  · obtain rfl : v = 1414176 := BitVec.eq_of_toNat_eq hv
    decide

theorem decodeLegacyFields_canonical {i₀ i₁ i₂ i₃ i₄ i₅ : Item} {f : LegacyFields}
    (hlt : ∀ item ∈ [i₀, i₁, i₂, i₃, i₄, i₅], item.payload.length < 2 ^ 64)
    (h : decodeLegacyFields ([i₀, i₁, i₂, i₃, i₄, i₅].map Item.encode) = .ok f) :
    ReadsUint 64 i₀ f.nonce ∧ ReadsUint 128 i₁ f.gasPrice ∧ ReadsUint 64 i₂ f.gasLimit ∧
      Item.str ((f.to_.map beBytes).getD []) = i₃ ∧ ReadsUint 128 i₄ f.value ∧
      i₅ = .str f.input := by
  simp only [List.mem_cons, List.not_mem_nil, or_false, forall_eq_or_imp, forall_eq] at hlt
  obtain ⟨l₀, l₁, l₂, l₃, l₄, l₅⟩ := hlt
  simp only [decodeLegacyFields, List.map_cons, List.map_nil, List.getD_cons_zero,
    List.getD_cons_succ, throw_bind, ite_throw_eq_ok, bind_eq_ok, pure_eq_ok] at h
  obtain ⟨nonce, hnonce, gasPrice, hprice, gasLimit, hlimit, to_, hto, value, hvalue, input, hinput,
    -, rfl⟩ := h
  exact ⟨decodeField_canonical reads_u64 l₀ hnonce, decodeField_canonical reads_u128 l₁ hprice,
    decodeField_canonical reads_u64 l₂ hlimit, decodeField_canonical reads_optionalAddress l₃ hto,
    decodeField_canonical reads_u128 l₄ hvalue, decodeField_canonical reads_bytes l₅ hinput⟩

theorem payload_length_lt_of_mem (h : item ∈ items) (hlt : (encodeItems items).length < 2 ^ 64) :
    item.payload.length < 2 ^ 64 := by
  induction items with
  | nil => cases h
  | cons first items ih =>
    rw [encodeItems, List.length_append] at hlt
    rcases List.mem_cons.mp h with rfl | h
    · have hle := payload_length_le item
      omega
    · exact ih h (by omega)

theorem legacy_of_fields {taken rest : List Item} (htx : tx.transactionType = 0)
    (hsig : tx.signature = some signature)
    (hwrites : (taken ++ rest).map Item.encode = tx.signedFields ++
      [rlpEncodeU64 (legacyV tx.chainId signature.yParity), rlpEncodeWord signature.r,
        rlpEncodeWord signature.s]) (hcount : taken.length = tx.signedFields.length)
    (haccepted : Accepted O (Item.list (taken ++ rest)).encode (encodeRlpList
      (taken.map Item.encode ++ [rlpEncodeU64 tx.chainId, rlpEncodeBytes [], rlpEncodeBytes []])) tx) :
    transactionSignedBytes tx = .ok (Item.list (taken ++ rest)).encode ∧
      verifyTransactionSignature O tx = .ok () := by
  have hsigned : taken.map Item.encode = tx.signedFields := by
    have hsplit := hwrites
    rw [List.map_append] at hsplit
    exact (List.append_inj hsplit (by rw [List.length_map, hcount])).1
  have hwire : transactionSignedBytes tx = .ok (Item.list (taken ++ rest)).encode := by
    unfold transactionSignedBytes
    simp only [hsig, htx, ← hwrites, encodeRlpList, flatten_map_encode, Item.encode]
    rfl
  have hpayload : transactionSigningPayload tx = .ok (encodeRlpList (taken.map Item.encode ++
      [rlpEncodeU64 tx.chainId, rlpEncodeBytes [], rlpEncodeBytes []])) := by
    unfold transactionSigningPayload
    simp only [htx, hsigned]
    rfl
  exact ⟨hwire, haccepted.verify hpayload hwire⟩

theorem exists_of_length_eq_six {α : Type} : ∀ {l : List α}, l.length = 6 →
    ∃ a b c d e f, l = [a, b, c, d, e, f]
  | [a, b, c, d, e, f], _ => ⟨a, b, c, d, e, f, rfl⟩

theorem decodeLegacy_of_canonical (hlt : (encodeItems fields).length < 2 ^ 64)
    (hmin : ∀ i ∈ [0, 1, 2, 4, 6, 7, 8], ∀ item, fields[i]? = some item → item.Minimal)
    (h : decodeLegacyTransaction O (Item.list fields).encode = .ok tx) :
    transactionSignedBytes tx = .ok (Item.list fields).encode ∧
      verifyTransactionSignature O tx = .ok () := by
  simp only [decodeLegacyTransaction, bind_eq_ok, pure_eq_ok, Prod.exists, takeFrom_eq_ok,
    run_bind_eq_ok, run_pure_eq_ok, run_ite_throw_eq_ok, run_get_eq_ok, run_runExcept_eq_ok,
    Prod.mk.injEq] at h
  obtain ⟨payload, hlist, raws, legacy, v, r, s, rest,
    ⟨_, s₁, hraws, _, s₂, ⟨hlegacy, rfl⟩, _, s₃, hv, _, s₄, hr, _, s₅, hs, _, s₆, ⟨rfl, rfl⟩, hend,
      ⟨rfl, rfl, rfl, rfl, rfl⟩, rfl⟩, chainId, yParity, hsplit, ⟨⟩, hchain, ⟨⟩, hlow, signer,
    hsigner, rfl⟩ := h
  obtain rfl := decodeRlpList_fields hlt hlist
  obtain ⟨taken, fs, rfl, htaken, rfl, rfl, hlt'⟩ := rlpTakeRaws_canonical hlt hraws
  obtain ⟨i₆, fs₁, rfl, rfl, hi₆, hlt₁⟩ := reads_u64.cons hlt' hv
  obtain ⟨i₇, fs₂, rfl, rfl, hi₇, hlt₂⟩ := reads_word.cons hlt₁ hr
  obtain ⟨i₈, fs₃, rfl, rfl, hi₈, hlt₃⟩ := reads_word.cons hlt₂ hs
  obtain rfl := encodeItems_eq_nil (not_not.mp hend)
  obtain ⟨i₀, i₁, i₂, i₃, i₄, i₅, rfl⟩ := exists_of_length_eq_six htaken
  obtain ⟨hi₀, hi₁, hi₂, rfl, hi₄, rfl⟩ := decodeLegacyFields_canonical
    (fun item hitem => payload_length_lt_of_mem (List.mem_append_left _ hitem) hlt) hlegacy
  simp only [List.mem_cons, List.not_mem_nil, or_false, forall_eq_or_imp, forall_eq] at hmin
  obtain ⟨h₀, h₁, h₂, h₄, h₆, h₇, h₈⟩ := hmin
  have hmainnet : chainId = mainnetChainId := by
    simpa [validateRawChainId] using hchain
  have hlegacyV := legacyV_splitLegacyV hsplit hmainnet
  refine legacy_of_fields rfl rfl ?_ rfl ⟨⟨_, rfl, hlow, hsigner⟩, rfl⟩
  simp only [List.cons_append, List.nil_append, List.map_cons, List.map_nil, hlegacyV,
    ← rlpEncodeUint_of_minimal rfl hi₀ (h₀ _ rfl), ← rlpEncodeUint_of_minimal rfl hi₁ (h₁ _ rfl),
    ← rlpEncodeUint_of_minimal rfl hi₂ (h₂ _ rfl), ← rlpEncodeUint_of_minimal rfl hi₄ (h₄ _ rfl),
    ← rlpEncodeUint_of_minimal rfl hi₆ (h₆ _ rfl), ← rlpEncodeUint_of_minimal rfl hi₇ (h₇ _ rfl),
    ← rlpEncodeUint_of_minimal rfl hi₈ (h₈ _ rfl), Item.encode]
  rfl

/-! ## Canonical encodings -/

/-- The positions of the integers and signature scalars among the fields, by the first byte
of the raw transaction. -/
def integerFields (first : UInt8) : List ℕ :=
  if first = 0x01 then [0, 1, 2, 3, 5, 8, 9, 10]
  else if first = 0x02 then [0, 1, 2, 3, 4, 6, 9, 10, 11]
  else [0, 1, 2, 4, 6, 7, 8]

/-- Behind its type byte, if it has one, a raw transaction is the canonical encoding of a list
of fields, and no integer or scalar among them starts with a zero byte. -/
def CanonicalRaw : Bytes → Prop
  | [] => False
  | first :: rest => ∃ fields,
    (if first = 0x01 ∨ first = 0x02 then rest else first :: rest) = (Item.list fields).encode ∧
      ∀ i ∈ integerFields first, ∀ item, fields[i]? = some item → item.Minimal

def uintItem {w : ℕ} (v : BitVec w) : Item := .str (stripZeros (beBytes v))

theorem minimal_uintItem (v : BitVec w) : (uintItem v).Minimal := head?_stripZeros _

def Transaction.fieldItems (t : Transaction) : List Item :=
  match t.transactionType with
  | 0 => [uintItem t.nonce, uintItem t.maxFeePerGas, uintItem t.gasLimit, .str t.recipient,
      uintItem t.value, .str t.payload]
  | 1 => [uintItem t.chainId, uintItem t.nonce, uintItem t.maxFeePerGas, uintItem t.gasLimit,
      .str t.recipient, uintItem t.value, .str t.payload, accessListItem t.accessList]
  | _ => [uintItem t.chainId, uintItem t.nonce, uintItem t.maxPriorityFeePerGas,
      uintItem t.maxFeePerGas, uintItem t.gasLimit, .str t.recipient, uintItem t.value,
      .str t.payload, accessListItem t.accessList]

theorem signedFields_eq (t : Transaction) : t.signedFields = t.fieldItems.map Item.encode := by
  unfold Transaction.signedFields Transaction.fieldItems
  repeat' split
  all_goals
    simp_all [rlpEncodeU64, rlpEncodeU128, rlpEncodeUint_eq, rlpEncodeBytes, uintItem,
      encodeAccessList_eq, Item.encode]

theorem length_lengthBytes_le (len : ℕ) : (lengthBytes len).length ≤ 8 :=
  (List.dropWhile_suffix _).length_le.trans (length_toBeBytes ..).le

theorem encode_list_cons (fields : List Item) :
    ∃ first rest, (Item.list fields).encode = first :: rest ∧ 0xc0 ≤ first.toNat := by
  rw [Item.encode, encodeList, header]
  split
  · next hshort =>
    refine ⟨_, _, rfl, ?_⟩
    rw [UInt8.toNat_add, UInt8.toNat_ofNat']
    show _ ≤ (192 + _) % 256
    omega
  · refine ⟨_, _, rfl, ?_⟩
    have hle := length_lengthBytes_le (encodeItems fields).length
    rw [UInt8.toNat_add, UInt8.toNat_ofNat']
    show _ ≤ (247 + _) % 256
    omega

theorem map_encode_signed (tx : Transaction) (v : U64) (r s : Hash256) :
    tx.signedFields ++ [rlpEncodeU64 v, rlpEncodeWord r, rlpEncodeWord s] =
      (tx.fieldItems ++ [uintItem v, uintItem r, uintItem s]).map Item.encode := by
  rw [signedFields_eq, List.map_append, rlpEncodeU64, rlpEncodeWord, rlpEncodeWord,
    rlpEncodeUint_eq, rlpEncodeUint_eq, rlpEncodeUint_eq]
  rfl

/-- **What is written is canonical.** -/
theorem canonicalRaw_of_signedBytes (h : transactionSignedBytes tx = .ok raw) :
    CanonicalRaw raw := by
  unfold transactionSignedBytes at h
  cases hsig : tx.signature with
  | none => simp [hsig] at h
  | some signature =>
    simp only [hsig, map_encode_signed, encodeRlpList, encodeTypedRlp, flatten_map_encode] at h
    split at h
    · next htype =>
      -- legacy: the first byte is the header of the list
      obtain rfl := pure_eq_ok.mp h
      let items := tx.fieldItems ++ [uintItem (legacyV tx.chainId signature.yParity),
        uintItem signature.r, uintItem signature.s]
      obtain ⟨first, rest, hcons, hfirst⟩ := encode_list_cons items
      have hne : ¬ (first = 1 ∨ first = 2) := by
        rintro (rfl | rfl) <;> simp at hfirst
      have hraw : encodeList (encodeItems items) = first :: rest := by
        rw [← hcons, Item.encode]
      show CanonicalRaw (encodeList (encodeItems items))
      rw [hraw]
      refine ⟨items, by rw [if_neg hne, hcons], ?_⟩
      rw [not_or] at hne
      simp [items, integerFields, hne.1, hne.2, Transaction.fieldItems, htype, minimal_uintItem]
    · next htype =>
      obtain rfl := pure_eq_ok.mp h
      refine ⟨_, by rw [if_pos (Or.inl rfl), Item.encode], ?_⟩
      simp [integerFields, Transaction.fieldItems, htype, minimal_uintItem]
    · next htype =>
      obtain rfl := pure_eq_ok.mp h
      refine ⟨_, by rw [if_pos (Or.inr rfl), Item.encode], ?_⟩
      simp [integerFields, Transaction.fieldItems, htype, minimal_uintItem]
    · cases h

theorem CanonicalRaw.of_decoded (hlen : raw.length < 2 ^ 64)
    (hdecode : decodeRawBytes O raw = .ok tx) (hcanonical : CanonicalRaw raw) :
    transactionSignedBytes tx = .ok raw ∧ verifyTransactionSignature O tx = .ok () := by
  cases raw with
  | nil => exact hcanonical.elim
  | cons first rest =>
    obtain ⟨fields, hraw, hmin⟩ := hcanonical
    have hlt : (encodeItems fields).length < 2 ^ 64 := by
      have hle := payload_length_le (.list fields)
      have hrest : (if first = 1 ∨ first = 2 then rest else first :: rest).length ≤
          (first :: rest).length := by
        split <;> simp
      rw [hraw] at hrest
      exact lt_of_le_of_lt (hle.trans hrest) hlen
    simp only [decodeRawBytes] at hdecode
    by_cases h1 : first = 0x01
    · subst h1
      rw [if_pos (Or.inl rfl)] at hraw
      subst hraw
      exact decodeEip2930_of_canonical hlt hmin hdecode
    · rw [if_neg h1] at hdecode
      by_cases h2 : first = 0x02
      · subst h2
        rw [if_pos (Or.inr rfl)] at hraw
        subst hraw
        exact decodeEip1559_of_canonical hlt hmin hdecode
      · rw [if_neg h2, ite_else_throw_eq_ok] at hdecode
        rw [if_neg (by simp [h1, h2])] at hraw
        rw [integerFields, if_neg h1, if_neg h2] at hmin
        rw [hraw] at hdecode ⊢
        exact decodeLegacy_of_canonical hlt hmin hdecode.2

theorem validateBlockTransactionAuth_insert {required : Bool}
    (h : verifyTransactionSignature O tx = .ok ()) (header : BlockHeader)
    (before after : List Transaction) (receipts : List Receipt) :
    validateBlockTransactionAuth O required ⟨header, before ++ tx :: after, receipts⟩ =
      validateBlockTransactionAuth O required ⟨header, before ++ after, receipts⟩ := by
  have htx : validateTransactionAuth O required tx = .ok () := by
    unfold validateTransactionAuth
    split
    · exact h
    · rfl
  show (before ++ tx :: after).forM (validateTransactionAuth O required) =
    (before ++ after).forM (validateTransactionAuth O required)
  rw [List.forM_eq_forM, List.forM_append, List.forM_append, List.forM_cons, htx,
    ok_bind]

/-- **Exactly the canonical encodings are re-encoded to themselves.** A raw transaction that is
accepted is written back byte for byte, passes the signature check and never decides the check of
a block, if and only if it is canonical. A byte string is shorter than `2 ^ 64`. -/
theorem raw_transaction_reencodes_iff (raw : String) (rawBytes : Bytes) (tx : Transaction)
    (hhex : decodeHex raw = .ok rawBytes) (hlen : rawBytes.length < 2 ^ 64)
    (hdecode : decodeRawTransaction O raw = .ok tx) :
    (transactionSignedBytes tx = .ok rawBytes ∧ verifyTransactionSignature O tx = .ok () ∧
      ∀ required header before after receipts,
        validateBlockTransactionAuth O required ⟨header, before ++ tx :: after, receipts⟩ =
          validateBlockTransactionAuth O required ⟨header, before ++ after, receipts⟩) ↔
      CanonicalRaw rawBytes := by
  rw [decodeRawTransaction, hhex, ok_bind] at hdecode
  constructor
  · rintro ⟨hwire, -⟩
    exact canonicalRaw_of_signedBytes hwire
  · intro hcanonical
    obtain ⟨hwire, hverify⟩ := hcanonical.of_decoded hlen hdecode
    exact ⟨hwire, hverify, fun required header before after receipts =>
      validateBlockTransactionAuth_insert hverify header before after receipts⟩

/-! ## A nonce with a header -/

def lengthOracle : Oracle := { zeroOracle with keccak256 := fun bs => BitVec.ofNat 256 bs.length }

def plainNonce : String :=
  "0xe205018252089411111111111111111111111111111111111111110180" ++ "8315941f0101"

def headedNonce : String :=
  "0xe38105018252089411111111111111111111111111111111111111110180" ++ "8315941f0101"

def decodedWith (p : Transaction → Bool) (raw : String) : Bool :=
  match decodeRawTransaction lengthOracle raw with
  | .ok tx => p tx
  | .error _ => false

theorem of_decodedWith (raw : String) (p : Transaction → Bool) (h : decodedWith p raw = true) :
    ∃ tx, decodeRawTransaction lengthOracle raw = .ok tx ∧ p tx = true := by
  unfold decodedWith at h
  split at h
  · next tx htx => exact ⟨tx, htx, h⟩
  · cases h

/-- **A nonce with a header is accepted and then refused in every block.** -/
theorem headed_nonce_is_refused :
    ∃ tx, decodeRawTransaction lengthOracle headedNonce = .ok tx ∧
      (∀ rawBytes, decodeHex headedNonce = .ok rawBytes → transactionSignedBytes tx ≠ .ok rawBytes) ∧
      verifyTransactionSignature lengthOracle tx ≠ .ok () ∧
      validateBlockTransactionAuth lengthOracle false ⟨genesisHeader lengthOracle, [tx], []⟩ ≠
        .ok () := by
  obtain ⟨tx, htx, hp⟩ := of_decodedWith headedNonce (fun tx =>
    (match decodeHex headedNonce, transactionSignedBytes tx with
      | .ok rawBytes, .ok signed => rawBytes != signed
      | _, _ => false) &&
    (verifyTransactionSignature lengthOracle tx matches .error _) &&
    (validateBlockTransactionAuth lengthOracle false ⟨genesisHeader lengthOracle, [tx], []⟩
      matches .error _)) (by decide +kernel)
  simp only [Bool.and_eq_true] at hp
  obtain ⟨⟨hwire, hverify⟩, hblock⟩ := hp
  refine ⟨tx, htx, ?_, ?_, ?_⟩
  · intro rawBytes hraw hsigned
    simp [hraw, hsigned] at hwire
  · intro hok
    simp [hok] at hverify
  · intro hok
    simp [hok] at hblock

theorem raw_transaction_reencodes_plain :
    ∃ rawBytes tx, decodeHex plainNonce = .ok rawBytes ∧ rawBytes.length < 2 ^ 64 ∧
      decodeRawTransaction lengthOracle plainNonce = .ok tx ∧
      transactionSignedBytes tx = .ok rawBytes ∧
      ((transactionSignedBytes tx = .ok rawBytes ∧
        verifyTransactionSignature lengthOracle tx = .ok () ∧
        ∀ required header before after receipts,
          validateBlockTransactionAuth lengthOracle required ⟨header, before ++ tx :: after, receipts⟩ =
            validateBlockTransactionAuth lengthOracle required ⟨header, before ++ after, receipts⟩) ↔
        CanonicalRaw rawBytes) := by
  obtain ⟨tx, htx, hp⟩ := of_decodedWith plainNonce (fun tx =>
    match decodeHex plainNonce, transactionSignedBytes tx with
      | .ok rawBytes, .ok signed => rawBytes == signed && rawBytes.length == 35
      | _, _ => false) (by decide +kernel)
  split at hp
  · next rawBytes signed hraw hsigned =>
    simp only [Bool.and_eq_true, beq_iff_eq] at hp
    have hlen : rawBytes.length < 2 ^ 64 := by omega
    exact ⟨rawBytes, tx, hraw, hlen, htx, by rw [hsigned, hp.1],
      raw_transaction_reencodes_iff plainNonce rawBytes tx hraw hlen htx⟩
  · cases hp

end Blq
