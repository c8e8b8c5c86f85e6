import Blq.Proof.SigningPayload
import Blq.Spec.Eip1559
import Mathlib.Data.List.TakeWhile

/-!
# Signed bytes are read back

The primitives crate and the node write a signed transaction with encoders of their own. Both
write the canonical items of the transaction, and the reader takes exactly these items off again.

* `eip1559SignedBytes_eq`: the two encoders of a type-2 transaction write the same bytes.
* `Takes`: a field reader gives back the value an item was written from, one lemma for each
  reader.
* `signed_bytes_round_trip`: reading the signed bytes of a transaction returns it, with the hash
  of these bytes.
-/

namespace Blq

open Word Result Rlp

/-! ## Two encoders -/

/-- **The bytes of a length, collected from the lowest one on.** -/
theorem reverse_eip1559LenBytes {n v : ℕ} (h : v < 256 ^ n) :
    (eip1559LenBytes n v).reverse = stripZeros (toBeBytes n v) := by
  induction n generalizing v with
  | zero => rfl
  | succ n ih =>
    rw [eip1559LenBytes]
    by_cases hpos : v > 0
    · have hdiv : v / 256 < 256 ^ n := by
        rw [pow_succ] at h
        omega
      have hlow : UInt8.ofNat (v &&& 0xff) = UInt8.ofNat v := by
        apply UInt8.toNat_inj.mp
        rw [UInt8.toNat_ofNat', UInt8.toNat_ofNat', Nat.and_two_pow_sub_one_eq_mod v 8]
        omega
      rw [if_pos hpos, List.reverse_cons, Nat.shiftRight_eq_div_pow, ih hdiv, hlow, toBeBytes]
      by_cases hzero : v / 256 = 0
      · -- the lowest byte is the only one
        have hbyte : UInt8.ofNat v ≠ 0 := by
          intro hbyte
          have hnat := congrArg UInt8.toNat hbyte
          rw [UInt8.toNat_ofNat'] at hnat
          simp at hnat
          omega
        have hnil : stripZeros (toBeBytes n (v / 256)) = [] := by
          rw [hzero, stripZeros_toBeBytes_zero]
        simp only [stripZeros] at hnil ⊢
        rw [List.dropWhile_append, hnil]
        simp [hbyte]
      · have hne : stripZeros (toBeBytes n (v / 256)) ≠ [] := by
          intro hnil
          have hvalue := ofBeBytes_stripZeros (toBeBytes n (v / 256))
          rw [hnil, ofBeBytes_nil, ofBeBytes_toBeBytes_of_lt hdiv] at hvalue
          omega
        simp only [stripZeros] at hne ⊢
        rw [List.dropWhile_append, if_neg (by simpa using hne)]
    · obtain rfl : v = 0 := by omega
      rw [if_neg hpos, stripZeros_toBeBytes_zero]
      rfl

theorem eip1559RlpHeader_eq {offset : UInt8} {len : ℕ} (h : len < 2 ^ 64) :
    eip1559RlpHeader offset len = header offset len := by
  unfold eip1559RlpHeader header lengthBytes
  rw [← reverse_eip1559LenBytes (show len < 256 ^ 8 by omega)]

theorem eip1559RlpListPayload_eq {payload : Bytes} (h : payload.length < 2 ^ 64) :
    eip1559RlpListPayload payload = encodeList payload := by
  rw [eip1559RlpListPayload, encodeList, eip1559RlpHeader_eq h]

theorem eip1559RlpBytes_eq {bytes : Bytes} (h : bytes.length < 2 ^ 64) :
    eip1559RlpBytes bytes = rlpEncodeBytes bytes := by
  unfold eip1559RlpBytes rlpEncodeBytes encodeString
  by_cases hsingle : bytes.length = 1 ∧ bytes.headD 0 < 0x80
  · rw [if_pos hsingle, if_pos hsingle]
    obtain ⟨b, rfl⟩ := List.length_eq_one_iff.mp hsingle.1
    rfl
  · rw [if_neg hsingle, if_neg hsingle, eip1559RlpHeader_eq h]

theorem drop_findIdx?_eq_stripZeros {bs : Bytes} {k : ℕ} (h : ∃ b ∈ bs, b ≠ 0) :
    bs.drop ((bs.findIdx? (· ≠ 0)).getD k) = stripZeros bs := by
  have hfound : ∃ b ∈ bs, decide (b ≠ 0) = true := by simpa using h
  have hnonzero : (fun b : UInt8 => !(b == 0)) = fun b => decide (b ≠ 0) := by
    funext b
    rw [decide_not, beq_eq_decide]
  rw [stripZeros, List.dropWhile_eq_drop_findIdx_not, hnonzero,
    List.findIdx?_eq_some_of_exists hfound, Option.getD_some]

variable {w total : ℕ} {accessList : List TransactionAccessListItem} {t : Transaction}
  {signature : TransactionSignature} {item : Item} {items : List Item} {text raw : Bytes}

theorem eip1559RlpUint_eq (hw : w = 8 * (w / 8)) (hlt : w < 2 ^ 64) (v : BitVec w) :
    eip1559RlpUint v = rlpEncodeUint v := by
  unfold eip1559RlpUint rlpEncodeUint
  by_cases hzero : v = 0
  · rw [if_pos hzero, if_pos hzero, eip1559RlpBytes_eq (by decide)]
  · have hbyte : ∃ b ∈ beBytes v, b ≠ 0 := by
      by_contra hnone
      push Not at hnone
      have hstrip : stripZeros (beBytes v) = [] :=
        List.dropWhile_eq_nil_iff.mpr fun b hb => by simp [hnone b hb]
      have hvalue := ofBeBytes_uint hw v
      rw [hstrip, ofBeBytes_nil] at hvalue
      exact hzero (BitVec.eq_of_toNat_eq hvalue.symm)
    have hlen : (stripZeros (beBytes v)).length < 2 ^ 64 := by
      have hle := (List.dropWhile_suffix (· == (0 : UInt8)) (l := beBytes v)).length_le
      rw [beBytes, length_toBeBytes] at hle
      simp only [stripZeros, beBytes]
      omega
    rw [if_neg hzero, if_neg hzero]
    show eip1559RlpBytes (List.drop _ (beBytes v)) = _
    rw [drop_findIdx?_eq_stripZeros hbyte, eip1559RlpBytes_eq hlen]

theorem eip1559RlpList_eq {fields : List Bytes} (h : fields.flatten.length < 2 ^ 64) :
    eip1559RlpList fields = encodeRlpList fields := by
  rw [eip1559RlpList, eip1559RlpListPayload_eq h, encodeRlpList]

theorem eip1559EncodeAccessList_eq (hlt : (accessListItem accessList).payload.length < 2 ^ 64) :
    eip1559EncodeAccessList accessList = encodeAccessList accessList := by
  have hentry : ∀ item ∈ accessList,
      eip1559RlpList [eip1559RlpBytes (beBytes item.address),
        eip1559RlpList (item.storageKeys.map fun key => eip1559RlpBytes (beBytes key))] =
      (accessEntryItem item).encode := by
    intro item hitem
    -- everything inside the list is shorter than the list
    have hpayload := payload_length_lt_of_mem (List.mem_map_of_mem hitem) hlt
    have hkeysLt : (Item.list (item.storageKeys.map storageKeyItem)).payload.length < 2 ^ 64 :=
      payload_length_lt_of_mem (by simp) hpayload
    have hkeys : eip1559RlpList (item.storageKeys.map fun key => eip1559RlpBytes (beBytes key)) =
        (Item.list (item.storageKeys.map storageKeyItem)).encode := by
      have hmap : (item.storageKeys.map fun key => eip1559RlpBytes (beBytes key)) =
          item.storageKeys.map fun key => (storageKeyItem key).encode := by
        refine List.map_congr_left fun key _ => ?_
        rw [eip1559RlpBytes_eq (by simp [beBytes]), storageKeyItem, Item.encode, rlpEncodeBytes]
      rw [hmap, eip1559RlpList_eq (by rwa [← encodeItems_map]), encodeRlpList, ← encodeItems_map,
        Item.encode]
    rw [hkeys, eip1559RlpBytes_eq (by simp [beBytes])]
    have hflat : [rlpEncodeBytes (beBytes item.address),
        (Item.list (item.storageKeys.map storageKeyItem)).encode].flatten =
        encodeItems [.str (beBytes item.address), .list (item.storageKeys.map storageKeyItem)] := by
      simp [encodeItems, Item.encode, rlpEncodeBytes]
    rw [eip1559RlpList_eq (hflat ▸ hpayload), encodeRlpList, hflat, accessEntryItem, Item.encode]
  rw [eip1559EncodeAccessList, List.map_congr_left hentry, encodeAccessList_eq, accessListItem,
    eip1559RlpList_eq (by rwa [← encodeItems_map]), encodeRlpList, ← encodeItems_map, Item.encode]

/-- The items of a whole signed transaction, with the parity as its type writes it. -/
def Transaction.wireItems (t : Transaction) (v : U64) (signature : TransactionSignature) : List Item :=
  t.fieldItems ++ [uintItem v, uintItem signature.r, uintItem signature.s]

abbrev parityWord (signature : TransactionSignature) : U64 := BitVec.ofNat 64 signature.yParity.toNat

theorem length_wireItems_lt (htype : ¬ t.transactionType > 2)
    (hpayload : t.payload.length ≤ maxTransactionPayloadBytes)
    (haccess : accessListTooLarge t.accessList = false) (v : U64)
    (signature : TransactionSignature) : (encodeItems (t.wireItems v signature)).length < 2 ^ 64 := by
  refine length_fieldItems_lt htype hpayload haccess le_rfl ?_
  have hv := (length_uintItem_le v).trans (show 64 / 8 ≤ 32 by decide)
  simp [hv, (length_uintItem_le signature.r).trans, (length_uintItem_le signature.s).trans]

/-- **Both encoders write the same bytes.** -/
theorem eip1559SignedBytes_eq (htype : t.transactionType = 2) (hsig : t.signature = some signature)
    (hpayload : t.payload.length ≤ maxTransactionPayloadBytes)
    (haccess : accessListTooLarge t.accessList = false) :
    eip1559SignedBytes t = transactionSignedBytes t := by
  have hmax : maxTransactionPayloadBytes = 131072 := rfl
  have hrecipient := length_recipient_le t
  have hlist := length_accessListItem_le haccess
  have h64 : ∀ v : U64, eip1559RlpU64 v = rlpEncodeU64 v := eip1559RlpUint_eq rfl (by decide)
  have h128 : ∀ v : U128, eip1559RlpU128 v = rlpEncodeU128 v := eip1559RlpUint_eq rfl (by decide)
  have h256 : ∀ v : Hash256, eip1559RlpWord v = rlpEncodeWord v :=
    eip1559RlpUint_eq rfl (by decide)
  have hfields : eip1559Fields t = t.signedFields := by
    simp only [eip1559Fields, Transaction.signedFields, htype, h64, h128,
      eip1559RlpBytes_eq (show t.recipient.length < 2 ^ 64 by omega),
      eip1559RlpBytes_eq (show t.payload.length < 2 ^ 64 by omega),
      eip1559EncodeAccessList_eq (show (accessListItem t.accessList).payload.length < 2 ^ 64 by
        omega)]
    rfl
  have hlt := length_wireItems_lt (t := t) (by rw [htype]; decide) hpayload haccess
    (parityWord signature) signature
  rw [Transaction.wireItems, ← flatten_map_encode, ← map_encode_signed] at hlt
  simp only [eip1559SignedBytes, transactionSignedBytes, htype, hsig, hfields, h64, h256,
    eip1559TypedRlp, eip1559RlpListPayload_eq hlt, encodeTypedRlp]
  rfl

/-! ## Reading an item back -/

/-- A reader takes an item off any input and returns the value. -/
def Takes {α : Type} (reader : RlpReader α) (item : Item) (a : α) : Prop :=
  ∀ rest, reader.run (item.encode ++ rest) = .ok a rest

theorem Takes.cons {α : Type} {reader : RlpReader α} {a : α} (h : Takes reader item a)
    (items : List Item) : reader.run (encodeItems (item :: items)) = .ok a (encodeItems items) := by
  rw [encodeItems]
  exact h _

theorem Takes.single {α : Type} {reader : RlpReader α} {a : α} (h : Takes reader item a) :
    reader.run item.encode = .ok a [] := by
  have hrun := h []
  rwa [List.append_nil] at hrun

theorem Takes.bind {α β : Type} {reader : RlpReader α} {a : α} {f : α → RlpReader β} {b : β}
    (h : Takes reader item a) (hf : ∀ rest, (f a).run rest = .ok b rest) :
    Takes (reader >>= f) item b := fun rest => run_bind_eq_ok.mpr ⟨a, rest, h rest, hf rest⟩

theorem takes_bytes {bs : Bytes} (h : bs.length < 2 ^ 64) : Takes rlpTakeBytes (.str bs) bs :=
  Takes.bind (rlpTakeItem_encode (.str bs) h) fun _ => rfl

theorem length_stripZeros_beBytes_le (v : BitVec w) :
    (stripZeros (beBytes v)).length ≤ w / 8 := length_uintItem_le v

theorem takes_uint (hw : w = 8 * (w / 8)) (h128 : w ≤ 128) (v : BitVec w) :
    Takes rlpTakeU128 (uintItem v) (BitVec.ofNat 128 v.toNat) := by
  have hlen := length_stripZeros_beBytes_le v
  have hlong : ¬ (stripZeros (beBytes v)).length > 16 := by omega
  have hzero : ¬ ((stripZeros (beBytes v)).length > 1 ∧
      (stripZeros (beBytes v)).head? = some 0) := fun h => head?_stripZeros _ h.2
  refine (takes_bytes (by omega)).bind fun rest => ?_
  rw [if_neg hlong, if_neg hzero, ofBeBytes_uint hw]
  rfl

theorem takes_u128 (v : U128) : Takes rlpTakeU128 (uintItem v) v := by
  have htakes := takes_uint rfl le_rfl v
  rwa [ofNat_toNat] at htakes

theorem takes_u64 (v : U64) : Takes rlpTakeU64 (uintItem v) v := by
  have hlt := v.isLt
  have hvalue : (BitVec.ofNat 128 v.toNat).toNat = v.toNat := by
    rw [toNat_ofNat_of_lt (by omega)]
  have hfits : ¬ (BitVec.ofNat 128 v.toNat).toNat ≥ 2 ^ 64 := by omega
  refine (takes_uint rfl (by decide) v).bind fun rest => ?_
  have hback : (BitVec.ofNat 128 v.toNat).setWidth 64 = v := by
    apply BitVec.eq_of_toNat_eq
    rw [BitVec.toNat_setWidth, hvalue, Nat.mod_eq_of_lt hlt]
  rw [if_neg hfits, hback]
  rfl

theorem takes_word (v : Hash256) : Takes rlpTakeWord (uintItem v) v := by
  have hlen := length_stripZeros_beBytes_le v
  have hlong : ¬ (stripZeros (beBytes v)).length > 32 := by omega
  refine (takes_bytes (by omega)).bind fun rest => ?_
  rw [if_neg hlong, ofBeBytes_uint rfl, ofNat_toNat]
  rfl

theorem ofNat_ofBeBytes_beBytes (hw : w = 8 * (w / 8)) (v : BitVec w) :
    BitVec.ofNat w (ofBeBytes (beBytes v)) = v := by
  rw [ofBeBytes_beBytes hw, ofNat_toNat]

theorem takes_optionalAddress (to_ : Option Address) :
    Takes rlpTakeOptionalAddress (.str ((to_.map beBytes).getD [])) to_ := by
  cases to_ with
  | none => exact (takes_bytes (by decide)).bind fun _ => rfl
  | some address =>
    have hlen : (beBytes address).length = 20 := by simp [beBytes]
    refine (takes_bytes (show (beBytes address).length < 2 ^ 64 by omega)).bind fun rest => ?_
    have hne : beBytes address ≠ [] := by
      intro hnil
      rw [hnil] at hlen
      simp at hlen
    rw [if_neg hne, if_neg (not_not.mpr hlen), ofNat_ofBeBytes_beBytes rfl]
    rfl

theorem takes_raw (h : item.payload.length < 2 ^ 64) : Takes rlpTakeRaw item item.encode := by
  intro rest
  simp only [rlpTakeRaw, run_bind_eq_ok, run_get_eq_ok, run_pure_eq_ok]
  refine ⟨_, _, ⟨rfl, rfl⟩, _, _, rlpTakeItem_encode item h rest, _, _, ⟨rfl, rfl⟩, ?_, rfl⟩
  rw [List.length_append, Nat.add_sub_cancel, List.take_left]

theorem run_rlpTakeRaws (rest : List Item) (h : ∀ item ∈ items, item.payload.length < 2 ^ 64) :
    (rlpTakeRaws items.length).run (encodeItems (items ++ rest)) =
      .ok (items.map Item.encode) (encodeItems rest) := by
  induction items with
  | nil => rfl
  | cons item items ih =>
    rw [List.length_cons, rlpTakeRaws]
    simp only [run_bind_eq_ok, run_pure_eq_ok]
    exact ⟨_, _, (takes_raw (h item (by simp))).cons (items ++ rest), _, _,
      ih fun other hother => h other (List.mem_cons_of_mem item hother), rfl, rfl⟩

/-! ## Reading an access list back -/

theorem length_le_length_encodeItems (items : List Item) :
    items.length ≤ (encodeItems items).length := by
  induction items with
  | nil => exact Nat.zero_le _
  | cons item items ih =>
    have hpos := List.length_pos_iff.mpr (encode_ne_nil item)
    rw [encodeItems, List.length_append, List.length_cons]
    omega

theorem encodeItems_cons_ne_nil (item : Item) (items : List Item) :
    encodeItems (item :: items) ≠ [] := fun h => nomatch encodeItems_eq_nil h

theorem rlpTakeStorageKeys_map {fuel count : ℕ} {keys : List Hash256} (hfuel : keys.length ≤ fuel)
    (hcount : count + keys.length ≤ maxAccessListStorageKeysPerEntry)
    (htotal : total + keys.length ≤ maxAccessListStorageKeys) :
    rlpTakeStorageKeys fuel (encodeItems (keys.map storageKeyItem)) count total = .ok keys := by
  -- on the keys: each one takes an item and a unit of fuel, and is counted twice
  induction keys generalizing fuel count total with
  | nil => cases fuel <;> rfl
  | cons key keys ih =>
    rw [List.length_cons] at hfuel hcount htotal
    obtain ⟨fuel, rfl⟩ : ∃ n, fuel = n + 1 := ⟨fuel - 1, by omega⟩
    have hlen : (beBytes key).length = 32 := by simp [beBytes]
    have hroom : ¬ (count ≥ maxAccessListStorageKeysPerEntry ∨ total ≥ maxAccessListStorageKeys) := by
      omega
    rw [List.map_cons, rlpTakeStorageKeys, if_neg (encodeItems_cons_ne_nil _ _)]
    simp only [throw_bind, ite_throw_eq_ok, bind_eq_ok, pure_eq_ok, Prod.exists, takeFrom_eq_ok]
    refine ⟨hroom, beBytes key, encodeItems (keys.map storageKeyItem),
      (takes_bytes (by omega)).cons _, not_not.mpr hlen, keys,
      ih (by omega) (by omega) (by omega), ?_⟩
    rw [ofNat_ofBeBytes_beBytes rfl]

theorem decodeRlpList_encode (hlt : (encodeItems items).length < 2 ^ 64) :
    decodeRlpList (Item.list items).encode = .ok (encodeItems items) := by
  have hrun := rlpTakeItem_encode (.list items) hlt []
  rw [List.append_nil] at hrun
  simp only [decodeRlpList, throw_bind, ite_throw_eq_ok, bind_eq_ok, pure_eq_ok, Prod.exists,
    takeFrom_eq_ok]
  exact ⟨true, _, [], hrun, not_not.mpr rfl, by simp, rfl⟩

theorem decodeAccessListEntry_encode {item : TransactionAccessListItem}
    (hlt : (accessEntryItem item).payload.length < 2 ^ 64)
    (hkeys : item.storageKeys.length ≤ maxAccessListStorageKeysPerEntry)
    (htotal : total + item.storageKeys.length ≤ maxAccessListStorageKeys) :
    decodeAccessListEntry (accessEntryItem item).encode total = .ok item := by
  have hkeysLt : (Item.list (item.storageKeys.map storageKeyItem)).payload.length < 2 ^ 64 :=
    payload_length_lt_of_mem (by simp) hlt
  have hlen : (beBytes item.address).length = 20 := by simp [beBytes]
  have htake := rlpTakeItem_encode (.list (item.storageKeys.map storageKeyItem)) hkeysLt []
  have hfuel := length_le_length_encodeItems (item.storageKeys.map storageKeyItem)
  rw [List.length_map] at hfuel
  simp only [decodeAccessListEntry, throw_bind, ite_throw_eq_ok, bind_eq_ok, pure_eq_ok,
    Prod.exists, takeFrom_eq_ok]
  refine ⟨_, decodeRlpList_encode hlt, beBytes item.address, _, (takes_bytes (by omega)).cons _,
    not_not.mpr hlen, true, _, [], htake, by simp, item.storageKeys,
    rlpTakeStorageKeys_map hfuel (by omega) htotal, ?_⟩
  rw [ofNat_ofBeBytes_beBytes rfl]

theorem decodeAccessListEntries_map {fuel count : ℕ}
    (hlt : (encodeItems (accessList.map accessEntryItem)).length < 2 ^ 64)
    (hfuel : accessList.length ≤ fuel) (hcount : count + accessList.length ≤ maxAccessListEntries)
    (hkeys : ∀ item ∈ accessList, item.storageKeys.length ≤ maxAccessListStorageKeysPerEntry)
    (htotal : total + (accessList.map fun item => item.storageKeys.length).sum ≤
      maxAccessListStorageKeys) :
    decodeAccessListEntries fuel (encodeItems (accessList.map accessEntryItem)) count total =
      .ok accessList := by
  induction accessList generalizing fuel count total with
  | nil => cases fuel <;> rfl
  | cons item accessList ih =>
    rw [List.length_cons] at hfuel hcount
    rw [List.map_cons, List.sum_cons] at htotal
    obtain ⟨fuel, rfl⟩ : ∃ n, fuel = n + 1 := ⟨fuel - 1, by omega⟩
    have hitem := payload_length_lt_of_mem (List.mem_map_of_mem (List.mem_cons_self ..)) hlt
    have hroom : ¬ count ≥ maxAccessListEntries := by omega
    rw [List.map_cons, encodeItems, List.length_append] at hlt
    rw [List.map_cons, decodeAccessListEntries, if_neg (encodeItems_cons_ne_nil _ _)]
    simp only [throw_bind, ite_throw_eq_ok, bind_eq_ok, pure_eq_ok, Prod.exists, takeFrom_eq_ok]
    exact ⟨hroom, _, _, (takes_raw hitem).cons _, item,
      decodeAccessListEntry_encode hitem (hkeys item (by simp)) (by omega), accessList,
      ih (by omega) (by omega) (by omega)
        (fun other hother => hkeys other (List.mem_cons_of_mem item hother)) (by omega), rfl⟩

theorem takes_accessList (h : accessListTooLarge accessList = false) :
    Takes rlpDecodeAccessList (accessListItem accessList) accessList := by
  intro rest
  have hlt := length_accessListItem_le h
  simp only [accessListTooLarge, Bool.or_eq_false_iff, decide_eq_false_iff_not, not_lt,
    List.any_eq_false, decide_eq_true_eq] at h
  obtain ⟨⟨hentries, hkeys⟩, htotal⟩ := h
  have hfuel := length_le_length_encodeItems (accessList.map accessEntryItem)
  rw [List.length_map] at hfuel
  simp only [rlpDecodeAccessList, run_bind_eq_ok, run_ite_throw_eq_ok, run_runExcept_eq_ok]
  exact ⟨_, rest, rlpTakeItem_encode (accessListItem accessList) (by omega) rest, by
    simp [accessListItem, Item.isList], decodeAccessListEntries_map
      (lt_of_le_of_lt hlt (by decide)) hfuel (by omega) hkeys (by omega), rfl⟩

/-! ## Reading a transaction back -/

variable {O : Oracle}

/-- A signed transaction of a known type within the limits, whose sender is the one that its
signature gives. What its type does not write has its default. -/
structure WellSigned (O : Oracle) (t : Transaction) : Prop where
  supported : t.transactionType = 0 ∨ t.transactionType = 1 ∨ t.transactionType = 2
  chain : t.chainId = mainnetChainId
  payload : t.payload.length ≤ maxTransactionPayloadBytes
  accessList : accessListTooLarge t.accessList = false
  legacy : t.transactionType = 0 → t.accessList = []
  priority : t.transactionType ≠ 2 → t.maxPriorityFeePerGas = 0
  signed : ∃ signature text, t.signature = some signature ∧ O.highS signature.s = false ∧
    transactionSigningPayload t = .ok text ∧ recoverSigner O signature text = .ok t.from_

theorem WellSigned.not_unsupported (h : WellSigned O t) : ¬ t.transactionType > 2 := by
  rcases h.supported with h | h | h <;> rw [h] <;> decide

theorem run_takeTypedRest {eip : String} (h : WellSigned O t) :
    (takeTypedRest eip).run (encodeItems [uintItem t.gasLimit, .str t.recipient, uintItem t.value,
      .str t.payload, accessListItem t.accessList, uintItem (parityWord signature),
      uintItem signature.r, uintItem signature.s]) =
      .ok ⟨t.gasLimit, t.to_, t.value, t.payload, t.accessList, signature⟩ [] := by
  have hmax : maxTransactionPayloadBytes = 131072 := rfl
  have hpayload := h.payload
  have hparity : ¬ (parityWord signature).toNat > 1 ∧
      (parityWord signature == 1) = signature.yParity := by
    unfold parityWord
    cases signature.yParity <;> decide
  simp only [takeTypedRest, run_bind_eq_ok, run_ite_throw_eq_ok, run_get_eq_ok, run_pure_eq_ok]
  refine ⟨_, _, (takes_u64 _).cons _, _, _, (takes_optionalAddress t.to_).cons _, _, _,
    (takes_u128 _).cons _, _, _, (takes_bytes (by omega)).cons _, by omega, _, _,
    (takes_accessList h.accessList).cons _, _, _, (takes_u64 _).cons _, hparity.1, _, _,
    (takes_word _).cons _, _, _, (takes_word _).cons _, _, _, ⟨rfl, rfl⟩, not_not.mpr rfl, ?_, rfl⟩
  rw [hparity.2]

theorem encodeTypedSigningPayload_encode {rest : List Item} (type : UInt8)
    (hlt : (encodeItems (items ++ rest)).length < 2 ^ 64) (hrest : rest ≠ []) :
    encodeTypedSigningPayload (encodeItems (items ++ rest)) items.length type =
      .ok (encodeTypedRlp type (encodeItems items)) := by
  simp only [encodeTypedSigningPayload, throw_bind, ite_throw_eq_ok, bind_eq_ok, pure_eq_ok,
    Prod.exists, takeFrom_eq_ok]
  refine ⟨_, _, run_rlpTakeRaws rest fun item hitem =>
    payload_length_lt_of_mem (List.mem_append_left rest hitem) hlt,
    fun hnil => hrest (encodeItems_eq_nil hnil), ?_⟩
  rw [flatten_map_encode]

theorem validateRawChainId_mainnet {chainId : U64} (h : chainId = mainnetChainId) :
    validateRawChainId chainId = .ok () := by
  rw [validateRawChainId, if_neg (not_not.mpr h)]
  rfl

theorem rejectHighSSignature_low (h : O.highS signature.s = false) :
    rejectHighSSignature O signature = .ok () := by
  rw [rejectHighSSignature, if_neg (by simp [h])]
  rfl

theorem decodeField_encode {α : Type} {reader : RlpReader α} {a : α} (h : Takes reader item a)
    (trailing : String) : decodeField reader trailing item.encode = .ok a := by
  simp only [decodeField, throw_bind, ite_throw_eq_ok, bind_eq_ok, pure_eq_ok, Prod.exists,
    takeFrom_eq_ok]
  exact ⟨a, [], h.single, not_not.mpr rfl, rfl⟩

theorem splitLegacyV_legacyV {chainId : U64} (yParity : Bool) (h : chainId = mainnetChainId) :
    splitLegacyV (legacyV chainId yParity) = .ok (chainId, yParity) := by
  rw [h]
  cases yParity <;> rfl

theorem decodeLegacyFields_encode (hpayload : t.payload.length ≤ maxTransactionPayloadBytes) :
    decodeLegacyFields ([uintItem t.nonce, uintItem t.maxFeePerGas, uintItem t.gasLimit,
      .str t.recipient, uintItem t.value, .str t.payload].map Item.encode) =
      .ok ⟨t.nonce, t.maxFeePerGas, t.gasLimit, t.to_, t.value, t.payload⟩ := by
  have hmax : maxTransactionPayloadBytes = 131072 := rfl
  simp only [decodeLegacyFields, List.map_cons, List.map_nil, List.getD_cons_zero,
    List.getD_cons_succ, throw_bind, ite_throw_eq_ok, bind_eq_ok, pure_eq_ok]
  exact ⟨_, decodeField_encode (takes_u64 _) _, _, decodeField_encode (takes_u128 _) _, _,
    decodeField_encode (takes_u64 _) _, _, decodeField_encode (takes_optionalAddress t.to_) _, _,
    decodeField_encode (takes_u128 _) _, _, decodeField_encode (takes_bytes (by omega)) _,
    by omega, rfl⟩

section Signed

variable (h : WellSigned O t) (hsig : t.signature = some signature)
  (hlow : O.highS signature.s = false) (htext : transactionSigningPayload t = .ok text)
  (hsigner : recoverSigner O signature text = .ok t.from_)

include h hsig hlow htext hsigner

theorem decodeEip1559_encode (htype : t.transactionType = 2)
    (hraw : raw = 0x02 :: (Item.list (t.wireItems (parityWord signature) signature)).encode) :
    decodeEip1559Transaction O raw = .ok { t with externalHash := some (O.keccak256 raw) } := by
  have hlt := length_wireItems_lt h.not_unsupported h.payload h.accessList
    (parityWord signature) signature
  have hitems : t.fieldItems = [uintItem t.chainId, uintItem t.nonce,
      uintItem t.maxPriorityFeePerGas, uintItem t.maxFeePerGas, uintItem t.gasLimit,
      .str t.recipient, uintItem t.value, .str t.payload, accessListItem t.accessList] := by
    simp [Transaction.fieldItems, htype]
  have hsigning := encodeTypedSigningPayload_encode 0x02 hlt (by simp)
  -- the signed text is the list of the first nine fields, as the reader rebuilds it
  have htext' : text = encodeTypedRlp 0x02 (encodeItems t.fieldItems) := by
    rw [transactionSigningPayload, htype] at htext
    rw [← flatten_map_encode, ← signedFields_eq]
    exact (pure_eq_ok.mp htext).symm
  rw [← htext', hitems] at hsigning
  rw [Transaction.wireItems, hitems] at hlt
  simp only [decodeEip1559Transaction, bind_eq_ok, pure_eq_ok, Prod.exists, takeFrom_eq_ok,
    finishTyped, run_bind_eq_ok, run_pure_eq_ok, run_runExcept_eq_ok]
  refine ⟨_, ?_, text, hsigning, t.chainId, t.nonce, t.maxPriorityFeePerGas, t.maxFeePerGas, _, [],
    ⟨_, _, (takes_u64 _).cons _, (), _, ⟨validateRawChainId_mainnet h.chain, rfl⟩, _, _,
      (takes_u64 _).cons _, _, _, (takes_u128 _).cons _, _, _, (takes_u128 _).cons _, _, _,
      run_takeTypedRest h, rfl, rfl⟩, (), rejectHighSSignature_low hlow, t.from_, hsigner, ?_⟩
  · rw [hraw, Transaction.wireItems, hitems]
    exact decodeRlpList_encode hlt
  · rw [← htype, ← hsig]

theorem decodeEip2930_encode (htype : t.transactionType = 1)
    (hraw : raw = 0x01 :: (Item.list (t.wireItems (parityWord signature) signature)).encode) :
    decodeEip2930Transaction O raw = .ok { t with externalHash := some (O.keccak256 raw) } := by
  have hlt := length_wireItems_lt h.not_unsupported h.payload h.accessList
    (parityWord signature) signature
  have hitems : t.fieldItems = [uintItem t.chainId, uintItem t.nonce, uintItem t.maxFeePerGas,
      uintItem t.gasLimit, .str t.recipient, uintItem t.value, .str t.payload,
      accessListItem t.accessList] := by
    simp [Transaction.fieldItems, htype]
  have hpriority : t.maxPriorityFeePerGas = 0 := h.priority (by rw [htype]; decide)
  have hsigning := encodeTypedSigningPayload_encode 0x01 hlt (by simp)
  have htext' : text = encodeTypedRlp 0x01 (encodeItems t.fieldItems) := by
    rw [transactionSigningPayload, htype] at htext
    rw [← flatten_map_encode, ← signedFields_eq]
    exact (pure_eq_ok.mp htext).symm
  rw [← htext', hitems] at hsigning
  rw [Transaction.wireItems, hitems] at hlt
  simp only [decodeEip2930Transaction, bind_eq_ok, pure_eq_ok, Prod.exists, takeFrom_eq_ok,
    finishTyped, run_bind_eq_ok, run_pure_eq_ok, run_runExcept_eq_ok]
  refine ⟨_, ?_, text, hsigning, t.chainId, t.nonce, t.maxFeePerGas, _, [],
    ⟨_, _, (takes_u64 _).cons _, (), _, ⟨validateRawChainId_mainnet h.chain, rfl⟩, _, _,
      (takes_u64 _).cons _, _, _, (takes_u128 _).cons _, _, _,
      run_takeTypedRest h, rfl, rfl⟩, (), rejectHighSSignature_low hlow, t.from_, hsigner, ?_⟩
  · rw [hraw, Transaction.wireItems, hitems]
    exact decodeRlpList_encode hlt
  · rw [← htype, ← hsig, ← hpriority]

theorem decodeLegacy_encode (htype : t.transactionType = 0)
    (hraw : raw = (Item.list (t.wireItems (legacyV t.chainId signature.yParity) signature)).encode) :
    decodeLegacyTransaction O raw = .ok { t with externalHash := some (O.keccak256 raw) } := by
  have hlt := length_wireItems_lt h.not_unsupported h.payload h.accessList
    (legacyV t.chainId signature.yParity) signature
  have hitems : t.fieldItems = [uintItem t.nonce, uintItem t.maxFeePerGas, uintItem t.gasLimit,
      .str t.recipient, uintItem t.value, .str t.payload] := by
    simp [Transaction.fieldItems, htype]
  have hpriority : t.maxPriorityFeePerGas = 0 := h.priority (by rw [htype]; decide)
  have haccess := h.legacy htype
  have hraws := run_rlpTakeRaws [uintItem (legacyV t.chainId signature.yParity),
    uintItem signature.r, uintItem signature.s] fun item (hitem : item ∈ t.fieldItems) =>
      payload_length_lt_of_mem (List.mem_append_left _ hitem) hlt
  have htext' : text = encodeRlpList (t.fieldItems.map Item.encode ++
      [rlpEncodeU64 t.chainId, rlpEncodeBytes [], rlpEncodeBytes []]) := by
    rw [transactionSigningPayload, htype] at htext
    rw [← signedFields_eq]
    exact (pure_eq_ok.mp htext).symm
  have hfields := decodeLegacyFields_encode h.payload
  rw [← hitems] at hfields
  have hcount : t.fieldItems.length = 6 := by rw [hitems]; rfl
  rw [hcount] at hraws
  simp only [decodeLegacyTransaction, bind_eq_ok, pure_eq_ok, Prod.exists, takeFrom_eq_ok,
    run_bind_eq_ok, run_pure_eq_ok, run_ite_throw_eq_ok, run_get_eq_ok, run_runExcept_eq_ok]
  refine ⟨_, ?_, _, _, _, _, _, [], ⟨_, _, hraws, _, _, ⟨hfields, rfl⟩, _, _, (takes_u64 _).cons _,
    _, _, (takes_word _).cons _, _, _, (takes_word _).cons _, _, _, ⟨rfl, rfl⟩, not_not.mpr rfl,
    rfl, rfl⟩, t.chainId, signature.yParity, splitLegacyV_legacyV _ h.chain, (),
    validateRawChainId_mainnet h.chain, (), rejectHighSSignature_low hlow, t.from_, ?_, ?_⟩
  · rw [hraw]
    exact decodeRlpList_encode hlt
  · rw [← htext']
    exact hsigner
  · rw [← htype, ← hsig, ← hpriority, ← haccess]

end Signed

/-! ## As text -/

theorem hexValue_digitChar {n : ℕ} (h : n < 16) : hexValue (Nat.digitChar n) = some n := by
  interval_cases n <;> decide

theorem toList_hexEncode_cons (byte : UInt8) (bytes : Bytes) :
    (hexEncode (byte :: bytes)).toList =
      Nat.digitChar (byte.toNat / 16) :: Nat.digitChar (byte.toNat % 16) ::
        (hexEncode bytes).toList := by
  simp [hexEncode]

theorem hexPairs_hexEncode (bytes : Bytes) : hexPairs (hexEncode bytes).toList = .ok bytes := by
  induction bytes with
  | nil => rfl
  | cons byte bytes ih =>
    have hlt := byte.toNat_lt
    have hbyte : UInt8.ofNat (byte.toNat / 16 * 16 + byte.toNat % 16) = byte := by
      rw [Nat.div_add_mod' byte.toNat 16, UInt8.ofNat_toNat]
    simp only [toList_hexEncode_cons, hexPairs, ih,
      hexValue_digitChar (show byte.toNat / 16 < 16 by omega),
      hexValue_digitChar (show byte.toNat % 16 < 16 by omega), ok_bind, hbyte]
    rfl

theorem length_hexEncode (bytes : Bytes) : (hexEncode bytes).toList.length = 2 * bytes.length := by
  induction bytes with
  | nil => rfl
  | cons byte bytes ih =>
    rw [toList_hexEncode_cons, List.length_cons, List.length_cons, ih, List.length_cons]
    omega

theorem hexDecode_hexEncode (bytes : Bytes) : hexDecode (hexEncode bytes).toList = .ok bytes := by
  have heven : (hexEncode bytes).toList.length % 2 = 0 := by
    rw [length_hexEncode]
    omega
  rw [hexDecode, if_neg (not_not.mpr heven), hexPairs_hexEncode]

theorem decodeHex_hexEncode (bytes : Bytes) : decodeHex ("0x" ++ hexEncode bytes) = .ok bytes := by
  rw [decodeHex, String.toList_append]
  exact hexDecode_hexEncode bytes

theorem transactionSignedBytes_encode (hsig : t.signature = some signature) :
    (t.transactionType = 0 → transactionSignedBytes t =
      .ok (Item.list (t.wireItems (legacyV t.chainId signature.yParity) signature)).encode) ∧
    (t.transactionType = 1 ∨ t.transactionType = 2 → transactionSignedBytes t =
      .ok (t.transactionType :: (Item.list (t.wireItems (parityWord signature) signature)).encode)) := by
  constructor
  · intro htype
    simp only [transactionSignedBytes, hsig, htype, map_encode_signed, encodeRlpList,
      flatten_map_encode, Item.encode]
    rfl
  · rintro (htype | htype)
    all_goals
      simp only [transactionSignedBytes, hsig, htype, map_encode_signed, encodeTypedRlp,
        flatten_map_encode, Item.encode]
      rfl

theorem decodeRawBytes_encode (h : WellSigned O t) :
    ∃ raw, transactionSignedBytes t = .ok raw ∧
      decodeRawBytes O raw = .ok { t with externalHash := some (O.keccak256 raw) } := by
  obtain ⟨signature, text, hsig, hlow, htext, hsigner⟩ := h.signed
  obtain ⟨hlegacy, htyped⟩ := transactionSignedBytes_encode hsig
  rcases h.supported with htype | htype | htype
  · refine ⟨_, hlegacy htype, ?_⟩
    have hdecode := decodeLegacy_encode h hsig hlow htext hsigner htype rfl
    -- the header of a list is above both type bytes
    obtain ⟨first, rest, hcons, hfirst⟩ :=
      encode_list_cons (t.wireItems (legacyV t.chainId signature.yParity) signature)
    rw [hcons] at hdecode ⊢
    have h1 : first ≠ 0x01 := by
      rintro rfl
      simp at hfirst
    have h2 : first ≠ 0x02 := by
      rintro rfl
      simp at hfirst
    rw [decodeRawBytes, if_neg h1, if_neg h2, if_pos hfirst]
    exact hdecode
  · have hwire := htyped (.inl htype)
    rw [htype] at hwire
    refine ⟨_, hwire, ?_⟩
    rw [decodeRawBytes, if_pos rfl]
    exact decodeEip2930_encode h hsig hlow htext hsigner htype rfl
  · have hwire := htyped (.inr htype)
    rw [htype] at hwire
    refine ⟨_, hwire, ?_⟩
    rw [decodeRawBytes, if_neg (by decide), if_pos rfl]
    exact decodeEip1559_encode h hsig hlow htext hsigner htype rfl

/-- **The signed bytes of a transaction are read back as the transaction**, whichever text denotes
them, with the hash of these bytes. A type-2 transaction is written by either encoder. -/
theorem signed_bytes_round_trip (O : Oracle) (t : Transaction) (h : WellSigned O t) :
    ∃ raw, transactionSignedBytes t = .ok raw ∧
      (t.transactionType = 2 → eip1559SignedBytes t = .ok raw) ∧
      decodeHex ("0x" ++ hexEncode raw) = .ok raw ∧
      ∀ text, decodeHex text = .ok raw → decodeRawTransaction O text =
        .ok { t with externalHash := some (O.keccak256 raw) } := by
  obtain ⟨raw, hraw, hdecode⟩ := decodeRawBytes_encode h
  refine ⟨raw, hraw, ?_, decodeHex_hexEncode raw, ?_⟩
  · intro htype
    obtain ⟨signature, -, hsig, -⟩ := h.signed
    rw [eip1559SignedBytes_eq htype hsig h.payload h.accessList, hraw]
  · intro text htext
    rw [decodeRawTransaction, htext, ok_bind]
    exact hdecode

def signedAccess : Transaction :=
  { signedTransfer 2 119 with
    payload := [0xde, 0xad]
    accessList := [⟨0x22, [0x33]⟩, ⟨0x44, []⟩] }

theorem signed_bytes_round_trip_signedAccess :
    WellSigned signerOracle signedAccess ∧
      ∃ raw, transactionSignedBytes signedAccess = .ok raw ∧
        (signedAccess.transactionType = 2 → eip1559SignedBytes signedAccess = .ok raw) ∧
        decodeHex ("0x" ++ hexEncode raw) = .ok raw ∧
        ∀ text, decodeHex text = .ok raw → decodeRawTransaction signerOracle text =
          .ok { signedAccess with externalHash := some (signerOracle.keccak256 raw) } := by
  have hsigned : WellSigned signerOracle signedAccess := by
    refine ⟨.inr (.inr rfl), rfl, by decide, by decide, fun h => absurd h (by decide),
      fun h => absurd rfl h, ⟨false, 1, 1⟩, _, rfl, rfl, rfl, ?_⟩
    decide +kernel
  exact ⟨hsigned, signed_bytes_round_trip signerOracle signedAccess hsigned⟩

end Blq
