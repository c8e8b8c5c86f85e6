import Blq.Proof.RawTransaction
import Blq.Spec.Execution
import Blq.Word.Delimited

/-!
# What a signature covers

The text a transaction's signature is made for, for each of the three types, and the fields of
the transaction that can be read off it.

* `encodeItems_inj`: the canonical encoding of a list of items determines the items.
* `same_signed_of_signature`: two accepted transactions with one signature agree on every field
  that is part of it.
* `signature_binds_iff`: nobody else can change what a signed transaction does exactly when it
  is of type 2, or has no fee at all: the priority fee of the other types is not signed.
* `unsigned_priority_fee`: a legacy transaction with two priority fees under one signature.
-/

namespace Blq

open Word Result Rlp

/-! ## The encoding of items is injective -/

theorem length_header_le (offset : UInt8) (len : ℕ) : (header offset len).length ≤ 9 := by
  unfold header
  split
  · simp
  · have hle := length_lengthBytes_le len
    rw [List.length_cons]
    omega

theorem header_ne_nil (offset : UInt8) (len : ℕ) : header offset len ≠ [] := by
  unfold header
  split <;> simp

theorem length_encode_le (item : Item) : item.encode.length ≤ item.payload.length + 9 := by
  cases item with
  | str bs =>
    rw [Item.encode, encodeString, Item.payload]
    split
    · omega
    · have := length_header_le 0x80 bs.length
      rw [List.length_append]
      omega
  | list items =>
    have := length_header_le 0xc0 (encodeItems items).length
    rw [Item.encode, encodeList, Item.payload, List.length_append]
    omega

theorem length_payload_lt_list (items : List Item) :
    (encodeItems items).length < (Item.list items).encode.length := by
  have hpos := List.length_pos_iff.mpr (header_ne_nil 0xc0 (encodeItems items).length)
  rw [Item.encode, encodeList, List.length_append]
  omega

variable {items items' : List Item} {t t' : Transaction} {base : Bix}

/-- **Equal encodings have equal items.** -/
theorem encodeItems_inj (hlt : (encodeItems items).length < 2 ^ 64)
    (h : encodeItems items = encodeItems items') : items = items' := by
  -- by the length of the encoding: the items of a list are shorter than the list
  induction hn : (encodeItems items).length using Nat.strong_induction_on generalizing items items' with
  | _ n ih =>
  cases items with
  | nil =>
    rw [encodeItems] at h
    exact (encodeItems_eq_nil h.symm).symm
  | cons item rest =>
    cases items' with
    | nil =>
      refine absurd (encodeItems_eq_nil ?_) (List.cons_ne_nil item rest)
      rw [h, encodeItems]
    | cons item' rest' =>
      have hlt' : (encodeItems (item' :: rest')).length < 2 ^ 64 := h ▸ hlt
      rw [encodeItems, List.length_append] at hlt hlt' hn
      rw [encodeItems, encodeItems] at h
      have hpos := List.length_pos_iff.mpr (encode_ne_nil item)
      have hle := payload_length_le item
      have hle' := payload_length_le item'
      have hread := rlpTakeItem_encode item (by omega) (encodeItems rest)
      rw [h, rlpTakeItem_encode item' (by omega)] at hread
      obtain ⟨hitem, hrest⟩ := EStateM.Result.ok.inj hread
      obtain ⟨hlist, hpayload⟩ := Prod.mk.inj hitem
      obtain rfl := ih _ (by omega) (by omega) hrest.symm rfl
      cases item with
      | str bs =>
        cases item' with
        | str bs' => rw [show bs = bs' from hpayload.symm]
        | list items' => exact absurd hlist (by simp [Item.isList])
      | list items =>
        cases item' with
        | str bs' => exact absurd hlist (by simp [Item.isList])
        | list items' =>
          have hshort := length_payload_lt_list items
          rw [ih _ (by omega) (by omega) (show encodeItems items = encodeItems items' from
            hpayload.symm) rfl]

theorem encode_list_inj (hlt : (encodeItems items).length < 2 ^ 64)
    (hlt' : (encodeItems items').length < 2 ^ 64)
    (h : (Item.list items).encode = (Item.list items').encode) : items = items' := by
  have hread := rlpTakeItem_encode (.list items) hlt []
  rw [h, rlpTakeItem_encode (.list items') hlt'] at hread
  obtain ⟨hitem, -⟩ := EStateM.Result.ok.inj hread
  exact encodeItems_inj hlt (Prod.mk.inj hitem).2.symm

/-! ## Fields -/

theorem ofBeBytes_uint {w : ℕ} (hw : w = 8 * (w / 8)) (v : BitVec w) :
    ofBeBytes (stripZeros (beBytes v)) = v.toNat := by
  rw [ofBeBytes_stripZeros, ofBeBytes_beBytes hw]

theorem uintItem_inj {w : ℕ} (hw : w = 8 * (w / 8)) {v v' : BitVec w}
    (h : uintItem v = uintItem v') : v = v' := by
  refine BitVec.eq_of_toNat_eq ?_
  rw [← ofBeBytes_uint hw, ← ofBeBytes_uint hw, Item.str.inj h]

theorem recipient_inj (h : t.recipient = t'.recipient) : t.to_ = t'.to_ := by
  unfold Transaction.recipient at h
  rcases hto : t.to_ with _ | a <;> rcases hto' : t'.to_ with _ | a' <;> rw [hto, hto'] at h
  · simpa [beBytes] using congrArg List.length h
  · simpa [beBytes] using congrArg List.length h
  · rw [beBytes_inj (by decide) (show beBytes a = beBytes a' from h)]

theorem storageKeyItem_injective : Function.Injective storageKeyItem := fun _ _ h =>
  beBytes_inj (by decide) (Item.str.inj h)

theorem accessEntryItem_injective : Function.Injective accessEntryItem := by
  intro item item' h
  have hlist := Item.list.inj h
  simp only [List.cons.injEq, and_true] at hlist
  obtain ⟨haddress, hkeys⟩ := hlist
  have haddress' : item.address = item'.address := beBytes_inj (by decide) (Item.str.inj haddress)
  have hkeys' : item.storageKeys = item'.storageKeys :=
    List.map_injective_iff.mpr storageKeyItem_injective (Item.list.inj hkeys)
  cases item
  cases item'
  simp_all

theorem accessListItem_injective : Function.Injective accessListItem := fun _ _ h =>
  List.map_injective_iff.mpr accessEntryItem_injective (Item.list.inj h)

/-! ## The length of what is signed -/

theorem length_encodeItems_le {n : ℕ} (h : ∀ item ∈ items, item.payload.length ≤ n) :
    (encodeItems items).length ≤ items.length * (n + 9) := by
  induction items with
  | nil => simp [encodeItems]
  | cons item items ih =>
    have hitem := h item (by simp)
    have hencode := length_encode_le item
    have hrest := ih fun other hother => h other (List.mem_cons_of_mem item hother)
    rw [encodeItems, List.length_append, List.length_cons, Nat.succ_mul]
    omega

theorem length_uintItem_le {w : ℕ} (v : BitVec w) : (uintItem v).payload.length ≤ w / 8 := by
  refine le_trans (List.dropWhile_suffix _).length_le ?_
  rw [beBytes, length_toBeBytes]

theorem length_recipient_le (t : Transaction) : t.recipient.length ≤ 20 := by
  unfold Transaction.recipient
  cases t.to_ <;> simp [beBytes]

theorem length_accessEntryItem_le {item : TransactionAccessListItem}
    (h : item.storageKeys.length ≤ 1024) : (accessEntryItem item).payload.length ≤ 100000 := by
  have hkeys : (encodeItems (item.storageKeys.map storageKeyItem)).length ≤
      (item.storageKeys.map storageKeyItem).length * (32 + 9) := by
    refine length_encodeItems_le ?_
    intro key hkey
    obtain ⟨k, -, rfl⟩ := List.mem_map.mp hkey
    simp [storageKeyItem, Item.payload, beBytes]
  rw [List.length_map] at hkeys
  have hentry : (encodeItems [.str (beBytes item.address),
      .list (item.storageKeys.map storageKeyItem)]).length ≤ 2 * (41 * 1024 + 9) := by
    refine length_encodeItems_le ?_
    simp only [List.mem_cons, List.not_mem_nil, or_false, forall_eq_or_imp, forall_eq,
      Item.payload, beBytes, length_toBeBytes]
    omega
  have hpayload : (accessEntryItem item).payload.length = (encodeItems [.str (beBytes item.address),
      .list (item.storageKeys.map storageKeyItem)]).length := rfl
  omega

theorem length_accessListItem_le {list : List TransactionAccessListItem}
    (h : accessListTooLarge list = false) : (accessListItem list).payload.length ≤ 30000000 := by
  simp only [accessListTooLarge, Bool.or_eq_false_iff, decide_eq_false_iff_not, not_lt,
    List.any_eq_false, decide_eq_true_eq] at h
  obtain ⟨⟨hentries, hkeys⟩, -⟩ := h
  have hle : (encodeItems (list.map accessEntryItem)).length ≤
      (list.map accessEntryItem).length * (100000 + 9) := by
    refine length_encodeItems_le ?_
    intro entry hentry
    obtain ⟨item, hitem, rfl⟩ := List.mem_map.mp hentry
    exact length_accessEntryItem_le (hkeys item hitem)
  have hmax : maxAccessListEntries = 256 := rfl
  rw [List.length_map] at hle
  have hpayload : (accessListItem list).payload.length =
    (encodeItems (list.map accessEntryItem)).length := rfl
  omega

/-! ## What the check of a fee says of a transaction -/

theorem validateTransactionFee_ok :
    validateTransactionFee t base = .ok () ↔ t.chainId = mainnetChainId ∧
      ¬ (t.transactionType > 2 ∨ (t.transactionType = 0 ∧ t.accessList ≠ [])) ∧
      ¬ t.payload.length > maxTransactionPayloadBytes ∧
      accessListTooLarge t.accessList = false ∧
      ¬ t.maxFeePerGas.toNat < base.toNat ∧
      ¬ t.maxPriorityFeePerGas.toNat > t.maxFeePerGas.toNat := by
  simp [validateTransactionFee]

theorem transactionType_cases (h : ¬ t.transactionType > 2) :
    t.transactionType = 0 ∨ t.transactionType = 1 ∨ t.transactionType = 2 := by
  have hle : t.transactionType.toNat ≤ 2 := UInt8.le_iff_toNat_le.mp (UInt8.not_lt.mp h)
  have hcases : t.transactionType.toNat = 0 ∨ t.transactionType.toNat = 1 ∨
    t.transactionType.toNat = 2 := by omega
  rcases hcases with h0 | h1 | h2
  · exact .inl (UInt8.toNat_inj.mp h0)
  · exact .inr (.inl (UInt8.toNat_inj.mp h1))
  · exact .inr (.inr (UInt8.toNat_inj.mp h2))

/-! ## The signed text -/

/-- The items of the signed text: a legacy transaction names its chain behind its fields. -/
def Transaction.signedItems (t : Transaction) : List Item :=
  if t.transactionType = 0 then t.fieldItems ++ [uintItem t.chainId, .str [], .str []]
  else t.fieldItems

def typeBytes (transactionType : UInt8) : Bytes :=
  if transactionType = 0 then [] else [transactionType]

theorem transactionSigningPayload_eq (htype : ¬ t.transactionType > 2) :
    transactionSigningPayload t =
      .ok (typeBytes t.transactionType ++ (Item.list t.signedItems).encode) := by
  have hempty : rlpEncodeBytes [] = (Item.str []).encode := by simp [Item.encode, rlpEncodeBytes]
  have hchain : rlpEncodeU64 t.chainId = (uintItem t.chainId).encode := by
    rw [rlpEncodeU64, rlpEncodeUint_eq]
    rfl
  rcases transactionType_cases htype with h | h | h
  · simp only [transactionSigningPayload, h, typeBytes, Transaction.signedItems, if_true,
      signedFields_eq, hempty, hchain, encodeRlpList, Item.encode, ← flatten_map_encode,
      List.map_append, List.map_cons, List.map_nil, List.nil_append]
    rfl
  all_goals
    simp [transactionSigningPayload, h, typeBytes, Transaction.signedItems, signedFields_eq,
      encodeTypedRlp, Item.encode, flatten_map_encode]

/-- **The type can be read off the signed text**: a list starts with a byte above every type. -/
theorem typeBytes_inj {type type' : UInt8} (htype : type = 0 ∨ type = 1 ∨ type = 2)
    (htype' : type' = 0 ∨ type' = 1 ∨ type' = 2) (h : typeBytes type ++ (Item.list items).encode =
      typeBytes type' ++ (Item.list items').encode) :
    type = type' ∧ (Item.list items).encode = (Item.list items').encode := by
  obtain ⟨first, rest, hcons, hfirst⟩ := encode_list_cons items
  obtain ⟨first', rest', hcons', hfirst'⟩ := encode_list_cons items'
  rw [hcons, hcons'] at h ⊢
  rcases htype with rfl | rfl | rfl <;> rcases htype' with rfl | rfl | rfl <;>
    simp [typeBytes] at h ⊢ <;> first | exact h | skip
  all_goals
    obtain ⟨hbyte, -⟩ := h
    subst hbyte
    simp at hfirst hfirst'

/-- What execution and fee code read of a transaction. -/
structure SameEffect (t t' : Transaction) : Prop where
  transactionType : t.transactionType = t'.transactionType
  nonce : t.nonce = t'.nonce
  to_ : t.to_ = t'.to_
  value : t.value = t'.value
  gasLimit : t.gasLimit = t'.gasLimit
  maxFeePerGas : t.maxFeePerGas = t'.maxFeePerGas
  maxPriorityFeePerGas : t.maxPriorityFeePerGas = t'.maxPriorityFeePerGas
  payload : t.payload = t'.payload
  accessList : t.accessList = t'.accessList

/-- The effect of a transaction apart from its priority fee. -/
structure SameSigned (t t' : Transaction) : Prop where
  transactionType : t.transactionType = t'.transactionType
  nonce : t.nonce = t'.nonce
  to_ : t.to_ = t'.to_
  value : t.value = t'.value
  gasLimit : t.gasLimit = t'.gasLimit
  maxFeePerGas : t.maxFeePerGas = t'.maxFeePerGas
  payload : t.payload = t'.payload
  accessList : t.transactionType ≠ 0 → t.accessList = t'.accessList
  maxPriorityFeePerGas : t.transactionType = 2 → t.maxPriorityFeePerGas = t'.maxPriorityFeePerGas

theorem same_signed_of_items (htype : ¬ t.transactionType > 2)
    (hsame : t.transactionType = t'.transactionType) (h : t.signedItems = t'.signedItems) :
    SameSigned t t' := by
  have h64 : (64 : ℕ) = 8 * (64 / 8) := rfl
  have h128 : (128 : ℕ) = 8 * (128 / 8) := rfl
  unfold Transaction.signedItems Transaction.fieldItems at h
  rw [← hsame] at h
  rcases transactionType_cases htype with h0 | h1 | h2
  · simp only [h0, reduceIte, List.cons_append, List.cons.injEq, Item.str.injEq] at h
    obtain ⟨hnonce, hfee, hgas, hto, hvalue, hpayload, -⟩ := h
    exact ⟨hsame, uintItem_inj h64 hnonce, recipient_inj hto, uintItem_inj h128 hvalue,
      uintItem_inj h64 hgas, uintItem_inj h128 hfee, hpayload, fun hne => absurd h0 hne,
      fun h2 => absurd (h0.symm.trans h2) (by decide)⟩
  · simp [h1] at h
    obtain ⟨-, hnonce, hfee, hgas, hto, hvalue, hpayload, haccess⟩ := h
    exact ⟨hsame, uintItem_inj h64 hnonce, recipient_inj hto, uintItem_inj h128 hvalue,
      uintItem_inj h64 hgas, uintItem_inj h128 hfee, hpayload,
      fun _ => accessListItem_injective haccess, fun h2 => absurd (h1.symm.trans h2) (by decide)⟩
  · simp [h2] at h
    obtain ⟨-, hnonce, hpriority, hfee, hgas, hto, hvalue, hpayload, haccess⟩ := h
    exact ⟨hsame, uintItem_inj h64 hnonce, recipient_inj hto, uintItem_inj h128 hvalue,
      uintItem_inj h64 hgas, uintItem_inj h128 hfee, hpayload,
      fun _ => accessListItem_injective haccess, fun _ => uintItem_inj h128 hpriority⟩

/-- Within the limits of a transaction, its fields and a few short items are far shorter than a
length can say. -/
theorem length_fieldItems_lt {rest : List Item} (htype : ¬ t.transactionType > 2)
    (hpayload : t.payload.length ≤ maxTransactionPayloadBytes)
    (haccess : accessListTooLarge t.accessList = false) (hcount : rest.length ≤ 3)
    (hrest : ∀ item ∈ rest, item.payload.length ≤ 32) :
    (encodeItems (t.fieldItems ++ rest)).length < 2 ^ 64 := by
  have hmax : maxTransactionPayloadBytes = 131072 := rfl
  have hlist := length_accessListItem_le haccess
  have hrecipient := length_recipient_le t
  have hbytes : (Item.str t.payload).payload.length ≤ 30000000 :=
    show t.payload.length ≤ _ by omega
  have hto : (Item.str t.recipient).payload.length ≤ 30000000 :=
    show t.recipient.length ≤ _ by omega
  have h64 : ∀ v : U64, (uintItem v).payload.length ≤ 30000000 := fun v =>
    (length_uintItem_le v).trans (by decide)
  have h128 : ∀ v : U128, (uintItem v).payload.length ≤ 30000000 := fun v =>
    (length_uintItem_le v).trans (by decide)
  have hfields : t.fieldItems.length ≤ 9 ∧
      ∀ item ∈ t.fieldItems, item.payload.length ≤ 30000000 := by
    rcases transactionType_cases htype with h | h | h <;>
      simp [Transaction.fieldItems, h, h64, h128, hbytes, hto, hlist]
  have hitems : ∀ item ∈ t.fieldItems ++ rest, item.payload.length ≤ 30000000 := fun item hitem =>
    (List.mem_append.mp hitem).elim (hfields.2 item) fun hitem => (hrest item hitem).trans (by decide)
  have hle := length_encodeItems_le hitems
  have hlength : (t.fieldItems ++ rest).length ≤ 12 := by
    rw [List.length_append]
    omega
  have hmul := Nat.mul_le_mul_right (30000000 + 9) hlength
  omega

theorem length_signedItems_lt (h : validateTransactionFee t base = .ok ()) :
    (encodeItems t.signedItems).length < 2 ^ 64 := by
  obtain ⟨-, htype, hpayload, haccess, -⟩ := validateTransactionFee_ok.mp h
  rw [not_or] at htype
  unfold Transaction.signedItems
  split
  · refine length_fieldItems_lt htype.1 (not_lt.mp hpayload) haccess le_rfl ?_
    have hchain := (length_uintItem_le t.chainId).trans (show 64 / 8 ≤ 32 by decide)
    simpa [Item.payload] using hchain
  · rw [← List.append_nil t.fieldItems]
    exact length_fieldItems_lt htype.1 (not_lt.mp hpayload) haccess (Nat.zero_le _) (by simp)

/-! ## What a signature binds -/

/-- A transaction that carries a good signature and whose fee is accepted. -/
def Admissible (O : Oracle) (t : Transaction) (base : Bix) : Prop :=
  verifyTransactionSignature O t = .ok () ∧ validateTransactionFee t base = .ok ()

/-- No collision between the signed texts of two transactions: their digests differ if the texts
do, and the signature of the first does not recover one sender from two digests. -/
def Separated (O : Oracle) (t t' : Transaction) : Prop :=
  ∀ text text' signature signer, transactionSigningPayload t = .ok text →
    transactionSigningPayload t' = .ok text' → t.signature = some signature →
    (O.keccak256 text = O.keccak256 text' → text = text') ∧
    (recoverSigner O signature text = .ok signer → recoverSigner O signature text' = .ok signer →
      O.keccak256 text = O.keccak256 text')

theorem verifyTransactionSignature_ok {O : Oracle} (h : verifyTransactionSignature O t = .ok ()) :
    ∃ signature text, t.signature = some signature ∧ transactionSigningPayload t = .ok text ∧
      recoverSigner O signature text = .ok t.from_ := by
  unfold verifyTransactionSignature at h
  cases hsig : t.signature with
  | none => simp [hsig] at h
  | some signature =>
    simp only [hsig, throw_bind, bind_eq_ok, ite_throw_eq_ok] at h
    obtain ⟨-, -, text, htext, signer, hsigner, hfrom, -⟩ := h
    exact ⟨signature, text, rfl, htext, by rw [hsigner, not_not.mp hfrom]⟩

/-- **Everything but the priority fee of the older types is bound.** -/
theorem same_signed_of_signature {O : Oracle} {base' : Bix} (h : Admissible O t base)
    (h' : Admissible O t' base') (hfrom : t.from_ = t'.from_)
    (hsignature : t.signature = t'.signature) (hseparated : Separated O t t') :
    SameSigned t t' := by
  obtain ⟨signature, text, hsig, htext, hsigner⟩ := verifyTransactionSignature_ok h.1
  obtain ⟨signature', text', hsig', htext', hsigner'⟩ := verifyTransactionSignature_ok h'.1
  obtain rfl : signature = signature' := Option.some.inj (by rw [← hsig, hsignature, hsig'])
  rw [← hfrom] at hsigner'
  obtain ⟨hkeccak, hrecover⟩ := hseparated text text' signature t.from_ htext htext' hsig
  obtain rfl := hkeccak (hrecover hsigner hsigner')
  have htype := (not_or.mp (validateTransactionFee_ok.mp h.2).2.1).1
  have htype' := (not_or.mp (validateTransactionFee_ok.mp h'.2).2.1).1
  -- both texts are a type byte and a list of items, and both can be read off
  rw [transactionSigningPayload_eq htype] at htext
  rw [transactionSigningPayload_eq htype'] at htext'
  obtain ⟨hsame, hitems⟩ := typeBytes_inj (transactionType_cases htype)
    (transactionType_cases htype') ((Except.ok.inj htext).trans (Except.ok.inj htext').symm)
  exact same_signed_of_items htype hsame
    (encode_list_inj (length_signedItems_lt h.2) (length_signedItems_lt h'.2) hitems)

/-! ## The priority fee of the older types -/

def Transaction.withPriorityFee (t : Transaction) (fee : Bix) : Transaction :=
  { t with maxPriorityFeePerGas := fee }

/-- The wire format of types 0 and 1 has no priority fee, so the checks do not see it. -/
theorem verifyTransactionSignature_withPriorityFee (O : Oracle) (fee : Bix)
    (htype : t.transactionType = 0 ∨ t.transactionType = 1) :
    transactionSigningPayload (t.withPriorityFee fee) = transactionSigningPayload t ∧
      verifyTransactionSignature O (t.withPriorityFee fee) = verifyTransactionSignature O t := by
  have hfields : (t.withPriorityFee fee).signedFields = t.signedFields := by
    rcases htype with h | h <;>
      simp [Transaction.signedFields, Transaction.withPriorityFee, h, Transaction.recipient]
  have hsigning : transactionSigningPayload (t.withPriorityFee fee) =
      transactionSigningPayload t := by
    simp only [transactionSigningPayload, hfields]
    rfl
  have hwire : transactionSignedBytes (t.withPriorityFee fee) = transactionSignedBytes t := by
    simp only [transactionSignedBytes, hfields]
    rfl
  refine ⟨hsigning, ?_⟩
  simp only [verifyTransactionSignature, hsigning, hwire]
  rfl

theorem Admissible.withPriorityFee {O : Oracle} (h : Admissible O t base) (fee : Bix)
    (htype : t.transactionType = 0 ∨ t.transactionType = 1)
    (hfee : fee.toNat ≤ t.maxFeePerGas.toNat) :
    Admissible O (t.withPriorityFee fee) base ∧ Separated O t (t.withPriorityFee fee) := by
  obtain ⟨hsigning, hverify⟩ := verifyTransactionSignature_withPriorityFee O fee htype
  obtain ⟨hchain, hkind, hpayload, haccess, hbase, -⟩ := validateTransactionFee_ok.mp h.2
  refine ⟨⟨hverify.trans h.1, validateTransactionFee_ok.mpr
    ⟨hchain, hkind, hpayload, haccess, hbase, not_lt.mpr hfee⟩⟩, ?_⟩
  intro text text' signature signer htext htext' _
  rw [hsigning, htext] at htext'
  obtain rfl := Except.ok.inj htext'
  exact ⟨fun _ => rfl, fun _ _ => rfl⟩

/-- **A signature binds a transaction exactly when it covers the priority fee.** Of an accepted
transaction no other one with its sender and signature is accepted that differs in anything
execution reads, if and only if it is of type 2 or its maximum fee is zero. -/
theorem signature_binds_iff (O : Oracle) (t : Transaction) (base : Bix)
    (h : Admissible O t base) :
    (∀ t' base', Admissible O t' base' → t.from_ = t'.from_ → t.signature = t'.signature →
      Separated O t t' → SameEffect t t') ↔
      (t.transactionType = 2 ∨ t.maxFeePerGas = 0) := by
  obtain ⟨-, hkind, -, -, -, hpriority⟩ := validateTransactionFee_ok.mp h.2
  rw [not_or] at hkind
  constructor
  · intro hbinds
    by_contra hopen
    rw [not_or] at hopen
    have htype : t.transactionType = 0 ∨ t.transactionType = 1 := by
      rcases transactionType_cases hkind.1 with h0 | h1 | h2
      · exact .inl h0
      · exact .inr h1
      · exact absurd h2 hopen.1
    -- whatever the priority fee is, one of zero and the maximum fee is another one
    have hother : ∀ fee : Bix, fee.toNat ≤ t.maxFeePerGas.toNat → t.maxPriorityFeePerGas = fee := by
      intro fee hfee
      obtain ⟨hadmissible, hseparated⟩ := h.withPriorityFee fee htype hfee
      exact (hbinds _ base hadmissible rfl rfl hseparated).maxPriorityFeePerGas
    exact hopen.2 ((hother t.maxFeePerGas le_rfl).symm.trans (hother 0 (Nat.zero_le _)))
  · intro hcovered t' base' h' hfrom hsignature hseparated
    obtain ⟨-, hkind', -, -, -, hpriority'⟩ := validateTransactionFee_ok.mp h'.2
    have hsigned := same_signed_of_signature h h' hfrom hsignature hseparated
    refine ⟨hsigned.transactionType, hsigned.nonce, hsigned.to_, hsigned.value, hsigned.gasLimit,
      hsigned.maxFeePerGas, ?_, hsigned.payload, ?_⟩
    · rcases hcovered with h2 | hzero
      · exact hsigned.maxPriorityFeePerGas h2
      · -- a priority fee is at most the maximum fee
        have hzero' : t.maxFeePerGas.toNat = 0 := by rw [hzero]; rfl
        have hfee := congrArg BitVec.toNat hsigned.maxFeePerGas
        exact BitVec.eq_of_toNat_eq (by omega)
    · by_cases h0 : t.transactionType = 0
      · -- a legacy transaction has no access list
        have hnil : t.accessList = [] := by
          by_contra hne
          exact hkind.2 ⟨h0, hne⟩
        have hnil' : t'.accessList = [] := by
          by_contra hne
          exact (not_or.mp hkind').2 ⟨hsigned.transactionType ▸ h0, hne⟩
        rw [hnil, hnil']
      · exact hsigned.accessList h0

/-! ## Two priority fees under one signature -/

def signerOracle : Oracle :=
  { lengthOracle with
    recover := fun _ _ _ digest =>
      if digest.toNat < 2 ^ 160 then .ok (digest.setWidth 160) else .error "no such key" }

def signedTransfer (transactionType : UInt8) (signer : Address) : Transaction where
  chainId := mainnetChainId
  transactionType := transactionType
  nonce := 0
  from_ := signer
  to_ := some 0x11
  value := 1
  gasLimit := 21000
  maxFeePerGas := 2
  maxPriorityFeePerGas := 0
  payload := []
  accessList := []
  signature := some ⟨false, 1, 1⟩
  externalHash := none

theorem admissible_signedTransfer (transactionType : UInt8) (signer : Address) (base : Bix)
    (hverify : (verifyTransactionSignature signerOracle
      (signedTransfer transactionType signer)).isOk = true)
    (hfee : (validateTransactionFee (signedTransfer transactionType signer) base).isOk = true) :
    Admissible signerOracle (signedTransfer transactionType signer) base := by
  obtain ⟨⟨⟩, hverified⟩ := exists_ok_of_isOk hverify
  obtain ⟨⟨⟩, hpaid⟩ := exists_ok_of_isOk hfee
  exact ⟨hverified, hpaid⟩

/-- **The priority fee of a legacy transaction can be changed under its signature**: both
transactions are accepted at a base fee of one, and they pay different prices. -/
theorem unsigned_priority_fee :
    ∃ t t' : Transaction, Admissible signerOracle t 1 ∧ Admissible signerOracle t' 1 ∧
      t.from_ = t'.from_ ∧ t.signature = t'.signature ∧ Separated signerOracle t t' ∧
      ¬ SameEffect t t' ∧ effectiveGasPrice t 1 ≠ effectiveGasPrice t' 1 := by
  have h := admissible_signedTransfer 0 35 1 (by decide +kernel) (by decide +kernel)
  obtain ⟨h', hseparated⟩ := h.withPriorityFee 1 (.inl rfl) (by decide)
  refine ⟨_, _, h, h', rfl, rfl, hseparated, ?_, by decide⟩
  intro hsame
  exact absurd hsame.maxPriorityFeePerGas (by decide)

theorem signature_binds_signedTransfer :
    Admissible signerOracle (signedTransfer 2 36) 1 ∧
      ((∀ t' base', Admissible signerOracle t' base' → (signedTransfer 2 36).from_ = t'.from_ →
        (signedTransfer 2 36).signature = t'.signature →
        Separated signerOracle (signedTransfer 2 36) t' → SameEffect (signedTransfer 2 36) t') ↔
        ((signedTransfer 2 36).transactionType = 2 ∨ (signedTransfer 2 36).maxFeePerGas = 0)) := by
  have h := admissible_signedTransfer 2 36 1 (by decide +kernel) (by decide +kernel)
  exact ⟨h, signature_binds_iff signerOracle (signedTransfer 2 36) 1 h⟩

end Blq
