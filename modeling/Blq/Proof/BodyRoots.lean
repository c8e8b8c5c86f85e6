import Blq.Proof.SigningPayload
import Blq.Proof.Validation

/-!
# What the roots of a header say of the body

The transactions root and the receipts root are digests of framed canonical encodings. The
encodings have optional sections: an access list only where there is one or the type is 1, logs
only where there are some. Each is still determined by its bytes.

* `rootPreimage_inj`: the framed text of a root determines the framed items.
* `Receipt.canonicalBytes_inj`: a receipt is determined by its bytes.
* `same_transaction_of_canonicalBytes`: so is an accepted transaction, up to its external hash
  and up to type 0 or 2 without an access list.
* `bodies_agree_of_header`: two bodies that are accepted under one header agree.
-/

namespace Blq

open Word Result

/-! ## Framed items -/

/-- What `merkleLikeRoot` hashes when there are items. -/
def rootPreimage (items : List Bytes) : Bytes := items.flatMap putBytes ++ toBeBytes 8 items.length

variable {items : List Bytes}

theorem merkleLikeRoot_eq (O : Oracle) (h : items ≠ []) :
    merkleLikeRoot O items = O.sha256 (rootPreimage items) := by
  rw [merkleLikeRoot, if_neg (by simpa using h)]
  rfl

theorem rootPreimage_inj {items' : List Bytes} (h : ∀ bs ∈ items, bs.length < 256 ^ 8)
    (h' : ∀ bs ∈ items', bs.length < 256 ^ 8) (heq : rootPreimage items = rootPreimage items') :
    items = items' := by
  have hframes := List.append_inj_left' heq (by simp)
  refine delimited_frame.flatMap_inj ?_ h h' hframes
  intro bs _ hnil
  have hlen := congrArg List.length hnil
  simp at hlen

/-- A digest without collisions among the given texts, and zero for none of them. -/
def CollisionFree (digest : Bytes → Hash256) (texts : List Bytes) : Prop :=
  ∀ x ∈ texts, digest x ≠ 0 ∧ ∀ y ∈ texts, digest x = digest y → x = y

/-- **Equal roots have equal items.** -/
theorem merkleLikeRoot_inj {O : Oracle} {items' texts : List Bytes}
    (hfree : CollisionFree O.sha256 texts) (hmem : rootPreimage items ∈ texts)
    (hmem' : rootPreimage items' ∈ texts) (h : ∀ bs ∈ items, bs.length < 256 ^ 8)
    (h' : ∀ bs ∈ items', bs.length < 256 ^ 8)
    (heq : merkleLikeRoot O items = merkleLikeRoot O items') : items = items' := by
  by_cases hnil : items = []
  · by_cases hnil' : items' = []
    · rw [hnil, hnil']
    · -- the root of no items is zero, which no digest is
      rw [merkleLikeRoot_eq O hnil', hnil] at heq
      exact absurd heq.symm (hfree _ hmem').1
  · by_cases hnil' : items' = []
    · rw [merkleLikeRoot_eq O hnil, hnil'] at heq
      exact absurd heq (hfree _ hmem).1
    · rw [merkleLikeRoot_eq O hnil, merkleLikeRoot_eq O hnil'] at heq
      exact rootPreimage_inj h h' ((hfree _ hmem).2 _ hmem' heq)

/-! ## Receipts -/

theorem delimited_logEntry : Delimited
    (fun log : LogEntry => log.topics.length < 256 ^ 8 ∧ log.data.length < 256 ^ 8)
    LogEntry.canonicalBytes := by
  intro log log' rest rest' h h' heq
  simp only [LogEntry.canonicalBytes, List.append_assoc] at heq
  obtain ⟨haddress, heq⟩ := delimited_beBytes rfl trivial trivial heq
  rw [← List.append_assoc, ← List.append_assoc (toBeBytes 8 log'.topics.length)] at heq
  obtain ⟨htopics, heq⟩ := (delimited_beBytes rfl).counted ⟨h.1, fun _ _ => trivial⟩
    ⟨h'.1, fun _ _ => trivial⟩ heq
  obtain ⟨hdata, hrest⟩ := delimited_frame h.2 h'.2 heq
  cases log
  cases log'
  simp_all

theorem LogEntry.lengths_lt {log : LogEntry} (h : log.canonicalBytes.length < 256 ^ 8) :
    log.topics.length < 256 ^ 8 ∧ log.data.length < 256 ^ 8 := by
  have htopics : log.topics.length ≤ (log.topics.flatMap beBytes).length :=
    length_le_length_flatMap beBytes fun topic _ hnil => by
      have hlen := congrArg List.length hnil
      simp [beBytes] at hlen
  simp only [LogEntry.canonicalBytes, putBytes, List.length_append] at h
  omega

/-- The logs at the end of a receipt's encoding. -/
def logsSection (logs : List LogEntry) : Bytes :=
  if logs.isEmpty then []
  else toBeBytes 8 logs.length ++ logs.flatMap fun log => putBytes log.canonicalBytes

theorem logsSection_inj {logs logs' : List LogEntry} (h : (logsSection logs).length < 256 ^ 8)
    (h' : (logsSection logs').length < 256 ^ 8) (heq : logsSection logs = logsSection logs') :
    logs = logs' := by
  have hsmall : ∀ logs : List LogEntry, (logsSection logs).length < 256 ^ 8 →
      logs.length < 256 ^ 8 ∧ ∀ log ∈ logs, log.canonicalBytes.length < 256 ^ 8 := by
    intro logs hlt
    cases logs with
    | nil => simp
    | cons first logs =>
      rw [logsSection, if_neg (by simp), List.length_append] at hlt
      have hcount := length_le_length_flatMap (l := first :: logs)
        (fun log => putBytes log.canonicalBytes) fun log _ hnil => by
          have hlen := congrArg List.length hnil
          simp [putBytes] at hlen
      refine ⟨by omega, fun log hlog => ?_⟩
      have hle := length_le_flatMap_of_mem (fun log => putBytes log.canonicalBytes) hlog
      rw [putBytes, List.length_append] at hle
      omega
  have hframed : Delimited (fun log : LogEntry => log.canonicalBytes.length < 256 ^ 8)
      fun log => putBytes log.canonicalBytes := by
    intro log log' rest rest' hlog hlog' heq
    obtain ⟨hbytes, hrest⟩ := delimited_frame hlog hlog' heq
    exact ⟨delimited_logEntry.inj (LogEntry.lengths_lt hlog) (LogEntry.lengths_lt hlog') hbytes, hrest⟩
  cases logs with
  | nil =>
    cases logs' with
    | nil => rfl
    | cons log' logs' =>
      have hlen := congrArg List.length heq
      simp [logsSection] at hlen
      omega
  | cons log logs =>
    cases logs' with
    | nil =>
      have hlen := congrArg List.length heq
      simp [logsSection] at hlen
    | cons log' logs' =>
      have hl := hsmall _ h
      have hl' := hsmall _ h'
      rw [logsSection, logsSection, if_neg (by simp), if_neg (by simp)] at heq
      exact hframed.counted.inj hl hl' heq

theorem Receipt.canonicalBytes_inj {r r' : Receipt} (h : r.canonicalBytes.length < 256 ^ 8)
    (h' : r'.canonicalBytes.length < 256 ^ 8) (heq : r.canonicalBytes = r'.canonicalBytes) :
    r = r' := by
  have hbytes : ∀ r : Receipt, r.canonicalBytes = beBytes r.transactionHash ++
      ([if r.success then 1 else 0] ++ (beBytes r.gasUsed ++ (beBytes r.logsRoot ++
        logsSection r.logs))) := by
    intro r
    simp only [Receipt.canonicalBytes, logsSection, List.append_assoc]
  rw [hbytes, hbytes] at heq
  rw [hbytes, List.length_append, List.length_append, List.length_append, List.length_append] at h h'
  obtain ⟨hhash, heq⟩ := delimited_beBytes rfl trivial trivial heq
  obtain ⟨hsuccess, heq⟩ := List.append_inj heq rfl
  obtain ⟨hgas, heq⟩ := delimited_beBytes rfl trivial trivial heq
  obtain ⟨hroot, heq⟩ := delimited_beBytes rfl trivial trivial heq
  have hlogs := logsSection_inj (by omega) (by omega) heq
  have hflag : r.success = r'.success := by
    cases hr : r.success <;> cases hr' : r'.success <;> simp_all
  cases r
  cases r'
  simp_all

/-! ## Transactions -/

theorem delimited_accessListItem : Delimited
    (fun item : TransactionAccessListItem => item.storageKeys.length < 256 ^ 8)
    TransactionAccessListItem.canonicalBytes := by
  intro item item' rest rest' h h' heq
  simp only [TransactionAccessListItem.canonicalBytes, List.append_assoc] at heq
  obtain ⟨haddress, heq⟩ := delimited_beBytes rfl trivial trivial heq
  rw [← List.append_assoc, ← List.append_assoc (toBeBytes 8 item'.storageKeys.length)] at heq
  obtain ⟨hkeys, hrest⟩ := (delimited_beBytes rfl).counted ⟨h, fun _ _ => trivial⟩
    ⟨h', fun _ _ => trivial⟩ heq
  cases item
  cases item'
  simp_all

theorem delimited_recipient : Delimited (fun _ : Option Address => True) fun recipient =>
    match recipient with
    | some recipient => 1 :: beBytes recipient
    | none => [0] := by
  intro a b rest rest' _ _ heq
  cases a with
  | none => cases b <;> simp_all
  | some a =>
    cases b with
    | none => simp at heq
    | some b =>
      simp only [List.cons_append, List.cons.injEq, true_and] at heq
      obtain ⟨rfl, hrest⟩ := delimited_beBytes rfl trivial trivial heq
      exact ⟨rfl, hrest⟩

def signatureSection (signature : Option TransactionSignature) : Bytes :=
  match signature with
  | some sig => 1 :: (if sig.yParity then 1 else 0) :: beBytes sig.r ++ beBytes sig.s
  | none => [0]

theorem signatureSection_inj {a b : Option TransactionSignature}
    (heq : signatureSection a = signatureSection b) : a = b := by
  cases a with
  | none => cases b <;> simp_all [signatureSection]
  | some a =>
    cases b with
    | none => simp [signatureSection] at heq
    | some b =>
      simp only [signatureSection, List.cons_append, List.cons.injEq, true_and] at heq
      obtain ⟨hparity, heq⟩ := heq
      obtain ⟨hr, heq⟩ := delimited_beBytes rfl trivial trivial heq
      have hs := beBytes_inj rfl heq
      have hflag : a.yParity = b.yParity := by
        cases ha : a.yParity <;> cases hb : b.yParity <;> simp_all
      cases a
      cases b
      simp_all

/-- A transaction carries its type and access list only if the list is not empty or the type
is 1. -/
def accessSection (t : Transaction) : Bytes :=
  if !t.accessList.isEmpty || t.transactionType == 1 then
    0xa5 :: t.transactionType :: toBeBytes 8 t.accessList.length ++
      t.accessList.flatMap TransactionAccessListItem.canonicalBytes
  else []

theorem signatureSection_head (signature : Option TransactionSignature) :
    ∃ first rest, signatureSection signature = first :: rest ∧ first ≠ 0xa5 := by
  cases signature with
  | none => exact ⟨0, [], rfl, by decide⟩
  | some sig => exact ⟨1, _, rfl, by decide⟩

/-- Two transactions that differ at most in their external hashes, and in having type 0 or 2
where there is no access list. -/
def SameTransaction (t t' : Transaction) : Prop :=
  { t with externalHash := none, transactionType := 0 } =
      { t' with externalHash := none, transactionType := 0 } ∧
    (t.transactionType = t'.transactionType ∨ t.accessList = [] ∧
      (t.transactionType = 0 ∧ t'.transactionType = 2 ∨
        t.transactionType = 2 ∧ t'.transactionType = 0))

/-- The section is there for the same transactions, and then says the type and the list. -/
theorem accessSection_inj {t t' : Transaction} {base base' : Bix} {s s' : Option TransactionSignature}
    (h : validateTransactionFee t base = .ok ()) (h' : validateTransactionFee t' base' = .ok ())
    (heq : accessSection t ++ signatureSection s = accessSection t' ++ signatureSection s') :
    t.accessList = t'.accessList ∧ s = s' ∧
      (t.transactionType = t'.transactionType ∨ t.accessList = [] ∧
        (t.transactionType = 0 ∧ t'.transactionType = 2 ∨
          t.transactionType = 2 ∧ t'.transactionType = 0)) := by
  have hsmall : ∀ (t : Transaction) (base : Bix), validateTransactionFee t base = .ok () →
      t.accessList.length < 256 ^ 8 ∧
        ∀ item ∈ t.accessList, item.storageKeys.length < 256 ^ 8 := by
    intro t base hfee
    have haccess := (validateTransactionFee_ok.mp hfee).2.2.2.1
    simp only [accessListTooLarge, Bool.or_eq_false_iff, decide_eq_false_iff_not, not_lt,
      List.any_eq_false, decide_eq_true_eq] at haccess
    refine ⟨lt_of_le_of_lt haccess.1.1 (by decide), fun item hitem => ?_⟩
    exact lt_of_le_of_lt (haccess.1.2 item hitem) (by decide)
  have hplain : ∀ t : Transaction, ¬ (!t.accessList.isEmpty || t.transactionType == 1) = true →
      t.accessList = [] ∧ t.transactionType ≠ 1 := by
    intro t hcond
    simpa using hcond
  obtain ⟨first, rest, hhead, hne⟩ := signatureSection_head s
  obtain ⟨first', rest', hhead', hne'⟩ := signatureSection_head s'
  by_cases hcond : (!t.accessList.isEmpty || t.transactionType == 1) = true
  · by_cases hcond' : (!t'.accessList.isEmpty || t'.transactionType == 1) = true
    · rw [accessSection, accessSection, if_pos hcond, if_pos hcond'] at heq
      simp only [List.cons_append, List.cons.injEq, true_and] at heq
      obtain ⟨htype, heq⟩ := heq
      obtain ⟨hlist, hsig⟩ := delimited_accessListItem.counted (hsmall t base h)
        (hsmall t' base' h') heq
      exact ⟨hlist, signatureSection_inj hsig, .inl htype⟩
    · rw [accessSection, accessSection, if_pos hcond, if_neg hcond', hhead', List.cons_append,
        List.nil_append, List.cons_append, List.cons.injEq] at heq
      exact absurd heq.1.symm hne'
  · by_cases hcond' : (!t'.accessList.isEmpty || t'.transactionType == 1) = true
    · rw [accessSection, accessSection, if_neg hcond, if_pos hcond', hhead, List.cons_append,
        List.nil_append, List.cons_append, List.cons.injEq] at heq
      exact absurd heq.1 hne
    · -- neither carries a type, and an accepted type other than 1 is 0 or 2
      rw [accessSection, accessSection, if_neg hcond, if_neg hcond', List.nil_append,
        List.nil_append] at heq
      obtain ⟨hnil, htype⟩ := hplain t hcond
      obtain ⟨hnil', htype'⟩ := hplain t' hcond'
      refine ⟨hnil.trans hnil'.symm, signatureSection_inj heq, ?_⟩
      rcases transactionType_cases (not_or.mp (validateTransactionFee_ok.mp h).2.1).1 with
        h0 | h1 | h2 <;>
      rcases transactionType_cases (not_or.mp (validateTransactionFee_ok.mp h').2.1).1 with
        h0' | h1' | h2' <;>
      simp_all

/-- **An accepted transaction is determined by its bytes.** -/
theorem same_transaction_of_canonicalBytes {t t' : Transaction} {base base' : Bix}
    (h : validateTransactionFee t base = .ok ()) (h' : validateTransactionFee t' base' = .ok ())
    (heq : t.canonicalBytes = t'.canonicalBytes) : SameTransaction t t' := by
  have hpayload : ∀ (t : Transaction) (base : Bix), validateTransactionFee t base = .ok () →
      t.payload.length < 256 ^ 8 := by
    intro t base hfee
    have hle := not_lt.mp (validateTransactionFee_ok.mp hfee).2.2.1
    exact lt_of_le_of_lt hle (by decide)
  have hbytes : ∀ t : Transaction, t.canonicalBytes = beBytes t.chainId ++ (beBytes t.nonce ++
      (beBytes t.from_ ++ ((match t.to_ with
        | some recipient => 1 :: beBytes recipient
        | none => [0]) ++ (beBytes t.value ++ (beBytes t.gasLimit ++ (beBytes t.maxFeePerGas ++
        (beBytes t.maxPriorityFeePerGas ++ (putBytes t.payload ++
        (accessSection t ++ signatureSection t.signature))))))))) := by
    intro t
    simp only [Transaction.canonicalBytes, accessSection, List.append_assoc]
    rfl
  simp (disch := decide) only [hbytes, beBytes_append_inj] at heq
  obtain ⟨hchain, hnonce, hfrom, heq⟩ := heq
  obtain ⟨hto, heq⟩ := delimited_recipient trivial trivial heq
  simp (disch := decide) only [beBytes_append_inj] at heq
  obtain ⟨hvalue, hgas, hfee, hpriority, heq⟩ := heq
  obtain ⟨hdata, heq⟩ := delimited_frame (hpayload t base h) (hpayload t' base' h') heq
  obtain ⟨haccess, hsignature, htype⟩ := accessSection_inj h h' heq
  refine ⟨?_, htype⟩
  cases t
  cases t'
  simp_all

/-! ## Bodies under one header -/

/-- The texts the two roots of a body are digests of. -/
def bodyTexts (block : Block) : List Bytes :=
  [rootPreimage (block.transactions.map Transaction.canonicalBytes),
    rootPreimage (block.receipts.map Receipt.canonicalBytes)]

theorem lengths_lt_of_block {block : Block} (h : block.canonicalBytes.length < 2 ^ 64) :
    (∀ t ∈ block.transactions, t.canonicalBytes.length < 256 ^ 8) ∧
      ∀ r ∈ block.receipts, r.canonicalBytes.length < 256 ^ 8 := by
  simp only [Block.canonicalBytes, List.length_append] at h
  constructor
  · intro t ht
    have hle := length_le_flatMap_of_mem (fun t => putBytes t.canonicalBytes) ht
    rw [putBytes, List.length_append] at hle
    omega
  · intro r hr
    have hle := length_le_flatMap_of_mem (fun r => putBytes r.canonicalBytes) hr
    rw [putBytes, List.length_append] at hle
    omega

/-- **A header commits to its body.** Two blocks with one header that are both accepted, on
whatever parents, have the same receipts and the same transactions in the same order. A block's
encoding has fewer than `2 ^ 64` bytes, as every byte string of the program. -/
theorem bodies_agree_of_header (O : Oracle) (block block' : Block) (parent parent' : BlockHeader)
    (genesisHash genesisHash' : Hash256) (activation activation' : Option U64)
    (hheader : block.header = block'.header)
    (hvalid : validateBlockWithGenesisAndActivation O parent block genesisHash activation = .ok ())
    (hvalid' : validateBlockWithGenesisAndActivation O parent' block' genesisHash' activation' =
      .ok ())
    (hlen : block.canonicalBytes.length < 2 ^ 64) (hlen' : block'.canonicalBytes.length < 2 ^ 64)
    (hfree : CollisionFree O.sha256 (bodyTexts block ++ bodyTexts block')) :
    block.receipts = block'.receipts ∧
      List.Forall₂ SameTransaction block.transactions block'.transactions := by
  have haccepted := validateBlock_eq_ok.mp hvalid
  have haccepted' := validateBlock_eq_ok.mp hvalid'
  obtain ⟨hlt, hltReceipts⟩ := lengths_lt_of_block hlen
  obtain ⟨hlt', hltReceipts'⟩ := lengths_lt_of_block hlen'
  constructor
  · have hroot : receiptsRoot O block.receipts = receiptsRoot O block'.receipts := by
      rw [← haccepted.receiptsRoot, ← haccepted'.receiptsRoot, hheader]
    have hitems := merkleLikeRoot_inj hfree (by simp [bodyTexts]) (by simp [bodyTexts])
      (List.forall_mem_map.mpr hltReceipts) (List.forall_mem_map.mpr hltReceipts') hroot
    have hsame := forall₂_of_map_eq (R := Eq) hltReceipts hltReceipts'
      (fun _ _ h h' heq => Receipt.canonicalBytes_inj h h' heq) hitems
    rwa [List.forall₂_eq_eq_eq] at hsame
  · have hroot : transactionsRoot O block.transactions =
        transactionsRoot O block'.transactions := by
      rw [← haccepted.transactionsRoot, ← haccepted'.transactionsRoot, hheader]
    have hitems := merkleLikeRoot_inj hfree (by simp [bodyTexts]) (by simp [bodyTexts])
      (List.forall_mem_map.mpr hlt) (List.forall_mem_map.mpr hlt') hroot
    have hfees' := haccepted'.fees
    rw [← hheader] at hfees'
    exact forall₂_of_map_eq (R := SameTransaction) haccepted.fees hfees'
      (fun _ _ h h' heq => same_transaction_of_canonicalBytes h h' heq) hitems

/-- A digest that is the length of its text, counted from one. -/
def countingOracle : Oracle :=
  { zeroOracle with sha256 := fun bs => BitVec.ofNat 256 (bs.length + 1) }

def transferOfType (transactionType : UInt8) : Block where
  header := { genesisHeader countingOracle with
    parentHash := (genesisHeader countingOracle).hash countingOracle
    number := 1
    timestampSeconds := genesisTimestampSeconds + 30
    baseFeePerGas := nextBaseFeePerGas (genesisHeader countingOracle)
    transactionsRoot := transactionsRoot countingOracle
      [{ signedTransfer 0 0 with maxFeePerGas := 10 ^ 18 }]
    receiptsRoot := receiptsRoot countingOracle [⟨0, true, 21000, 0, []⟩] }
  transactions := [{ signedTransfer transactionType 0 with maxFeePerGas := 10 ^ 18 }]
  receipts := [⟨0, true, 21000, 0, []⟩]

theorem bodies_agree_transferOfType :
    CollisionFree countingOracle.sha256
      (bodyTexts (transferOfType 0) ++ bodyTexts (transferOfType 2)) ∧
    (transferOfType 0).receipts = (transferOfType 2).receipts ∧
      List.Forall₂ SameTransaction (transferOfType 0).transactions
        (transferOfType 2).transactions := by
  have hfree : CollisionFree countingOracle.sha256
      (bodyTexts (transferOfType 0) ++ bodyTexts (transferOfType 2)) := by
    unfold CollisionFree
    decide +kernel
  have hvalid : ∀ transactionType ∈ [(0 : UInt8), 2],
      (validateBlockWithGenesisAndActivation countingOracle (genesisHeader countingOracle)
        (transferOfType transactionType) 0 none).isOk = true ∧
      (transferOfType transactionType).canonicalBytes.length < 2 ^ 64 := by
    decide +kernel
  obtain ⟨h, hlen⟩ := hvalid 0 (by simp)
  obtain ⟨h', hlen'⟩ := hvalid 2 (by simp)
  exact ⟨hfree, bodies_agree_of_header countingOracle (transferOfType 0) (transferOfType 2)
    (genesisHeader countingOracle) (genesisHeader countingOracle) 0 0 none none rfl
    (exists_ok_of_isOk h).choose_spec (exists_ok_of_isOk h').choose_spec hlen hlen' hfree⟩

end Blq
