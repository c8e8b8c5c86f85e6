import Blq.Proof.CanonicalChain
import Blq.Proof.Issuance

/-!
# The supply index

The store keeps the issued and the burned amount of the canonical blocks up to an indexed height.
The index lags behind the tip until a backfill or a publication brings it up; a publication takes the
replaced blocks out and puts the new ones in.

* `keeps_backfillSupplyStorage_indexed`: the backfill, also when it fails half way, leaves the sums
  of a part of the chain.
* `keeps_suffixSupplyTotals_indexed`: the totals a publication is given are those of the new chain.
* `supply_index_exact`: **in every run the index holds the sums over the canonical blocks up to its
  height**, which is never above the tip, and after a publication is the tip.
-/

namespace Blq

open Word Result

variable {O : Oracle} {s s' : SledStorage} {genesis : Block} {chain : List Block}

/-! ## What the index holds -/

/-- Totals of a chain above a parent of the given timestamp: the issued and the burned amount. -/
def ExactTotals (timestamp : U64) (chain : List Block) (totals : U128 × U128) : Prop :=
  totals.1.toNat = supplyTotal Prod.fst timestamp chain ∧
    totals.2.toNat = supplyTotal Prod.snd timestamp chain

/-- The totals of a chain fit the words they are kept in. -/
def TotalsFit (timestamp : U64) (chain : List Block) : Prop :=
  supplyTotal Prod.fst timestamp chain < 2 ^ 128 ∧ supplyTotal Prod.snd timestamp chain < 2 ^ 128

/-- The index holds the totals of the first `height` blocks of the chain. -/
structure IndexedAt (s : SledStorage) (genesis : Block) (chain : List Block) (height : ℕ) :
    Prop where
  indexed : s.supplyTotals.1.toNat = height
  le : height ≤ chain.length
  totals : ExactTotals genesis.header.timestampSeconds (chain.take height) s.supplyTotals.2

/-- The chain of the store is `chain`, and the index holds the totals of a part of it. -/
def Indexed (genesis : Block) (chain : List Block) (s : SledStorage) : Prop :=
  Canonical s genesis chain ∧ ∃ height, IndexedAt s genesis chain height

theorem tipTimestamp_take {i : ℕ} {b : Block} (h : (genesis :: chain)[i]? = some b) :
    tipTimestamp genesis.header.timestampSeconds (chain.take i) = b.header.timestampSeconds := by
  induction chain generalizing genesis i with
  | nil =>
    have hi : i = 0 := by
      have hlt := (List.getElem?_eq_some_iff.mp h).1
      simpa using hlt
    subst hi
    obtain rfl : genesis = b := by simpa using h
    rfl
  | cons next rest ih =>
    cases i with
    | zero =>
      obtain rfl : genesis = b := by simpa using h
      rfl
    | succ i =>
      rw [List.getElem?_cons_succ] at h
      exact ih h

/-! ## One block more or less -/

theorem supplyTotal_singleton (part : Bix × Bix → Bix) (timestamp : U64) (b : Block) :
    supplyTotal part timestamp [b] = (part (blockSupplyDelta b timestamp)).toNat := rfl

variable {timestamp : U64} {totals : U128 × U128} {before : List Block} {ancestor : BlockHeader}

theorem TotalsFit.left {chain' : List Block} (h : TotalsFit timestamp (chain ++ chain')) :
    TotalsFit timestamp chain := by
  obtain ⟨htotal, hburned⟩ := h
  rw [supplyTotal_append] at htotal hburned
  exact ⟨by omega, by omega⟩

theorem ExactTotals.add {b : Block} (h : ExactTotals timestamp chain totals)
    (hfits : TotalsFit timestamp (chain ++ [b])) :
    ExactTotals timestamp (chain ++ [b])
      (saturatingAdd totals.1 (blockSupplyDelta b (tipTimestamp timestamp chain)).1,
        saturatingAdd totals.2 (blockSupplyDelta b (tipTimestamp timestamp chain)).2) := by
  obtain ⟨htotal, hburned⟩ := h
  obtain ⟨hfit, hfit'⟩ := hfits
  rw [supplyTotal_append, supplyTotal_singleton] at hfit hfit'
  constructor
  · rw [supplyTotal_append, supplyTotal_singleton]
    show (saturatingAdd _ _).toNat = _
    rw [toNat_saturatingAdd_of_lt (by omega), htotal]
  · rw [supplyTotal_append, supplyTotal_singleton]
    show (saturatingAdd _ _).toNat = _
    rw [toNat_saturatingAdd_of_lt (by omega), hburned]

/-! ## The backfill -/

theorem keeps_backfillSupplyStep {best number : U64} {rest : List Block} {b : Block}
    (hsplit : before ++ b :: rest = chain) (h : Indexed genesis chain s)
    (hbest : best.toNat = chain.length) (hnumber : number.toNat = before.length + 1)
    (htotals : ExactTotals genesis.header.timestampSeconds before totals)
    (hfits : TotalsFit genesis.header.timestampSeconds chain) :
    Keeps (Indexed genesis chain) (backfillSupplyStep best totals number) s
      fun totals' s' => ExactTotals genesis.header.timestampSeconds (before ++ [b]) totals' ∧
        (rest = [] → IndexedAt s' genesis chain chain.length) := by
  have hlength : chain.length = before.length + 1 + rest.length := by
    rw [← hsplit, List.length_append, List.length_cons]
    omega
  have hsmall := h.1.rows.fits
  have hkey : number = BitVec.ofNat 64 (before.length + 1) :=
    BitVec.eq_of_toNat_eq (by rw [hnumber, toNat_ofNat_of_lt (by omega)])
  have hget : (genesis :: chain)[before.length + 1]? = some b := by
    rw [← hsplit, List.getElem?_cons_succ, List.getElem?_append_right le_rfl, Nat.sub_self]
    rfl
  obtain ⟨parent, hparent, -, hheader⟩ := h.1.exists_block (i := before.length) (by omega)
  have hblockNumber := h.1.rows.number _ b hget
  unfold backfillSupplyStep
  refine keeps_readStore_bind h fun block hblock => keeps_readStore_bind h fun timestamp htimestamp => ?_
  -- the row read is the block, and its parent's timestamp that of the chain before it
  obtain rfl : b = block := by
    have hrow := h.1.rows.block (before.length + 1) (by omega)
    rw [blockByNumber_eq_ok, hkey, hrow, hget] at hblock
    exact Option.some.inj hblock
  obtain rfl : tipTimestamp genesis.header.timestampSeconds before = timestamp := by
    have htip := tipTimestamp_take hparent
    rw [← hsplit, List.take_left] at htip
    have hbelow : b.header.number - 1 = BitVec.ofNat 64 before.length := by
      refine BitVec.eq_of_toNat_eq ?_
      have hone : (1 : U64) ≤ b.header.number := by
        rw [BitVec.le_def, hblockNumber]
        show 1 ≤ _
        omega
      rw [toNat_ofNat_of_lt (by omega), BitVec.toNat_sub_of_le hone, hblockNumber]
      rfl
    have hne : b.header.number ≠ 0 := by
      intro hzero
      rw [hzero] at hblockNumber
      exact absurd hblockNumber (by simp)
    unfold parentTimestamp at htimestamp
    rw [if_neg hne, bind_eq_ok] at htimestamp
    obtain ⟨header, hheader', hts⟩ := htimestamp
    rw [headerByNumber_eq_ok, hbelow, hheader] at hheader'
    rw [htip, Option.some.inj hheader']
    exact pure_eq_ok.mp hts
  rw [List.append_cons] at hsplit
  have hexact := htotals.add (TotalsFit.left (hsplit ▸ hfits))
  have htake : chain.take (before.length + 1) = before ++ [b] := by
    rw [← hsplit]
    exact List.take_left' List.length_append
  have hwritten : ∀ s' : SledStorage, s'.supplyTotals = (number,
      saturatingAdd totals.1 (blockSupplyDelta b (tipTimestamp genesis.header.timestampSeconds before)).1,
      saturatingAdd totals.2 (blockSupplyDelta b (tipTimestamp genesis.header.timestampSeconds before)).2) →
      IndexedAt s' genesis chain (before.length + 1) := by
    intro s' hs'
    refine ⟨by rw [hs']; exact hnumber, by omega, ?_⟩
    rw [htake, hs']
    exact hexact
  refine keeps_ite (fun _ => ?_) fun hskip => ?_
  · refine keeps_modify_bind (keeps_pure ⟨h.1.congr rfl rfl rfl, _, hwritten _ rfl⟩ ⟨hexact, ?_⟩)
    rintro rfl
    rw [hlength]
    exact hwritten _ rfl
  · refine keeps_pure h ⟨hexact, ?_⟩
    -- the last height is always written
    rintro rfl
    refine absurd (.inr (BitVec.eq_of_toNat_eq ?_)) hskip
    rw [hnumber, hbest, hlength]
    rfl

theorem keeps_backfillLoop {best : U64} {rest : List Block} (hsplit : before ++ rest = chain)
    (h : Indexed genesis chain s) (hbest : best.toNat = chain.length)
    (htotals : ExactTotals genesis.header.timestampSeconds before totals)
    (hfits : TotalsFit genesis.header.timestampSeconds chain) :
    Keeps (Indexed genesis chain)
      (((List.range' (before.length + 1) rest.length).map (BitVec.ofNat 64)).foldlM
        (backfillSupplyStep best) totals) s
      fun _ s' => rest ≠ [] → IndexedAt s' genesis chain chain.length := by
  induction rest generalizing before totals s with
  | nil => exact keeps_pure h fun hne => absurd rfl hne
  | cons b rest ih =>
    have hsmall := h.1.rows.fits
    have hlength : before.length < chain.length := by
      rw [← hsplit, List.length_append, List.length_cons]
      omega
    rw [List.length_cons, List.range'_succ, List.map_cons, List.foldlM_cons]
    refine (keeps_backfillSupplyStep hsplit h hbest (toNat_ofNat_of_lt (by omega)) htotals
      hfits).bind fun totals' s' h' hpost => ?_
    obtain ⟨htotals', hlast⟩ := hpost
    cases rest with
    | nil => exact keeps_pure h' fun _ => hlast rfl
    | cons next rest =>
      have hloop := ih (List.append_cons .. ▸ hsplit) h' htotals'
      rw [List.length_append, List.length_singleton] at hloop
      exact hloop.mono fun _ _ _ hdone _ => hdone (List.cons_ne_nil _ _)

/-- **The backfill keeps the index exact**, also when it stops half way, and brings it up to the
tip. -/
theorem keeps_backfillSupplyStorage_indexed (h : Indexed genesis chain s)
    (hfits : TotalsFit genesis.header.timestampSeconds chain) :
    Keeps (Indexed genesis chain) backfillSupplyStorage s
      fun _ s' => IndexedAt s' genesis chain chain.length := by
  obtain ⟨hchain, height, hindexed⟩ := h
  have hsmall := hchain.rows.fits
  unfold backfillSupplyStorage
  refine keeps_get_bind ?_
  obtain ⟨tip, htip⟩ : ∃ tip, s.bestHeader = .ok tip := by
    obtain ⟨b, -, -, hheader⟩ := hchain.exists_block le_rfl
    exact ⟨b.header, bestHeader_eq_ok.mpr ⟨_, hchain.best, hheader⟩⟩
  obtain ⟨-, -, -, hnumber⟩ := hchain.bestHeader htip
  have hnot : ¬s.supplyTotals.1.toNat > tip.number.toNat := by
    rw [hindexed.indexed, hnumber]
    exact Nat.not_lt.mpr hindexed.le
  rw [htip]
  dsimp only
  rw [if_neg hnot]
  refine keeps_get_bind ?_
  refine keeps_ite (fun hdone => ?_) fun hbehind => ?_
  · obtain rfl : height = chain.length := by
      have hle := hindexed.le
      rw [hindexed.indexed, hnumber] at hdone
      omega
    exact keeps_pure ⟨hchain, _, hindexed⟩ hindexed
  · have hlt : height < chain.length := by
      rw [hindexed.indexed, hnumber] at hbehind
      omega
    have htake : (chain.take height).length = height := by
      rw [List.length_take]
      omega
    have hheights : SledStorage.heights (saturatingAdd s.supplyTotals.1 1) tip.number =
        (List.range' ((chain.take height).length + 1) (chain.drop height).length).map
          (BitVec.ofNat 64) := by
      have hfirst : (saturatingAdd s.supplyTotals.1 1).toNat = height + 1 := by
        rw [toNat_saturatingAdd_one, hindexed.indexed]
        omega
      unfold SledStorage.heights
      rw [hfirst, hnumber, htake, List.length_drop]
      congr 2
      omega
    have hne : chain.drop height ≠ [] := by
      rw [Ne, List.drop_eq_nil_iff]
      omega
    rw [hheights]
    -- the blocks above the indexed height are those still to be added
    exact (keeps_backfillLoop (List.take_append_drop ..) ⟨hchain, height, hindexed⟩ hnumber
      hindexed.totals hfits).bind fun _ s' h' hdone => keeps_pure h' (hdone hne)

/-! ## The totals of a publication -/

/-- One turn of the loop over the replaced blocks. -/
def withoutDelta (running : U64 × U128 × U128) (b : Block) : U64 × U128 × U128 :=
  (b.header.timestampSeconds, saturatingSub running.2.1 (blockSupplyDelta b running.1).1,
    saturatingSub running.2.2 (blockSupplyDelta b running.1).2)

/-- One turn of the loop over the new blocks. -/
def withDelta (running : U64 × U128 × U128) (b : Block) : U64 × U128 × U128 :=
  (b.header.timestampSeconds, saturatingAdd running.2.1 (blockSupplyDelta b running.1).1,
    saturatingAdd running.2.2 (blockSupplyDelta b running.1).2)

theorem foldl_withoutDelta {removed : List Block} {running : U64 × U128 × U128} {issued burned : ℕ}
    (hissued : running.2.1.toNat = issued + supplyTotal Prod.fst running.1 removed)
    (hburned : running.2.2.toNat = burned + supplyTotal Prod.snd running.1 removed) :
    (removed.foldl withoutDelta running).2.1.toNat = issued ∧
      (removed.foldl withoutDelta running).2.2.toNat = burned := by
  induction removed generalizing running with
  | nil => exact ⟨hissued, hburned⟩
  | cons b rest ih =>
    refine ih ?_ ?_
    · show (saturatingSub _ _).toNat = _
      rw [toNat_saturatingSub, hissued]
      simp only [supplyTotal, withoutDelta]
      omega
    · show (saturatingSub _ _).toNat = _
      rw [toNat_saturatingSub, hburned]
      simp only [supplyTotal, withoutDelta]
      omega

theorem exactTotals_foldl_withDelta {replacement : List Block} {running : U64 × U128 × U128}
    (hrunning : running.1 = tipTimestamp timestamp before)
    (h : ExactTotals timestamp before running.2)
    (hfits : TotalsFit timestamp (before ++ replacement)) :
    ExactTotals timestamp (before ++ replacement) (replacement.foldl withDelta running).2 := by
  induction replacement generalizing before running with
  | nil =>
    rw [List.append_nil]
    exact h
  | cons b rest ih =>
    rw [List.append_cons] at hfits ⊢
    have hadd := h.add hfits.left
    rw [← hrunning] at hadd
    have htip : b.header.timestampSeconds = tipTimestamp timestamp (before ++ [b]) := by
      clear h hfits hadd hrunning ih
      induction before generalizing timestamp with
      | nil => rfl
      | cons c before ih => exact ih
    rw [List.foldl_cons]
    exact ih htip hadd hfits

/-- The height and the totals that go with a chain, as long as they fit. -/
def TotalsOf (genesis : Block) (chain : List Block) (totals : U64 × U128 × U128) : Prop :=
  TotalsFit genesis.header.timestampSeconds chain → chain.length < 2 ^ 64 →
    totals.1.toNat = chain.length ∧ ExactTotals genesis.header.timestampSeconds chain totals.2

/-- **The totals computed for a publication are those of the new chain**, and computing them keeps
the index exact. -/
theorem keeps_suffixSupplyTotals_indexed (h : Indexed genesis chain s)
    (hfits : TotalsFit genesis.header.timestampSeconds chain) {best : BlockHeader}
    (hbest : s.bestHeader = .ok best) {a : ℕ} {stored : Block}
    (hstored : (genesis :: chain)[a]? = some stored) (hancestor : stored.header = ancestor)
    (replacement : List Block) :
    Keeps (Indexed genesis chain) (suffixSupplyTotals ancestor best replacement) s
      fun totals _ => TotalsOf genesis (chain.take a ++ replacement) totals := by
  have hnumber : ancestor.number.toNat = a := by
    rw [← hancestor]
    exact h.1.rows.number a stored hstored
  have hle : a ≤ chain.length := by
    have hlt := (List.getElem?_eq_some_iff.mp hstored).1
    rw [List.length_cons] at hlt
    omega
  have htimestamp : ancestor.timestampSeconds =
      tipTimestamp genesis.header.timestampSeconds (chain.take a) := by
    rw [← hancestor, tipTimestamp_take hstored]
  obtain ⟨-, -, -, hbestNumber⟩ := h.1.bestHeader hbest
  -- once the index has reached the tip
  have hfull : ∀ {s₁ : SledStorage} {removed : List Block}, Indexed genesis chain s₁ →
      IndexedAt s₁ genesis chain chain.length →
      (SledStorage.heights (saturatingAdd ancestor.number 1) best.number).mapM s₁.blockByNumber =
        .ok removed →
      TotalsOf genesis (chain.take a ++ replacement)
        (saturatingAdd ancestor.number (BitVec.ofNat 64 replacement.length),
          (replacement.foldl withDelta (ancestor.timestampSeconds,
            (removed.foldl withoutDelta (ancestor.timestampSeconds, s₁.supplyTotals.2)).2)).2) := by
    intro s₁ removed h₁ hat hremoved hfits' hsmall
    have hfirst : (saturatingAdd ancestor.number 1).toNat = a + 1 := by
      have hfit := h.1.rows.fits
      rw [toNat_saturatingAdd_one, hnumber]
      omega
    obtain rfl : chain.drop a = removed :=
      Except.ok.inj ((h₁.1.mapM_heights hle hfirst hbestNumber).symm.trans hremoved)
    have hpart : ∀ part : Bix × Bix → Bix,
        supplyTotal part genesis.header.timestampSeconds chain =
          supplyTotal part genesis.header.timestampSeconds (chain.take a) +
            supplyTotal part ancestor.timestampSeconds (chain.drop a) := by
      intro part
      rw [htimestamp, ← supplyTotal_append, List.take_append_drop]
    have hwhole := hat.totals
    rw [List.take_length] at hwhole
    refine ⟨?_, exactTotals_foldl_withDelta htimestamp (foldl_withoutDelta
      (hwhole.1.trans (hpart Prod.fst)) (hwhole.2.trans (hpart Prod.snd))) hfits'⟩
    rw [List.length_append, List.length_take_of_le hle] at hsmall ⊢
    show (saturatingAdd _ _).toNat = _
    rw [toNat_saturatingAdd, hnumber, toNat_ofNat_of_lt (by omega)]
    omega
  unfold suffixSupplyTotals
  refine keeps_get_bind ?_
  dsimp only
  refine keeps_ite (fun hbehind => ?_) fun hreached => ?_
  · refine (keeps_backfillSupplyStorage_indexed h hfits).bind fun _ s₁ h₁ hat => keeps_get_bind ?_
    exact keeps_ite_throw h₁ fun _ => keeps_get_bind
      (keeps_readStore_bind h₁ fun removed hremoved => keeps_pure h₁ (hfull h₁ hat hremoved))
  · obtain ⟨height, hat⟩ := h.2
    obtain rfl : height = chain.length := by
      have hle' := hat.le
      rw [hat.indexed, hbestNumber] at hreached
      omega
    exact keeps_get_bind
      (keeps_readStore_bind h fun removed hremoved => keeps_pure h (hfull h hat hremoved))

/-! ## Runs -/

/-- The canonical blocks `1, …, height` of a store. -/
def canonicalThrough (s : SledStorage) (height : ℕ) : List Block :=
  (List.range' 1 height).filterMap fun k => s.blocks[BitVec.ofNat 64 k]?

def genesisTimestamp (s : SledStorage) : U64 :=
  (s.blocks[(0 : U64)]?).elim 0 fun b => b.header.timestampSeconds

/-- The totals of the whole canonical chain fit their words, and its heights theirs. -/
def SupplyFits (s : SledStorage) : Prop :=
  ∀ tip, s.bestNumber = some tip →
    tip.toNat + 1 < 2 ^ 64 ∧ TotalsFit (genesisTimestamp s) (canonicalThrough s tip.toNat)

/-- The canonical blocks above an ancestor are replaced, with the totals computed for it. -/
inductive ReplacedSuffix (O : Oracle) (s s' : SledStorage) : Prop
  | published (s₁ : SledStorage) (height : U64) (ancestor best : BlockHeader)
      (replacement : List Block) (native : NativeAccounts) (evm : EvmStateSnapshot)
      (totals : U64 × U128 × U128) (hbest : s.bestHeader = .ok best)
      (hheight : height.toNat ≤ best.number.toNat)
      (hancestor : s.headerByNumber height = .ok ancestor)
      (htotals : suffixSupplyTotals ancestor best replacement s = .ok totals s₁)
      (hpublish : s₁.publishCanonicalSuffix O ancestor replacement native evm totals = .ok s')

/-- One operation on the chain or on the index. Those that may fail are taken as far as they get. -/
inductive SupplyStep (O : Oracle) (s : SledStorage) : SledStorage → Prop
  | insert (tip : BlockHeader) (b : Block) (hbest : s.bestHeader = .ok tip)
      (hparent : b.header.parentHash = tip.hash O) (hnumber : b.header.number = tip.number + 1) :
      SupplyStep O s (s.insertBlock b)
  | publish (s' : SledStorage) (h : ReplacedSuffix O s s') : SupplyStep O s s'
  | abandon (height : U64) (ancestor best : BlockHeader) (replacement : List Block)
      (hbest : s.bestHeader = .ok best) (hheight : height.toNat ≤ best.number.toNat)
      (hancestor : s.headerByNumber height = .ok ancestor) :
      SupplyStep O s (finalState (suffixSupplyTotals ancestor best replacement) s)
  | backfill : SupplyStep O s (finalState backfillSupplyStorage s)

/-- The stores reached from genesis while the totals fit. -/
inductive SupplyRun (O : Oracle) : SledStorage → Prop
  | genesis (s : SledStorage) (b : Block) (hblocks : s.blocks = ∅) (hheaders : s.headers = ∅)
      (htotals : s.supplyTotals = (0, 0, 0)) (hnumber : b.header.number = 0) :
      SupplyRun O (s.insertBlock b)
  | step (s s' : SledStorage) (h : SupplyRun O s) (hstep : SupplyStep O s s')
      (hfits : SupplyFits s') : SupplyRun O s'

theorem Canonical.canonicalThrough (h : Canonical s genesis chain) {height : ℕ}
    (hheight : height ≤ chain.length) : canonicalThrough s height = chain.take height := by
  unfold Blq.canonicalThrough
  induction height with
  | zero => rfl
  | succ height ih =>
    have hlt : height < chain.length := by omega
    have hrow : s.blocks[BitVec.ofNat 64 (1 + height)]? = some (chain[height]) := by
      rw [Nat.add_comm, h.rows.block (height + 1) (by omega), List.getElem?_cons_succ,
        List.getElem?_eq_getElem hlt]
    rw [List.range'_concat, List.filterMap_append, ih (by omega), List.take_succ_eq_append_getElem hlt]
    simp only [Nat.one_mul, List.filterMap_cons, List.filterMap_nil, hrow]

theorem Canonical.genesisTimestamp (h : Canonical s genesis chain) :
    genesisTimestamp s = genesis.header.timestampSeconds := by
  unfold Blq.genesisTimestamp
  have hrow : s.blocks[(0 : U64)]? = some genesis := h.rows.block 0 (Nat.zero_le _)
  rw [hrow]
  rfl

theorem Canonical.totalsFit (h : Canonical s genesis chain) (hfits : SupplyFits s) :
    TotalsFit genesis.header.timestampSeconds chain := by
  have hsmall := h.rows.fits
  obtain ⟨-, hfit⟩ := hfits _ h.best
  rw [toNat_ofNat_of_lt (by omega), h.canonicalThrough le_rfl, List.take_length, h.genesisTimestamp] at hfit
  exact hfit

theorem supplyTotals_of_publish {replacement : List Block} {native : NativeAccounts}
    {evm : EvmStateSnapshot} {totals : U64 × U128 × U128}
    (h : s.publishCanonicalSuffix O ancestor replacement native evm totals = .ok s') :
    s'.supplyTotals = totals := by
  simp only [SledStorage.publishCanonicalSuffix, throw_bind, bind_eq_ok, ite_throw_eq_ok] at h
  obtain ⟨_, -, -, _, -, -, _, -, htip⟩ := h
  split at htip
  · obtain ⟨_, -, hs'⟩ := bind_eq_ok.mp htip
    rw [← pure_eq_ok.mp hs']
  · exact absurd htip throw_ne_ok

theorem Canonical.exists_stored (h : Canonical s genesis chain) {height : U64} {best : BlockHeader}
    (hbest : s.bestHeader = .ok best) (hheight : height.toNat ≤ best.number.toNat)
    (hancestor : s.headerByNumber height = .ok ancestor) :
    ∃ stored, (genesis :: chain)[height.toNat]? = some stored ∧ stored.header = ancestor ∧
      ancestor.number.toNat = height.toNat := by
  obtain ⟨-, -, -, hnumber⟩ := h.bestHeader hbest
  obtain ⟨stored, hstored, -, hheader⟩ := h.exists_block (i := height.toNat) (by omega)
  rw [ofNat_toNat] at hheader
  obtain rfl : stored.header = ancestor :=
    Option.some.inj (hheader.symm.trans (headerByNumber_eq_ok.mp hancestor))
  exact ⟨stored, hstored, rfl, h.rows.number _ stored hstored⟩

/-- **A publication leaves exactly the totals of the new chain**, whatever it undoes. -/
theorem Indexed.publish (h : Indexed genesis chain s)
    (hfits : TotalsFit genesis.header.timestampSeconds chain) (hpublication : ReplacedSuffix O s s')
    (hfits' : SupplyFits s') :
    ∃ chain', Canonical s' genesis chain' ∧ IndexedAt s' genesis chain' chain'.length := by
  obtain ⟨s₁, height, ancestor, best, replacement, native, evm, totals, hbest, hheight, hancestor,
    htotals, hpublish⟩ := hpublication
  obtain ⟨stored, hstored, hheader, hnumber⟩ := h.1.exists_stored hbest hheight hancestor
  have hrun := (keeps_suffixSupplyTotals_indexed h hfits hbest hstored hheader replacement).of_ok htotals
  obtain ⟨⟨hchain₁, -⟩, hpost⟩ := hrun
  obtain ⟨hchain', -⟩ := hchain₁.publish hpublish fun n hn => (hfits' n hn).1
  have hfit := hchain'.totalsFit hfits'
  have hsmall := hchain'.rows.fits
  rw [hnumber] at hchain' hfit hsmall
  obtain ⟨hindexed, hexact⟩ := hpost hfit (by omega)
  refine ⟨_, hchain', ?_, le_rfl, ?_⟩
  · rw [supplyTotals_of_publish hpublish, hindexed]
  · rw [List.take_length, supplyTotals_of_publish hpublish]
    exact hexact

/-- **One step**: the index stays exact for the chain there is then. -/
theorem Indexed.step (h : Indexed genesis chain s)
    (hfits : TotalsFit genesis.header.timestampSeconds chain) (hstep : SupplyStep O s s')
    (hfits' : SupplyFits s') :
    ∃ chain', Indexed genesis chain' s' ∧ TotalsFit genesis.header.timestampSeconds chain' := by
  have hsame : Indexed genesis chain s' →
      ∃ chain', Indexed genesis chain' s' ∧ TotalsFit genesis.header.timestampSeconds chain' :=
    fun h' => ⟨chain, h', hfits⟩
  cases hstep with
  | insert tip b hbest hparent hnumber =>
    obtain ⟨-, -, -, htip⟩ := h.1.bestHeader hbest
    have hsmall := h.1.rows.fits
    have hnat : b.header.number.toNat = chain.length + 1 := by
      rw [hnumber, BitVec.toNat_add, htip]
      show (chain.length + 1) % 2 ^ 64 = _
      omega
    have htop := (hfits' b.header.number rfl).1
    have hchain := h.1.insertBlock hnat (by omega)
    obtain ⟨height, hat⟩ := h.2
    refine ⟨chain ++ [b], ⟨hchain, height, hat.indexed, ?_, ?_⟩, hchain.totalsFit hfits'⟩
    · have hle := hat.le
      rw [List.length_append]
      omega
    · rw [List.take_append_of_le_length hat.le]
      exact hat.totals
  | publish _ hpublication =>
    obtain ⟨chain', hchain', hat⟩ := h.publish hfits hpublication hfits'
    exact ⟨chain', ⟨hchain', _, hat⟩, hchain'.totalsFit hfits'⟩
  | abandon height ancestor best replacement hbest hheight hancestor =>
    obtain ⟨stored, hstored, hheader, -⟩ := h.1.exists_stored hbest hheight hancestor
    exact hsame (keeps_suffixSupplyTotals_indexed h hfits hbest hstored hheader replacement).final
  | backfill => exact hsame (keeps_backfillSupplyStorage_indexed h hfits).final

/-- **A run**, by induction over its steps. -/
theorem SupplyRun.indexed (h : SupplyRun O s) :
    ∃ genesis chain, Indexed genesis chain s ∧ TotalsFit genesis.header.timestampSeconds chain := by
  induction h with
  | genesis s b hblocks hheaders htotals hnumber =>
    refine ⟨b, [], ⟨canonical_first hnumber, 0, ?_⟩, ?_⟩
    · have hindex : (s.insertBlock b).supplyTotals = (0, 0, 0) := htotals
      refine ⟨?_, le_rfl, ?_, ?_⟩ <;> rw [hindex] <;> rfl
    · exact ⟨Nat.two_pow_pos 128, Nat.two_pow_pos 128⟩
  | step s s' _ hstep hfits' ih =>
    obtain ⟨genesis, chain, hindexed, hfits⟩ := ih
    obtain ⟨chain', h'⟩ := hindexed.step hfits hstep hfits'
    exact ⟨genesis, chain', h'⟩

/-- The index of a store holds the totals of its canonical blocks up to the indexed height, which is
at most that of the tip. -/
structure SupplyExact (s : SledStorage) : Prop where
  below : ∃ tip, s.bestNumber = some tip ∧ s.supplyTotals.1.toNat ≤ tip.toNat
  issued : s.supplyTotals.2.1.toNat =
    supplyTotal Prod.fst (genesisTimestamp s) (canonicalThrough s s.supplyTotals.1.toNat)
  burned : s.supplyTotals.2.2.toNat =
    supplyTotal Prod.snd (genesisTimestamp s) (canonicalThrough s s.supplyTotals.1.toNat)

theorem Indexed.exact (h : Indexed genesis chain s) : SupplyExact s := by
  obtain ⟨hchain, height, hat⟩ := h
  have hsmall := hchain.rows.fits
  have hle := hat.le
  refine ⟨⟨_, hchain.best, ?_⟩, ?_, ?_⟩
  · rw [toNat_ofNat_of_lt (by omega), hat.indexed]
    exact hle
  · rw [hat.indexed, hchain.canonicalThrough hle, hchain.genesisTimestamp]
    exact hat.totals.1
  · rw [hat.indexed, hchain.canonicalThrough hle, hchain.genesisTimestamp]
    exact hat.totals.2

/-- **In every run the supply index is exact**, and a publication leaves it exact at the new tip. -/
theorem supply_index_exact (O : Oracle) (s : SledStorage) (h : SupplyRun O s) :
    SupplyExact s ∧ ∀ s', ReplacedSuffix O s s' → SupplyFits s' →
      SupplyExact s' ∧ s'.bestNumber = some s'.supplyTotals.1 := by
  obtain ⟨genesis, chain, hindexed, hfits⟩ := h.indexed
  refine ⟨hindexed.exact, fun s' hpublication hfits' => ?_⟩
  obtain ⟨chain', hchain', hat⟩ := hindexed.publish hfits hpublication hfits'
  refine ⟨Indexed.exact ⟨hchain', _, hat⟩, ?_⟩
  have hsmall := hchain'.rows.fits
  rw [hchain'.best]
  exact congrArg some (BitVec.eq_of_toNat_eq (by rw [toNat_ofNat_of_lt (by omega), hat.indexed]))

def steadyBlock (number : U64) : Block :=
  { header := { genesisHeader zeroOracle with number := number, timestampSeconds := 30 * number }
    transactions := []
    receipts := [] }

def unindexedStore : SledStorage :=
  ((({} : SledStorage).insertBlock (steadyBlock 0)).insertBlock (steadyBlock 1)).insertBlock
    (steadyBlock 2)

theorem supplyRun_unindexedStore : SupplyRun zeroOracle unindexedStore := by
  have hfits : ∀ (s : SledStorage) (tip : U64), s.bestNumber = some tip → tip.toNat + 1 < 2 ^ 64 →
      TotalsFit (genesisTimestamp s) (canonicalThrough s tip.toNat) → SupplyFits s := by
    intro s tip hbest hsmall htotals tip' htip'
    obtain rfl := Option.some.inj (hbest.symm.trans htip')
    exact ⟨hsmall, htotals⟩
  have hfirst := SupplyRun.step (O := zeroOracle) _ _
    (.genesis {} (steadyBlock 0) rfl rfl rfl rfl)
    (.insert (steadyBlock 0).header (steadyBlock 1) (by decide +kernel) rfl rfl)
    (hfits _ 1 rfl (by decide) ⟨by decide +kernel, by decide +kernel⟩)
  exact .step _ _ hfirst (.insert (steadyBlock 1).header (steadyBlock 2) (by decide +kernel) rfl rfl)
    (hfits _ 2 rfl (by decide) ⟨by decide +kernel, by decide +kernel⟩)

def lateBlock : Block :=
  { steadyBlock 2 with header := { (steadyBlock 2).header with timestampSeconds := 90 } }

def publishLate : Option SledStorage :=
  match suffixSupplyTotals (steadyBlock 1).header (steadyBlock 2).header [lateBlock] unindexedStore with
  | .error _ _ => none
  | .ok totals s => (s.publishCanonicalSuffix zeroOracle (steadyBlock 1).header [lateBlock] ∅ ∅
      totals).toOption

theorem replacedSuffix_of_publishLate {s : SledStorage} (h : publishLate = some s) :
    ReplacedSuffix zeroOracle unindexedStore s := by
  unfold publishLate at h
  split at h
  · cases h
  · next totals s₁ htotals =>
    cases hpublish : s₁.publishCanonicalSuffix zeroOracle (steadyBlock 1).header [lateBlock] ∅ ∅
        totals with
    | error e =>
      rw [hpublish] at h
      cases h
    | ok s' =>
      rw [hpublish] at h
      obtain rfl := Option.some.inj h
      exact .published s₁ 1 _ _ _ _ _ _ (by decide +kernel) (by decide) (by decide +kernel) htotals
        hpublish

/-- The publication moves the index to the new tip. -/
theorem supply_index_exact_published : ∃ s, ReplacedSuffix zeroOracle unindexedStore s ∧
    s.supplyTotals.1 = 2 ∧ SupplyExact s := by
  have heval : (publishLate.map fun s => (s.bestNumber, genesisTimestamp s, canonicalThrough s 2)) =
      some (some 2, 0, [steadyBlock 1, lateBlock]) := by decide +kernel
  obtain ⟨s, hs, hvalues⟩ := Option.map_eq_some_iff.mp heval
  simp only [Prod.mk.injEq] at hvalues
  obtain ⟨hbest, hgenesis, hchain⟩ := hvalues
  have hfits : SupplyFits s := by
    intro tip htip
    obtain rfl : 2 = tip := Option.some.inj (hbest.symm.trans htip)
    refine ⟨by decide, ?_⟩
    rw [hgenesis, show (2 : U64).toNat = 2 from rfl, hchain]
    exact ⟨by decide +kernel, by decide +kernel⟩
  have hreplaced := replacedSuffix_of_publishLate hs
  obtain ⟨hexact, htip⟩ := (supply_index_exact zeroOracle _ supplyRun_unindexedStore).2 s hreplaced hfits
  exact ⟨s, hreplaced, Option.some.inj (htip.symm.trans hbest), hexact⟩

end Blq
