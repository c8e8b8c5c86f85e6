import Blq.Proof.CandidatePool
import Blq.Proof.RoundTrip
import Blq.Spec.Locator

/-!
# The locator exchange

A node names some of its canonical blocks, and the peer answers with the first one it knows. The
peer also knows the blocks of its candidate pool, which are on no canonical chain.

* `mem_locatorHeights`: the heights that are named: the nine highest, then those at a distance
  of eight and a power of two from the tip, and genesis.
* `find_locatorHeights`: of the heights up to a given one the first that is named is at most as
  far below it as the tip is above.
* `locator_exchange_iff`: the answer is a common block that misses at most as many common blocks
  as the asking node has blocks of its own, exactly if the asking node still has the bodies and
  none of the named blocks off the peer's chain is in the peer's pool.
* `candidate_is_no_ancestor`: a peer that answers with a candidate.
-/

namespace Blq

open Word Result

/-! ## The heights of a locator -/

def locatorHeights : ℕ → U64 → U64 → ℕ → List U64
  | 0, _, _, _ => []
  | fuel + 1, height, step, count =>
    if height = 0 then [height]
    else
      height :: locatorHeights fuel (saturatingSub height step)
        (if count + 1 ≥ 10 then saturatingMul step 2 else step) (count + 1)

/-- How far below the tip the entry with the given index is. -/
def locatorOffset (index : ℕ) : ℕ := if index ≤ 9 then index else 8 + 2 ^ (index - 9)

def locatorStep (index : ℕ) : ℕ := if index ≤ 9 then 1 else 2 ^ (index - 9)

theorem locatorOffset_succ (index : ℕ) :
    locatorOffset (index + 1) = locatorOffset index + locatorStep index := by
  unfold locatorOffset locatorStep
  by_cases hle : index ≤ 9
  · rw [if_pos hle, if_pos hle]
    by_cases hlt : index + 1 ≤ 9
    · rw [if_pos hlt]
    · obtain rfl : index = 9 := by omega
      decide
  · rw [if_neg hle, if_neg hle, if_neg (by omega), show index + 1 - 9 = index - 9 + 1 by omega,
      pow_succ]
    omega

theorem locatorStep_succ (index : ℕ) :
    locatorStep (index + 1) = if index + 1 ≥ 10 then 2 * locatorStep index else locatorStep index := by
  unfold locatorStep
  by_cases hle : index ≤ 9
  · rw [if_pos hle]
    by_cases hlt : index + 1 ≤ 9
    · rw [if_pos hlt, if_neg (by omega)]
    · obtain rfl : index = 9 := by omega
      decide
  · rw [if_neg hle, if_neg (by omega), if_pos (by omega), show index + 1 - 9 = index - 9 + 1 by omega,
      pow_succ]
    omega

theorem locatorStep_le (index : ℕ) : 1 ≤ locatorStep index ∧
    locatorStep index ≤ locatorOffset index + 1 := by
  unfold locatorStep locatorOffset
  have hpos : 1 ≤ 2 ^ (index - 9) := Nat.one_le_two_pow
  split <;> omega

/-- Where the loop stands after `index` turns from a tip: at the offset of the index, with its
step unless it is done. -/
structure AtIndex (tip height step : U64) (index : ℕ) : Prop where
  below : height.toNat = tip.toNat - locatorOffset index
  stride : 0 < height.toNat → step.toNat = locatorStep index

theorem atIndex_zero (tip : U64) : AtIndex tip tip 1 0 := ⟨by simp [locatorOffset], fun _ => rfl⟩

variable {height step k : U64} {index i last : ℕ} {header : BlockHeader}

/-- **One turn of the loop.** -/
theorem AtIndex.next {tip : U64} (h : AtIndex tip height step index) (hpos : height ≠ 0) :
    AtIndex tip (saturatingSub height step)
      (if index + 1 ≥ 10 then saturatingMul step 2 else step) (index + 1) := by
  have hheight : 0 < height.toNat := Nat.pos_of_ne_zero fun hzero =>
    hpos (BitVec.eq_of_toNat_eq hzero)
  have hstep := h.stride hheight
  have hbelow := h.below
  have hnext : (saturatingSub height step).toNat = tip.toNat - locatorOffset (index + 1) := by
    rw [toNat_saturatingSub, locatorOffset_succ]
    omega
  refine ⟨hnext, fun hleft => ?_⟩
  -- while the walk is above genesis the offset is a machine word, so doubling does not saturate
  have htip := tip.isLt
  have hle := locatorStep_le (index + 1)
  rw [hnext] at hleft
  rw [locatorStep_succ] at hle ⊢
  split
  · next hten =>
    rw [if_pos hten] at hle
    have hoffset : 2 * locatorStep index < 2 ^ 64 := by omega
    rw [toNat_saturatingMul_of_lt]
    · rw [hstep]
      show locatorStep index * 2 = _
      omega
    · rw [hstep]
      show locatorStep index * 2 < _
      omega
  · exact hstep

theorem locatorOffset_mono : Monotone locatorOffset :=
  monotone_nat_of_le_succ fun index => by
    rw [locatorOffset_succ]
    omega

theorem AtIndex.stride_pos {tip : U64} (h : AtIndex tip height step index) (hpos : height ≠ 0) :
    (saturatingSub height step).toNat < height.toNat := by
  have hheight : 0 < height.toNat := Nat.pos_of_ne_zero fun hzero =>
    hpos (BitVec.eq_of_toNat_eq hzero)
  have hstep := h.stride hheight
  have hle := locatorStep_le index
  rw [toNat_saturatingSub]
  omega

section Heights

variable {tip : U64} {fuel : ℕ}

theorem mem_locatorHeights_index (h : AtIndex tip height step index) (hfuel : height.toNat < fuel) :
    k ∈ locatorHeights fuel height step index ↔
      ∃ later, index ≤ later ∧ k.toNat = tip.toNat - locatorOffset later := by
  induction fuel generalizing height step index with
  | zero => omega
  | succ fuel ih =>
    have hbelow := h.below
    rw [locatorHeights]
    by_cases hzero : height = 0
    · -- from genesis on every later entry would be genesis again
      rw [if_pos hzero, List.mem_singleton]
      constructor
      · rintro rfl
        exact ⟨index, le_rfl, hbelow⟩
      · rintro ⟨later, hle, hk⟩
        have hmono := locatorOffset_mono hle
        have hheight : height.toNat = 0 := by rw [hzero]; rfl
        exact BitVec.eq_of_toNat_eq (by omega)
    · have hdown := h.stride_pos hzero
      rw [if_neg hzero, List.mem_cons, ih (h.next hzero) (by omega)]
      constructor
      · rintro (rfl | ⟨later, hle, hk⟩)
        · exact ⟨index, le_rfl, hbelow⟩
        · exact ⟨later, by omega, hk⟩
      · rintro ⟨later, hle, hk⟩
        rcases Nat.eq_or_lt_of_le hle with rfl | hlt
        · exact .inl (BitVec.eq_of_toNat_eq (by omega))
        · exact .inr ⟨later, hlt, hk⟩

/-- The heights a node with this tip names. -/
def Named (tip k : U64) : Prop :=
  k = 0 ∨ (k.toNat ≤ tip.toNat ∧
    (tip.toNat - k.toNat ≤ 8 ∨ ∃ j, tip.toNat - k.toNat = 8 + 2 ^ j))

/-- **The heights of a locator in closed form.** -/
theorem mem_locatorHeights : k ∈ locatorHeights (tip.toNat + 1) tip 1 0 ↔ Named tip k := by
  rw [mem_locatorHeights_index (atIndex_zero tip) (Nat.lt_succ_self _)]
  constructor
  · rintro ⟨later, -, hk⟩
    by_cases hreach : locatorOffset later ≤ tip.toNat
    · refine .inr ⟨by omega, ?_⟩
      have hdist : tip.toNat - k.toNat = locatorOffset later := by omega
      rw [hdist, locatorOffset]
      split
      · next hnine =>
        rcases Nat.eq_or_lt_of_le hnine with rfl | hlt
        · exact .inr ⟨0, rfl⟩
        · exact .inl (by omega)
      · exact .inr ⟨later - 9, rfl⟩
    · exact .inl (BitVec.eq_of_toNat_eq (by
        show k.toNat = 0
        omega))
  · rintro (rfl | ⟨hle, hdist⟩)
    · -- far enough out every entry is genesis
      have htip := tip.isLt
      have hfar : locatorOffset 73 = 8 + 2 ^ 64 := by decide
      exact ⟨73, Nat.zero_le _, by rw [hfar]; show 0 = _; omega⟩
    · rcases hdist with hnear | ⟨j, hj⟩
      · refine ⟨tip.toNat - k.toNat, Nat.zero_le _, ?_⟩
        rw [locatorOffset, if_pos (by omega)]
        omega
      · refine ⟨j + 9, Nat.zero_le _, ?_⟩
        have hoffset : locatorOffset (j + 9) = 8 + 2 ^ j := by
          unfold locatorOffset
          split
          · next hnine =>
            obtain rfl : j = 0 := by omega
            rfl
          · rw [Nat.add_sub_cancel]
        omega

theorem length_locatorHeights_le (h : AtIndex tip height step index) (hindex : index ≤ 74) :
    (locatorHeights fuel height step index).length ≤ 75 - index := by
  induction fuel generalizing height step index with
  | zero => exact Nat.zero_le _
  | succ fuel ih =>
    rw [locatorHeights]
    by_cases hzero : height = 0
    · rw [if_pos hzero, List.length_singleton]
      omega
    · -- above genesis the offset is a machine word, so the index is below 73
      have hearly : index ≤ 72 := by
        by_contra hlate
        have hmono := locatorOffset_mono (show 73 ≤ index by omega)
        have hfar : locatorOffset 73 = 8 + 2 ^ 64 := by decide
        have htip := tip.isLt
        have hbelow := h.below
        exact hzero (BitVec.eq_of_toNat_eq (show height.toNat = 0 by omega))
      have hrest := ih (h.next hzero) (by omega)
      rw [if_neg hzero, List.length_cons]
      omega

theorem pairwise_locatorHeights (h : AtIndex tip height step index) (hfuel : height.toNat < fuel) :
    (locatorHeights fuel height step index).Pairwise fun k k' => k'.toNat ≤ k.toNat := by
  induction fuel generalizing height step index with
  | zero => omega
  | succ fuel ih =>
    rw [locatorHeights]
    by_cases hzero : height = 0
    · rw [if_pos hzero]
      exact List.pairwise_singleton _ _
    · have hdown := h.stride_pos hzero
      rw [if_neg hzero, List.pairwise_cons]
      refine ⟨fun k hk => ?_, ih (h.next hzero) (by omega)⟩
      obtain ⟨later, hle, hk⟩ := (mem_locatorHeights_index (h.next hzero) (by omega)).mp hk
      have hmono := locatorOffset_mono hle
      have hnext := (h.next hzero).below
      omega

/-- **The first entry at or below a height is close to it.** The gap to the entry before is at most
the distance of that entry from the tip and one. -/
theorem find_locatorHeights (limit : ℕ) (h : AtIndex tip height step index)
    (hfuel : height.toNat < fuel)
    (hclose : height.toNat ≤ limit → 2 * limit ≤ tip.toNat + height.toNat) :
    ∃ k, (locatorHeights fuel height step index).find? (fun k => k.toNat ≤ limit) = some k ∧
      k.toNat ≤ limit ∧ 2 * limit ≤ tip.toNat + k.toNat := by
  induction fuel generalizing height step index with
  | zero => omega
  | succ fuel ih =>
    rw [locatorHeights]
    by_cases hreach : height.toNat ≤ limit
    · refine ⟨height, ?_, hreach, hclose hreach⟩
      split <;> simp [hreach]
    · have hzero : height ≠ 0 := by
        rintro rfl
        exact hreach (Nat.zero_le limit)
      have hdown := h.stride_pos hzero
      have hbelow := h.below
      have hstep := h.stride (by omega)
      have hle := locatorStep_le index
      obtain ⟨k, hfind, hk⟩ := ih (h.next hzero) (by omega) (by
        intro hnext
        rw [toNat_saturatingSub] at hnext ⊢
        omega)
      refine ⟨k, ?_, hk⟩
      rw [if_neg hzero, List.find?_cons_of_neg (by simpa using hreach)]
      exact hfind

end Heights

/-! ## Hashes as text -/

theorem digitChar_ne_x {n : ℕ} (h : n < 16) : Nat.digitChar n ≠ 'x' := by
  interval_cases n <;> decide

/-- Without the leading `0x` too: no digit is an `x`. -/
theorem decodeHex_plain (bytes : Bytes) : decodeHex (hexEncode bytes) = .ok bytes := by
  rw [decodeHex]
  split
  · next trimmed heq =>
    cases bytes with
    | nil => simp [hexEncode] at heq
    | cons byte bytes =>
      rw [toList_hexEncode_cons] at heq
      have hx : Nat.digitChar (byte.toNat % 16) = 'x' := (List.cons.inj (List.cons.inj heq).2).1
      exact absurd hx (digitChar_ne_x (by omega))
  · exact hexDecode_hexEncode bytes

theorem fromHex_toHex (hash : Hash256) : Hash256.fromHex (Hash256.toHex hash) = some hash := by
  have hlen : (beBytes hash).length = 32 := by simp [beBytes]
  rw [Hash256.fromHex, Hash256.toHex, decodeHex_plain]
  show (if (beBytes hash).length ≠ 32 then none else _) = _
  rw [if_neg (not_not.mpr hlen), ofNat_ofBeBytes_beBytes rfl]

/-! ## Two canonical chains -/

/-- The canonical chain of a store, from genesis to the tip. Bodies may be missing. -/
structure CanonicalChain (O : Oracle) (s : SledStorage) (chain : List BlockHeader) : Prop where
  nonempty : chain ≠ []
  linked : HashLinked O chain
  word : chain.length ≤ 2 ^ 64
  best : s.bestNumber = some (BitVec.ofNat 64 (chain.length - 1))
  headers : ∀ k : U64, s.headers[k]? = chain[k.toNat]?
  bodies : ∀ (k : U64) (block : Block), s.blocks[k]? = some block → k.toNat < chain.length →
    chain[k.toNat]? = some block.header

variable {O : Oracle}

theorem HashLinked.number_eq {chain : List BlockHeader} (h : HashLinked O chain)
    (hi : chain[i]? = some header) : header.number = BitVec.ofNat 64 i := by
  induction i generalizing header with
  | zero => exact h.genesis header (by rw [List.head?_eq_getElem?, hi])
  | succ i ih =>
    obtain ⟨hlt, rfl⟩ := List.getElem?_eq_some_iff.mp hi
    have hstep := List.isChain_iff_getElem.mp h.linked i hlt
    rw [hstep.2, ih (List.getElem?_eq_getElem (by omega))]
    simp [BitVec.ofNat_add]

/-- No two headers of the chains share a hash. -/
def NoCollision (O : Oracle) (chain chain' : List BlockHeader) : Prop :=
  ∀ header ∈ chain ++ chain', ∀ header' ∈ chain ++ chain',
    header.hash O = header'.hash O → header = header'

section Common

variable {chain chain' : List BlockHeader}

/-- The blocks up to a height are common and no other is. -/
def CommonUpTo (chain chain' : List BlockHeader) (last : ℕ) : Prop :=
  ∀ i header, chain[i]? = some header → (header ∈ chain' ↔ i ≤ last)

section

variable (h : HashLinked O chain) (h' : HashLinked O chain') (hword : chain.length ≤ 2 ^ 64)
  (hword' : chain'.length ≤ 2 ^ 64)

include h h' hword hword'

theorem getElem?_of_mem (hi : chain[i]? = some header) (hmem : header ∈ chain') :
    chain'[i]? = some header := by
  obtain ⟨j, hj⟩ := List.mem_iff_getElem?.mp hmem
  have hlt := (List.getElem?_eq_some_iff.mp hi).1
  have hlt' := (List.getElem?_eq_some_iff.mp hj).1
  have hsame : BitVec.ofNat 64 i = BitVec.ofNat 64 j :=
    (h.number_eq hi).symm.trans (h'.number_eq hj)
  have hnat := congrArg BitVec.toNat hsame
  rw [toNat_ofNat_of_lt (by omega), toNat_ofNat_of_lt (by omega)] at hnat
  rw [hnat]
  exact hj

/-- **Below a common block every block is common.** -/
theorem common_below (hinj : NoCollision O chain chain') {j : ℕ} (hle : i ≤ j) {top : BlockHeader}
    (htop : chain[j]? = some top) (hmem : top ∈ chain') (hi : chain[i]? = some header) :
    header ∈ chain' := by
  -- downwards from the common block: the parents have one hash
  induction j, hle using Nat.le_induction generalizing top with
  | base =>
    rw [hi] at htop
    exact Option.some.inj htop ▸ hmem
  | succ j hle ih =>
    have htop' := getElem?_of_mem h h' hword hword' htop hmem
    obtain ⟨hlt, hget⟩ := List.getElem?_eq_some_iff.mp htop
    obtain ⟨hlt', hget'⟩ := List.getElem?_eq_some_iff.mp htop'
    have hparent := (List.isChain_iff_getElem.mp h.linked j hlt).1
    have hparent' := (List.isChain_iff_getElem.mp h'.linked j hlt').1
    have hsame : chain[j].hash O = chain'[j].hash O := by
      rw [← hparent, ← hparent', hget, hget']
    have heq := hinj _ (by simp) _ (by simp) hsame
    refine ih (List.getElem?_eq_getElem (by omega)) ?_
    rw [heq]
    exact List.getElem_mem _

theorem exists_lastCommon (hinj : NoCollision O chain chain') (hne : chain ≠ [])
    (hgenesis : chain.head? = chain'.head?) : ∃ last < chain.length, CommonUpTo chain chain' last := by
  have hpos := List.length_pos_iff.mpr hne
  let common : ℕ → Prop := fun i => ∃ header, chain[i]? = some header ∧ header ∈ chain'
  have hzero : common 0 := by
    refine ⟨chain[0], List.getElem?_eq_getElem hpos, ?_⟩
    have hhead : chain'.head? = some chain[0] := by
      rw [← hgenesis, List.head?_eq_getElem?, List.getElem?_eq_getElem hpos]
    exact List.mem_of_head? hhead
  classical
  obtain ⟨hlast, hmax⟩ : common (Nat.findGreatest common (chain.length - 1)) ∧
      ∀ i, common i → i ≤ Nat.findGreatest common (chain.length - 1) := by
    refine ⟨Nat.findGreatest_spec (Nat.zero_le _) hzero, ?_⟩
    rintro i ⟨header, hget, hmem⟩
    have hlt := (List.getElem?_eq_some_iff.mp hget).1
    exact Nat.le_findGreatest (by omega) ⟨header, hget, hmem⟩
  refine ⟨Nat.findGreatest common (chain.length - 1), ?_, fun i header hi => ?_⟩
  · have hle := Nat.findGreatest_le (P := common) (chain.length - 1)
    omega
  · constructor
    · exact fun hmem => hmax i ⟨header, hi, hmem⟩
    · intro hle
      obtain ⟨top, htop, hmem⟩ := hlast
      exact common_below h h' hword hword' hinj hle htop hmem hi

end

def commonBlocks (chain chain' : List BlockHeader) : List BlockHeader :=
  chain.filter fun header => header ∈ chain'

theorem filter_eq_take {α : Type} {l : List α} {p : α → Bool} {n : ℕ}
    (h : ∀ i a, l[i]? = some a → (p a = true ↔ i < n)) : l.filter p = l.take n := by
  induction l generalizing n with
  | nil => simp
  | cons a l ih =>
    cases n with
    | zero =>
      refine List.filter_eq_nil_iff.mpr fun b hb => ?_
      obtain ⟨i, hi⟩ := List.mem_iff_getElem?.mp hb
      simp [h i b hi]
    | succ n =>
      rw [List.filter_cons_of_pos ((h 0 a rfl).mpr n.succ_pos), List.take_succ_cons,
        ih fun i b hi => (h (i + 1) b hi).trans Nat.succ_lt_succ_iff]

theorem commonBlocks_eq_take (hlast : CommonUpTo chain chain' last) :
    commonBlocks chain chain' = chain.take (last + 1) := by
  refine filter_eq_take fun i header hi => ?_
  rw [decide_eq_true_iff, hlast i header hi, Nat.lt_succ_iff]

theorem length_missed_le (h : HashLinked O chain) (hword : chain.length ≤ 2 ^ 64)
    (hlast : CommonUpTo chain chain' last) (k : ℕ) :
    ((commonBlocks chain chain').filter fun header => k < header.number.toNat).length ≤ last - k := by
  rw [commonBlocks_eq_take hlast]
  have hlow : ((chain.take (last + 1)).filter fun header => !decide (k < header.number.toNat)) =
      (chain.take (last + 1)).take (k + 1) := by
    refine filter_eq_take fun i header hi => ?_
    rw [List.getElem?_take] at hi
    split at hi
    · have hbound := (List.getElem?_eq_some_iff.mp hi).1
      rw [h.number_eq hi, toNat_ofNat_of_lt (by omega)]
      simp
    · cases hi
  have hsum := List.length_eq_length_filter_add (l := chain.take (last + 1))
    fun header => decide (k < header.number.toNat)
  rw [hlow] at hsum
  simp only [List.length_take] at hsum
  omega

end Common

/-! ## Asking -/

section Asking

variable {s : SledStorage} {chain : List BlockHeader}

def locatorEntry (O : Oracle) (s : SledStorage) (height : U64) : Except NodeError String := do
  let block ← liftStorage (s.blockByNumber height)
  pure (Hash256.toHex (block.header.hash O))

def hashAt (O : Oracle) (chain : List BlockHeader) (k : U64) : Hash256 :=
  ((chain[k.toNat]?).map (BlockHeader.hash O)).getD 0

theorem recoveryLocatorFrom_eq (fuel : ℕ) (height step : U64) (count : ℕ) :
    recoveryLocatorFrom O s fuel height step count =
      (locatorHeights fuel height step count).mapM (locatorEntry O s) := by
  induction fuel generalizing height step count with
  | zero => rfl
  | succ fuel ih =>
    rw [recoveryLocatorFrom, locatorHeights]
    cases hread : liftStorage (s.blockByNumber height) with
    | error e =>
      split <;> rw [List.mapM_cons, locatorEntry, hread] <;> rfl
    | ok block =>
      by_cases hzero : height = 0
      · rw [if_pos hzero, List.mapM_cons, locatorEntry, hread, ok_bind]
        dsimp only
        rw [if_pos hzero]
        rfl
      · rw [if_neg hzero, List.mapM_cons, locatorEntry, hread, ok_bind, ← ih]
        dsimp only
        rw [if_neg hzero]
        rfl

theorem CanonicalChain.length_pos (h : CanonicalChain O s chain) : 0 < chain.length :=
  List.length_pos_iff.mpr h.nonempty

def tipNumber (chain : List BlockHeader) : U64 := BitVec.ofNat 64 (chain.length - 1)

theorem CanonicalChain.toNat_tipNumber (h : CanonicalChain O s chain) :
    (tipNumber chain).toNat = chain.length - 1 := by
  have hpos := h.length_pos
  have hword := h.word
  rw [tipNumber, toNat_ofNat_of_lt (by omega)]

def chainHeights (chain : List BlockHeader) : List U64 :=
  locatorHeights ((tipNumber chain).toNat + 1) (tipNumber chain) 1 0

theorem CanonicalChain.lt_of_named (h : CanonicalChain O s chain) (hk : k ∈ chainHeights chain) :
    k.toNat < chain.length := by
  have hpos := h.length_pos
  have htip := h.toNat_tipNumber
  rcases mem_locatorHeights.mp hk with rfl | ⟨hle, -⟩
  · exact hpos
  · omega

theorem CanonicalChain.recoveryLocator_eq (h : CanonicalChain O s chain) :
    recoveryLocator O s = (chainHeights chain).mapM (locatorEntry O s) := by
  have hpos := h.length_pos
  have htip := h.toNat_tipNumber
  obtain ⟨best, hbest⟩ : ∃ best, chain[chain.length - 1]? = some best :=
    ⟨_, List.getElem?_eq_getElem (by omega)⟩
  have hheader : s.bestHeader = .ok best := by
    have hrow := h.headers (tipNumber chain)
    rw [htip, hbest] at hrow
    unfold SledStorage.bestHeader SledStorage.getBestNumber
    rw [h.best]
    show s.headerByNumber (tipNumber chain) = _
    unfold SledStorage.headerByNumber
    rw [hrow]
    rfl
  have hnumber : best.number = tipNumber chain := h.linked.number_eq hbest
  unfold recoveryLocator
  rw [hheader]
  show recoveryLocatorFrom O s (best.number.toNat + 1) best.number 1 0 = _
  rw [recoveryLocatorFrom_eq, hnumber]
  rfl

theorem CanonicalChain.recoveryLocator_of_bodies (h : CanonicalChain O s chain)
    (hbodies : ∀ k ∈ chainHeights chain, (s.blocks[k]?).isSome) :
    recoveryLocator O s = .ok ((chainHeights chain).map fun k =>
      Hash256.toHex (hashAt O chain k)) := by
  rw [h.recoveryLocator_eq]
  have hlt : ∀ k ∈ chainHeights chain, k.toNat < chain.length := fun k hk => h.lt_of_named hk
  generalize chainHeights chain = heights at hbodies hlt
  induction heights with
  | nil => rfl
  | cons k heights ih =>
    obtain ⟨block, hblock⟩ := Option.isSome_iff_exists.mp (hbodies k (by simp))
    have hheader := h.bodies k block hblock (hlt k (by simp))
    have hread : liftStorage (s.blockByNumber k) = .ok block := by
      unfold SledStorage.blockByNumber
      rw [hblock]
      rfl
    have hhash : hashAt O chain k = block.header.hash O := by
      rw [hashAt, hheader]
      rfl
    rw [List.mapM_cons, locatorEntry, hread, ok_bind,
      ih (fun k' hk' => hbodies k' (List.mem_cons_of_mem k hk'))
        fun k' hk' => hlt k' (List.mem_cons_of_mem k hk'), List.map_cons, hhash]
    rfl

theorem CanonicalChain.bodies_of_recoveryLocator (h : CanonicalChain O s chain)
    {locator : List String} (hlocator : recoveryLocator O s = .ok locator) :
    ∀ k ∈ chainHeights chain, (s.blocks[k]?).isSome := by
  rw [h.recoveryLocator_eq] at hlocator
  intro k hk
  obtain ⟨_, -, hentry⟩ := forall_of_mapM_eq_ok hlocator k hk
  simp only [locatorEntry, liftStorage, bind_eq_ok, mapError_eq_ok] at hentry
  obtain ⟨block, hblock, -⟩ := hentry
  rw [blockByNumber_eq_ok.mp hblock]
  rfl

end Asking

/-! ## Answering -/

def answerTo (O : Oracle) (s : SledStorage) (hash : Hash256) : Option (U64 × Hash256) :=
  (s.headerByHash O hash).toOption.map fun header => (header.number, hash)

theorem findCommonAncestor_map {s : SledStorage} {heights : List U64} {f : U64 → Hash256}
    (hlen : heights.length ≤ maxP2pHeaders) :
    findCommonAncestor O s (heights.map fun k => Hash256.toHex (f k)) =
      .ok ⟨(heights.findSome? fun k => answerTo O s (f k)).map Prod.fst,
        (heights.findSome? fun k => answerTo O s (f k)).map fun p => Hash256.toHex p.2⟩ := by
  have hentry : ∀ k, (Hash256.fromHex (Hash256.toHex (f k)) >>= fun hash =>
      (s.headerByHash O hash).toOption >>= fun header => pure (header.number, hash)) =
      answerTo O s (f k) := by
    intro k
    rw [fromHex_toHex, answerTo]
    show ((s.headerByHash O (f k)).toOption >>= _) = _
    cases (s.headerByHash O (f k)).toOption <;> rfl
  unfold findCommonAncestor
  rw [if_neg (by rw [List.length_map]; omega), List.findSome?_map]
  simp only [Function.comp_def, hentry]
  rfl

theorem findSome?_of_ite {α β : Type} {l : List α} {f : α → Option β} {p : α → Bool} {g : α → β}
    (h : ∀ a ∈ l, f a = if p a then some (g a) else none) : l.findSome? f = (l.find? p).map g := by
  induction l with
  | nil => rfl
  | cons a l ih =>
    have hrest := ih fun b hb => h b (List.mem_cons_of_mem a hb)
    rw [List.findSome?_cons, List.find?_cons, h a (by simp)]
    cases hp : p a with
    | true => rfl
    | false => simpa using hrest

/-- The answer is a block of both chains, and it misses at most as many common blocks as the tip
of the asking node is above the last common one. -/
def LocatesAncestor (O : Oracle) (requester responder : SledStorage)
    (chain chain' : List BlockHeader) : Prop :=
  ∃ header, locatorExchange O requester responder =
      .ok ⟨some header.number, some (Hash256.toHex (header.hash O))⟩ ∧
    header ∈ chain ∧ header ∈ chain' ∧
    ∀ tip last, chain.getLast? = some tip → (commonBlocks chain chain').getLast? = some last →
      ((commonBlocks chain chain').filter fun other =>
        header.number.toNat < other.number.toNat).length ≤ tip.number.toNat - last.number.toNat

section Exchange

variable {requester responder : SledStorage} {chain chain' : List BlockHeader}

theorem length_chainHeights_le (chain : List BlockHeader) :
    (chainHeights chain).length ≤ maxP2pHeaders :=
  le_trans (length_locatorHeights_le (atIndex_zero _) (by omega)) (by decide)

theorem locatorExchange_eq (h : CanonicalChain O requester chain)
    (hbodies : ∀ k ∈ chainHeights chain, (requester.blocks[k]?).isSome) :
    locatorExchange O requester responder = .ok
      ⟨((chainHeights chain).findSome? fun k => answerTo O responder (hashAt O chain k)).map Prod.fst,
        ((chainHeights chain).findSome? fun k => answerTo O responder (hashAt O chain k)).map
          fun p => Hash256.toHex p.2⟩ := by
  unfold locatorExchange
  rw [h.recoveryLocator_of_bodies hbodies, ok_bind,
    findCommonAncestor_map (length_chainHeights_le chain)]

theorem answerTo_of_mem (h' : CanonicalChain O responder chain') (hinj : NoCollision O chain chain')
    (hmem : header ∈ chain) (hmem' : header ∈ chain') :
    answerTo O responder (header.hash O) = some (header.number, header.hash O) := by
  obtain ⟨i, hi⟩ := List.mem_iff_getElem?.mp hmem'
  have hlt := (List.getElem?_eq_some_iff.mp hi).1
  have hword := h'.word
  have hrow := h'.headers (BitVec.ofNat 64 i)
  rw [toNat_ofNat_of_lt (by omega), hi] at hrow
  obtain ⟨k, other, hother, hhash, hfound, -⟩ := headerByHash_of_stored rfl hrow rfl
  rw [h'.headers] at hother
  have hmemOther : other ∈ chain' := List.mem_of_getElem? hother
  unfold answerTo
  rw [hfound, hinj other (by simp [hmemOther]) header (by simp [hmem]) hhash]
  rfl

theorem answerTo_of_not_mem (h' : CanonicalChain O responder chain')
    (hinj : NoCollision O chain chain') (hmem : header ∈ chain) (hnot : header ∉ chain')
    (hpool : responder.candidates[header.hash O]? = none) :
    answerTo O responder (header.hash O) = none := by
  have hunknown : ¬Known O responder (header.hash O) := by
    rw [known_iff]
    rintro (⟨k, other, hrow, hhash⟩ | hcandidate)
    · rw [h'.headers] at hrow
      have hother : other ∈ chain' := List.mem_of_getElem? hrow
      rw [hinj other (by simp [hother]) header (by simp [hmem]) hhash] at hother
      exact hnot hother
    · rw [hpool] at hcandidate
      simp at hcandidate
  obtain ⟨e, he⟩ := headerByHash_of_not_known hunknown
  rw [answerTo, he]
  rfl

theorem hashAt_eq (hk : chain[k.toNat]? = some header) : hashAt O chain k = header.hash O := by
  rw [hashAt, hk]
  rfl

theorem CanonicalChain.exists_named (h : CanonicalChain O requester chain)
    (hk : k ∈ chainHeights chain) :
    ∃ header, chain[k.toNat]? = some header ∧ header.number = k := by
  have hget := List.getElem?_eq_getElem (h.lt_of_named hk)
  refine ⟨_, hget, ?_⟩
  rw [h.linked.number_eq hget, ofNat_toNat]

/-- A good answer comes from the first height the peer knows, so no named block off its chain is
among its candidates. -/
theorem pool_of_locatesAncestor (h : CanonicalChain O requester chain)
    (hinj : NoCollision O chain chain')
    (hlast : CommonUpTo chain chain' last)
    (hbodies : ∀ k ∈ chainHeights chain, (requester.blocks[k]?).isSome)
    (hlocates : LocatesAncestor O requester responder chain chain') {other : BlockHeader}
    (hk : k ∈ chainHeights chain) (hget : chain[k.toNat]? = some other) (hnot : other ∉ chain') :
    responder.candidates[other.hash O]? = none := by
  obtain ⟨header, hexchange, hmem, hmem', -⟩ := hlocates
  by_contra hsome
  rw [locatorExchange_eq h hbodies] at hexchange
  cases hfind : (chainHeights chain).findSome? fun k => answerTo O responder (hashAt O chain k) with
  | none =>
    rw [hfind] at hexchange
    simp at hexchange
  | some p =>
    rw [hfind] at hexchange
    obtain ⟨before, first, after, hsplit, hfirst, hbefore⟩ := List.findSome?_eq_some_iff.mp hfind
    simp only [Option.map_some, Except.ok.injEq, CommonAncestor.mk.injEq, Option.some.injEq]
      at hexchange
    have hhex := congrArg Hash256.fromHex hexchange.2
    rw [fromHex_toHex, fromHex_toHex, Option.some.injEq] at hhex
    -- the hash that was answered is that of the common block, so this is the block it stands for
    have hin : first ∈ chainHeights chain := by
      rw [hsplit]
      simp
    obtain ⟨found, hfound, -⟩ := h.exists_named hin
    have hsame : found = header := by
      refine hinj _ (by simp [List.mem_of_getElem? hfound]) _ (by simp [hmem]) ?_
      obtain ⟨answer, -, hanswer⟩ := Option.map_eq_some_iff.mp hfirst
      rw [← hhex, ← hanswer, hashAt_eq hfound]
    have hbound := (hlast _ _ hfound).mp (hsame ▸ hmem')
    -- the peer knows the candidate as well, so it is not before that block
    have hknown : answerTo O responder (hashAt O chain k) ≠ none := by
      rw [hashAt_eq hget]
      obtain ⟨answer, hanswer⟩ := known_iff.mpr (.inr (Option.ne_none_iff_isSome.mp hsome))
      rw [answerTo, hanswer]
      simp [Except.toOption]
    have hafter : k.toNat ≤ first.toNat := by
      have hsorted : (chainHeights chain).Pairwise fun k k' => k'.toNat ≤ k.toNat :=
        pairwise_locatorHeights (atIndex_zero _) (Nat.lt_succ_self _)
      rw [hsplit] at hk hsorted
      rcases List.mem_append.mp hk with hk | hk
      · exact absurd (hbefore k hk) hknown
      · rcases List.mem_cons.mp hk with rfl | hk
        · exact le_rfl
        · exact (List.pairwise_cons.mp (List.pairwise_append.mp hsorted).2.1).1 k hk
    exact hnot ((hlast _ _ hget).mpr (hafter.trans hbound))

/-- Without such candidates the peer knows exactly the named blocks up to the last common one. -/
theorem answerTo_named (h : CanonicalChain O requester chain)
    (h' : CanonicalChain O responder chain') (hinj : NoCollision O chain chain')
    (hlast : CommonUpTo chain chain' last)
    (hpool : ∀ (k : U64) header, k ∈ chainHeights chain → chain[k.toNat]? = some header →
      header ∉ chain' → responder.candidates[header.hash O]? = none) :
    ∀ k ∈ chainHeights chain, answerTo O responder (hashAt O chain k) =
      if decide (k.toNat ≤ last) then some (k, hashAt O chain k) else none := by
  intro k hk
  obtain ⟨header, hget, hnumber⟩ := h.exists_named hk
  have hmem := List.mem_of_getElem? hget
  rw [hashAt_eq hget]
  by_cases hle : k.toNat ≤ last
  · rw [answerTo_of_mem h' hinj hmem ((hlast _ _ hget).mpr hle), hnumber]
    simp [hle]
  · have hnot : header ∉ chain' := fun hin => hle ((hlast _ _ hget).mp hin)
    rw [answerTo_of_not_mem h' hinj hmem hnot (hpool k header hk hget hnot)]
    simp [hle]

/-- What the distance of the answer from the last common block says of the blocks it misses. -/
theorem length_missed_le_above (h : CanonicalChain O requester chain) {k : ℕ}
    (hlt : last < chain.length)
    (hlast : CommonUpTo chain chain' last)
    (hclose : 2 * last ≤ (tipNumber chain).toNat + k) {tip top : BlockHeader}
    (htip : chain.getLast? = some tip) (htop : (commonBlocks chain chain').getLast? = some top) :
    ((commonBlocks chain chain').filter fun other => k < other.number.toNat).length ≤
      tip.number.toNat - top.number.toNat := by
  have hmissed := length_missed_le h.linked h.word hlast k
  have hword := h.word
  rw [List.getLast?_eq_getElem?] at htip
  have htipNumber : tip.number = tipNumber chain := h.linked.number_eq htip
  rw [commonBlocks_eq_take hlast, List.getLast?_eq_getElem?, List.length_take,
    List.getElem?_take, show min (last + 1) chain.length - 1 = last by omega] at htop
  simp only [Nat.lt_succ_self, if_true] at htop
  have htopNumber : top.number.toNat = last := by
    rw [h.linked.number_eq htop, toNat_ofNat_of_lt (by omega)]
  rw [htipNumber, htopNumber]
  omega

/-- **The first known hash is the right one exactly if the pool does not interfere.** For every
two nodes with a common genesis block and any pool of the peer: the exchange answers with a common
block that misses few others if and only if the asking node has the bodies it names and the peer
has none of the named blocks off its own chain among its candidates. -/
theorem locator_exchange_iff (h : CanonicalChain O requester chain)
    (h' : CanonicalChain O responder chain') (hgenesis : chain.head? = chain'.head?)
    (hinj : NoCollision O chain chain') :
    LocatesAncestor O requester responder chain chain' ↔
      (∀ k, Named (tipNumber chain) k → (requester.blocks[k]?).isSome) ∧
      ∀ (k : U64) header, Named (tipNumber chain) k → chain[k.toNat]? = some header →
        header ∉ chain' → responder.candidates[header.hash O]? = none := by
  obtain ⟨last, hlt, hlast⟩ := exists_lastCommon h.linked h'.linked h.word h'.word hinj h.nonempty
    hgenesis
  have hnamed : ∀ k, Named (tipNumber chain) k ↔ k ∈ chainHeights chain := fun k =>
    mem_locatorHeights.symm
  simp only [hnamed]
  constructor
  · intro hlocates
    have hbodies : ∀ k ∈ chainHeights chain, (requester.blocks[k]?).isSome := by
      obtain ⟨header, hexchange, -⟩ := hlocates
      obtain ⟨locator, hlocator, -⟩ := bind_eq_ok.mp hexchange
      exact h.bodies_of_recoveryLocator hlocator
    exact ⟨hbodies, fun k header hk hget hnot =>
      pool_of_locatesAncestor h hinj hlast hbodies hlocates hk hget hnot⟩
  · rintro ⟨hbodies, hpool⟩
    have htip := h.toNat_tipNumber
    obtain ⟨k, hfind, hle, hclose⟩ := find_locatorHeights last (atIndex_zero (tipNumber chain))
      (Nat.lt_succ_self _) (by omega)
    obtain ⟨header, hget, hnumber⟩ := h.exists_named (List.mem_of_find?_eq_some hfind)
    have hsearch : ((chainHeights chain).findSome? fun k =>
        answerTo O responder (hashAt O chain k)) = some (k, hashAt O chain k) := by
      rw [findSome?_of_ite (answerTo_named h h' hinj hlast hpool),
        show (chainHeights chain).find? (fun k => decide (k.toNat ≤ last)) = some k from hfind]
      rfl
    refine ⟨header, ?_, List.mem_of_getElem? hget, (hlast _ _ hget).mpr hle, ?_⟩
    · rw [locatorExchange_eq h hbodies, hsearch, hashAt_eq hget, hnumber]
      rfl
    · intro tip top htip htop
      rw [hnumber]
      exact length_missed_le_above h hlt hlast hclose htip htop

end Exchange

/-! ## A candidate is taken for an ancestor -/

/-- Node with a rival at its tip that holds the first block among its candidates: it had no
snapshot to replay it from. -/
def poolNode : Node := rivalNode.deliver nonceOracle noContracts plainConfig openHost firstBlock

theorem poolNode_storage : poolNode.storage.bestNumber = some 1 ∧
    poolNode.storage.headers.toList = [(0, genesisHeader nonceOracle), (1, rivalBlock.header)] ∧
    poolNode.storage.blocks.toList = [(0, genesisBlock nonceOracle), (1, rivalBlock)] ∧
    poolNode.storage.candidates[firstBlock.header.hash nonceOracle]? = some firstBlock ∧
    rivalNode.storage.bestNumber = some 1 ∧
    rivalNode.storage.headers.toList = [(0, genesisHeader nonceOracle), (1, rivalBlock.header)] ∧
    rivalNode.storage.blocks.toList = [(0, genesisBlock nonceOracle), (1, rivalBlock)] ∧
    rivalNode.storage.candidates = ∅ := by
  decide +kernel

theorem getElem?_of_toList_pair {α : Type} {m : Map U64 α} {a b : α}
    (h : m.toList = [(0, a), (1, b)]) (k : U64) : m[k]? = [a, b][k.toNat]? := by
  refine Option.ext fun v => ?_
  rw [← Map.mem_toList_iff, h]
  simp only [List.mem_cons, Prod.mk.injEq, List.not_mem_nil, or_false, ← BitVec.toNat_inj]
  match k.toNat with
  | 0 => simp [eq_comm]
  | 1 => simp [eq_comm]
  | n + 2 => simp

theorem canonicalChain_pair {s : SledStorage} {child : Block} (hbest : s.bestNumber = some 1)
    (hheaders : s.headers.toList = [(0, genesisHeader nonceOracle), (1, child.header)])
    (hblocks : s.blocks.toList = [(0, genesisBlock nonceOracle), (1, child)])
    (hparent : child.header.parentHash = (genesisHeader nonceOracle).hash nonceOracle)
    (hnumber : child.header.number = 1) :
    CanonicalChain nonceOracle s [genesisHeader nonceOracle, child.header] := by
  refine ⟨by simp, ⟨?_, ?_⟩, by simp, hbest, getElem?_of_toList_pair hheaders, ?_⟩
  · intro header hheader
    obtain rfl := Option.some.inj hheader
    rfl
  · simp only [List.isChain_cons_cons, List.isChain_singleton, and_true]
    exact ⟨hparent, hnumber⟩
  · intro k block hblock hlt
    rw [getElem?_of_toList_pair hblocks] at hblock
    have hmap : [genesisHeader nonceOracle, child.header] =
        [genesisBlock nonceOracle, child].map Block.header := rfl
    rw [hmap, List.getElem?_map, hblock]
    rfl

theorem heldNode_chain : CanonicalChain nonceOracle heldNode.storage
    [genesisHeader nonceOracle, firstBlock.header] := by
  obtain ⟨hbest, hheaders, hblocks, -⟩ := heldNode_storage
  exact canonicalChain_pair hbest hheaders hblocks rfl rfl

theorem poolNode_chain : CanonicalChain nonceOracle poolNode.storage
    [genesisHeader nonceOracle, rivalBlock.header] := by
  obtain ⟨hbest, hheaders, hblocks, -⟩ := poolNode_storage
  exact canonicalChain_pair hbest hheaders hblocks rfl rfl

theorem rivalNode_chain : CanonicalChain nonceOracle rivalNode.storage
    [genesisHeader nonceOracle, rivalBlock.header] := by
  obtain ⟨-, -, -, -, hbest, hheaders, hblocks, -⟩ := poolNode_storage
  exact canonicalChain_pair hbest hheaders hblocks rfl rfl

theorem noCollision_rivals : NoCollision nonceOracle
    [genesisHeader nonceOracle, firstBlock.header] [genesisHeader nonceOracle, rivalBlock.header] := by
  unfold NoCollision
  decide +kernel

theorem not_locatesAncestor_candidate {requester responder : SledStorage}
    (hexchange : locatorExchange nonceOracle requester responder =
      .ok ⟨some 1, some (Hash256.toHex (firstBlock.header.hash nonceOracle))⟩) :
    ¬LocatesAncestor nonceOracle requester responder
      [genesisHeader nonceOracle, firstBlock.header] [genesisHeader nonceOracle, rivalBlock.header] := by
  rintro ⟨header, hanswer, hmem, hmem', -⟩
  rw [hexchange, Except.ok.injEq, CommonAncestor.mk.injEq, Option.some.injEq, Option.some.injEq]
    at hanswer
  have hhash := congrArg Hash256.fromHex hanswer.2
  rw [fromHex_toHex, fromHex_toHex, Option.some.injEq] at hhash
  have hsame := noCollision_rivals firstBlock.header (by simp) header
    (List.mem_append_left _ hmem) hhash
  rw [← hsame] at hmem'
  exact absurd hmem' (by decide +kernel)

/-- **A peer answers with a candidate**: the first block is at the tip of the asking node, and the
peer, whose chain has another block there, takes it for a common ancestor. -/
theorem candidate_is_no_ancestor :
    Reachable nonceOracle noContracts plainConfig heldNode ∧
    Reachable nonceOracle noContracts plainConfig poolNode ∧
    CanonicalChain nonceOracle heldNode.storage [genesisHeader nonceOracle, firstBlock.header] ∧
    CanonicalChain nonceOracle poolNode.storage [genesisHeader nonceOracle, rivalBlock.header] ∧
    locatorExchange nonceOracle heldNode.storage poolNode.storage =
      .ok ⟨some 1, some (Hash256.toHex (firstBlock.header.hash nonceOracle))⟩ ∧
    ¬LocatesAncestor nonceOracle heldNode.storage poolNode.storage
      [genesisHeader nonceOracle, firstBlock.header] [genesisHeader nonceOracle, rivalBlock.header] := by
  have hexchange : locatorExchange nonceOracle heldNode.storage poolNode.storage =
      .ok ⟨some 1, some (Hash256.toHex (firstBlock.header.hash nonceOracle))⟩ := by
    decide +kernel
  exact ⟨heldNode_reachable, .deliver _ _ _ (.deliver _ _ _ startNode_reachable), heldNode_chain,
    poolNode_chain, hexchange, not_locatesAncestor_candidate hexchange⟩

theorem locator_exchange_iff_rivalNode :
    LocatesAncestor nonceOracle heldNode.storage rivalNode.storage
      [genesisHeader nonceOracle, firstBlock.header] [genesisHeader nonceOracle, rivalBlock.header] ↔
      (∀ k, Named (tipNumber [genesisHeader nonceOracle, firstBlock.header]) k →
        (heldNode.storage.blocks[k]?).isSome) ∧
      ∀ (k : U64) header, Named (tipNumber [genesisHeader nonceOracle, firstBlock.header]) k →
        [genesisHeader nonceOracle, firstBlock.header][k.toNat]? = some header →
        header ∉ [genesisHeader nonceOracle, rivalBlock.header] →
        rivalNode.storage.candidates[header.hash nonceOracle]? = none :=
  locator_exchange_iff heldNode_chain rivalNode_chain rfl noCollision_rivals

end Blq
