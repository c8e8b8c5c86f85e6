import Blq.Proof.Competing

/-!
# A replayed branch becomes the canonical chain

Once a branch that leaves the chain below its tip has been replayed and outranks the chain,
nothing stands between it and the tip as long as the canonical bodies can be read.

* `exists_suffixSupplyTotals`: the supply index is brought up to the tip.
* `exists_publishCanonicalSuffix`: the suffix is replaced in one write.
* `stageAndPublishCandidate_of_replayed`: the last block of the branch is the new tip.
-/

namespace Blq

open Word Result

variable {O : Oracle} {R : Revm} {config : NodeConfig} {H : Host} {s s' : SledStorage} {b : Block}

/-! ## Reading the chain -/

variable {first last k height : U64} {tip : BlockHeader}

theorem mem_heights :
    k ∈ SledStorage.heights first last ↔ first.toNat ≤ k.toNat ∧ k.toNat ≤ last.toNat := by
  have hlast := last.isLt
  unfold SledStorage.heights
  simp only [List.mem_map, List.mem_range'_1]
  constructor
  · rintro ⟨n, hn, rfl⟩
    rw [toNat_ofNat_of_lt (by omega)]
    omega
  · intro hk
    exact ⟨k.toNat, by omega, by simp⟩

theorem getLast?_heights (h : first.toNat ≤ last.toNat) :
    (SledStorage.heights first last).getLast? = some last := by
  unfold SledStorage.heights
  have hlength : last.toNat + 1 - first.toNat = (last.toNat - first.toNat) + 1 := by omega
  rw [hlength, List.range'_concat, List.map_append, List.map_singleton, List.getLast?_concat]
  have hsum : first.toNat + 1 * (last.toNat - first.toNat) = last.toNat := by omega
  rw [hsum, ofNat_toNat]

/-- The canonical bodies up to a height can be read. -/
structure ReadableThrough (s : SledStorage) (height : U64) : Prop where
  consistent : ChainConsistent s.blocks s.headers
  body : ∀ k : U64, k.toNat ≤ height.toNat → ∃ block, s.blocks[k]? = some block

theorem ReadableThrough.view (h : ReadableThrough s height) (hview : s'.chainView = s.chainView) :
    ReadableThrough s' height := by
  have hblocks : s'.blocks = s.blocks := congrArg ChainView.blocks hview
  have hheaders : s'.headers = s.headers := congrArg ChainView.headers hview
  refine ⟨?_, fun k hk => ?_⟩
  · rw [hblocks, hheaders]
    exact h.consistent
  · rw [hblocks]
    exact h.body k hk

theorem bestHeader_of_view (hview : s'.chainView = s.chainView) : s'.bestHeader = s.bestHeader := by
  have hheaders : s'.headers = s.headers := congrArg ChainView.headers hview
  have hbest : s'.bestNumber = s.bestNumber := congrArg ChainView.bestNumber hview
  unfold SledStorage.bestHeader SledStorage.getBestNumber SledStorage.headerByNumber
  rw [hheaders, hbest]

theorem ChainConsistent.header_number (h : ChainConsistent s.blocks s.headers)
    {header : BlockHeader} (hk : s.headers[k]? = some header) : header.number = k := by
  rw [h.header k] at hk
  obtain ⟨block, hblock, rfl⟩ := Option.map_eq_some_iff.mp hk
  exact h.number k block hblock

theorem bodies_of_work {work : U128} (h : canonicalWorkThroughNodeStorage s height = .ok work)
    (k : U64) (hk : k.toNat ≤ height.toNat) : ∃ block, s.blocks[k]? = some block := by
  have hread := forall_of_foldlM_eq_ok (p := fun k => ∃ block, s.blockByNumber k = .ok block)
    (fun _ _ _ hstep => ?_) h k (mem_heights.mpr ⟨by simp, hk⟩)
  · obtain ⟨block, hblock⟩ := hread
    exact ⟨block, blockByNumber_eq_ok.mp hblock⟩
  · obtain ⟨block, hblock, -⟩ := bind_eq_ok.mp hstep
    exact ⟨block, hblock⟩

theorem readableThrough_of_work (hs : ChainConsistent s.blocks s.headers) {work : U128}
    (h : canonicalWorkThroughNodeStorage s height = .ok work) :
    ReadableThrough s height := ⟨hs, bodies_of_work h⟩

theorem canonicalWorkThroughStorage_eq (hs : ChainConsistent s.blocks s.headers) (height : U64) :
    canonicalWorkThroughStorage s height = canonicalWorkThroughNodeStorage s height := by
  have hturn : ∀ (work : U128) (k : U64),
      (s.headerByNumber k >>= fun header => pure (addWork work header)) =
        (s.blockByNumber k >>= fun block => pure (addWork work block.header)) := by
    intro work k
    unfold SledStorage.headerByNumber SledStorage.blockByNumber
    rw [hs.header k]
    cases s.blocks[k]? <;> rfl
  unfold canonicalWorkThroughStorage canonicalWorkThroughNodeStorage
  simp only [hturn]

/-! ## The supply index -/

theorem exists_parentTimestamp {block : Block} (h : ReadableThrough s height)
    (hk : k.toNat ≤ height.toNat) (hblock : s.blocks[k]? = some block) :
    ∃ timestamp, parentTimestamp s block.header = .ok timestamp := by
  unfold parentTimestamp
  split
  · exact ⟨0, rfl⟩
  next hne =>
    rw [h.consistent.number k block hblock] at hne ⊢
    have hpred : (k - 1).toNat ≤ height.toNat := by
      have hpos : k.toNat ≠ 0 := fun h0 => hne (BitVec.eq_of_toNat_eq (by simpa using h0))
      have hsub : (k - 1).toNat = k.toNat - 1 := by bv_omega
      omega
    obtain ⟨parent, hparent⟩ := h.body (k - 1) hpred
    have hheader : s.headerByNumber (k - 1) = .ok parent.header := by
      refine headerByNumber_eq_ok.mpr ?_
      rw [h.consistent.header, hparent]
      rfl
    rw [hheader]
    exact ⟨parent.header.timestampSeconds, rfl⟩

theorem exists_backfillSupplyStep {best number : U64} (h : ReadableThrough s best)
    (hnumber : number.toNat ≤ best.toNat) (totals : U128 × U128) :
    ∃ totals' s', backfillSupplyStep best totals number s = .ok totals' s' ∧
      s'.chainView = s.chainView ∧ (number = best → s'.supplyTotals.1 = best) := by
  obtain ⟨block, hblock⟩ := h.body number hnumber
  obtain ⟨timestamp, htimestamp⟩ := exists_parentTimestamp h hnumber hblock
  unfold backfillSupplyStep
  rw [readStore_bind_of_ok (blockByNumber_eq_ok.mpr hblock),
    readStore_bind_of_ok htimestamp]
  dsimp only
  split
  next => exact ⟨_, _, rfl, rfl, fun heq => heq⟩
  next hskip => exact ⟨_, _, rfl, rfl, fun heq => absurd (.inr heq) hskip⟩

theorem exists_backfillSupply {best : U64} (h : ReadableThrough s best) (totals : U128 × U128)
    {numbers : List U64} (hnumbers : ∀ k ∈ numbers, k.toNat ≤ best.toNat) :
    ∃ totals' s', numbers.foldlM (backfillSupplyStep best) totals s = .ok totals' s' ∧
      s'.chainView = s.chainView ∧ (numbers.getLast? = some best → s'.supplyTotals.1 = best) := by
  induction numbers using List.reverseRecOn with
  | nil => exact ⟨totals, s, rfl, rfl, by simp⟩
  | append_singleton before last ih =>
    obtain ⟨totals₁, s₁, hrun₁, hview₁, -⟩ := ih fun k hk => hnumbers k (by simp [hk])
    obtain ⟨totals₂, s₂, hrun₂, hview₂, hbest⟩ :=
      exists_backfillSupplyStep (h.view hview₁) (hnumbers last (by simp)) totals₁
    refine ⟨totals₂, s₂, ?_, hview₂.trans hview₁, fun hlast => hbest (by simpa using hlast)⟩
    rw [List.foldlM_append, bind_apply_of_ok hrun₁, List.foldlM_cons, bind_apply_of_ok hrun₂]
    rfl

/-- **The supply index is brought up to the tip.** -/
theorem exists_backfillSupplyStorage (h : ReadableThrough s tip.number)
    (hbest : s.bestHeader = .ok tip) :
    ∃ s', backfillSupplyStorage s = .ok () s' ∧ s'.chainView = s.chainView ∧
      s'.supplyTotals.1 = tip.number := by
  -- from any point below the tip on
  have hfrom : ∀ s₁ : SledStorage, s₁.chainView = s.chainView →
      ¬s₁.supplyTotals.1.toNat > tip.number.toNat → ∃ s',
      (if s₁.supplyTotals.1.toNat ≥ tip.number.toNat then pure ()
        else do
          let _ ← (SledStorage.heights (saturatingAdd s₁.supplyTotals.1 1) tip.number).foldlM
            (backfillSupplyStep tip.number) s₁.supplyTotals.2 : StoreM Unit) s₁ = .ok () s' ∧
        s'.chainView = s.chainView ∧ s'.supplyTotals.1 = tip.number := by
    intro s₁ hview hle
    split
    next hge => exact ⟨s₁, rfl, hview, BitVec.eq_of_toNat_eq (by omega)⟩
    next hlt =>
      have hfirst : (saturatingAdd s₁.supplyTotals.1 1).toNat ≤ tip.number.toNat := by
        rw [toNat_saturatingAdd]
        have hone : (1 : U64).toNat = 1 := rfl
        omega
      obtain ⟨totals, s', hrun, hview', hlast⟩ := exists_backfillSupply (h.view hview)
        s₁.supplyTotals.2 fun k hk => (mem_heights.mp hk).2
      refine ⟨s', ?_, hview'.trans hview, hlast (getLast?_heights hfirst)⟩
      rw [bind_apply_of_ok hrun]
      rfl
  unfold backfillSupplyStorage
  rw [get_bind_apply]
  simp only [hbest]
  split
  · exact hfrom { s with supplyTotals := (0, 0, 0) } rfl (by simp)
  next hle => exact hfrom s rfl hle

theorem exists_mapM_blockByNumber (h : ReadableThrough s height) (hlast : last.toNat ≤ height.toNat) :
    ∃ removed, (SledStorage.heights first last).mapM s.blockByNumber = .ok removed := by
  refine exists_mapM_eq_ok fun k hk => ?_
  obtain ⟨block, hblock⟩ := h.body k ((mem_heights.mp hk).2.trans hlast)
  exact ⟨block, blockByNumber_eq_ok.mpr hblock⟩

theorem exists_suffixSupplyTotals (h : ReadableThrough s tip.number)
    (hbest : s.bestHeader = .ok tip) (ancestor : BlockHeader) (replacement : List Block) :
    ∃ totals s', suffixSupplyTotals ancestor tip replacement s = .ok totals s' ∧
      s'.chainView = s.chainView := by
  have hrest : ∀ s₁ : SledStorage, s₁.chainView = s.chainView → ∃ removed,
      (SledStorage.heights (saturatingAdd ancestor.number 1) tip.number).mapM s₁.blockByNumber =
        .ok removed := fun s₁ hview => exists_mapM_blockByNumber (h.view hview) le_rfl
  unfold suffixSupplyTotals
  rw [get_bind_apply]
  split
  · obtain ⟨s₁, hrun, hview, hindexed⟩ := exists_backfillSupplyStorage h hbest
    obtain ⟨removed, hremoved⟩ := hrest s₁ hview
    rw [bind_apply_of_ok hrun, get_bind_apply, if_neg (by rw [hindexed]; exact lt_irrefl _)]
    exact ⟨_, s₁, (readStore_bind_of_ok hremoved).trans rfl, hview⟩
  · obtain ⟨removed, hremoved⟩ := hrest s rfl
    exact ⟨_, s, (readStore_bind_of_ok hremoved).trans rfl, rfl⟩

/-! ## Replacing the suffix -/

section Contiguous

variable {ε : Type} {err : BlockHeader → BlockHeader → ε} {parent : BlockHeader} {blocks : List Block}

theorem checkContiguous_cons :
    SledStorage.checkContiguous O err parent (b :: blocks) = .ok () ↔
      (b.header.number = saturatingAdd parent.number 1 ∧ b.header.parentHash = parent.hash O) ∧
        SledStorage.checkContiguous O err b.header blocks = .ok () := by
  rw [SledStorage.checkContiguous]
  simp only [ite_throw_eq_ok, not_or, not_not]

theorem number_of_contiguous (h : SledStorage.checkContiguous O err parent blocks = .ok ()) {i : ℕ}
    (hb : blocks[i]? = some b) :
    b.header.number.toNat = min (parent.number.toNat + i + 1) (2 ^ 64 - 1) := by
  induction blocks generalizing parent i with
  | nil => cases hb
  | cons first rest ih =>
    obtain ⟨⟨hnumber, -⟩, hrest⟩ := checkContiguous_cons.mp h
    have hnat := toNat_saturatingAdd_one parent.number
    rw [← hnumber] at hnat
    cases i with
    | zero =>
      obtain rfl := Option.some.inj hb
      exact hnat
    | succ i =>
      rw [ih hrest hb, hnat]
      omega

end Contiguous

theorem checkContiguous_congr {ε ε' : Type} {err : BlockHeader → BlockHeader → ε}
    (err' : BlockHeader → BlockHeader → ε') {parent : BlockHeader} {blocks : List Block}
    (h : SledStorage.checkContiguous O err parent blocks = .ok ()) :
    SledStorage.checkContiguous O err' parent blocks = .ok () := by
  induction blocks generalizing parent with
  | nil => rfl
  | cons block rest ih =>
    rw [checkContiguous_cons] at h ⊢
    exact ⟨h.1, ih h.2⟩

/-- **The suffix above a canonical ancestor is replaced in one write.** -/
theorem exists_publishCanonicalSuffix {ancestor : BlockHeader} {replacement : List Block}
    (h : ReadableThrough s tip.number) (hbest : s.bestHeader = .ok tip)
    (hle : ancestor.number.toNat ≤ tip.number.toNat)
    (hancestor : s.headerByNumber ancestor.number = .ok ancestor)
    (hlinked : SledStorage.checkContiguous O (SledStorage.notContiguous O) ancestor replacement =
      .ok ()) (hlast : replacement.getLast? = some b) (native : NativeAccounts)
    (evm : EvmStateSnapshot) (totals : U64 × U128 × U128) :
    ∃ s', s.publishCanonicalSuffix O ancestor replacement native evm totals = .ok s' := by
  obtain ⟨removed, hremoved⟩ := exists_mapM_blockByNumber h le_rfl
  unfold SledStorage.publishCanonicalSuffix
  rw [hbest, ok_bind, if_neg (Nat.not_lt.mpr hle), hancestor, ok_bind, if_neg (not_not.mpr rfl),
    hlinked, ok_bind, hlast]
  dsimp only
  rw [hremoved]
  exact ⟨_, rfl⟩

def Promoted (s : SledStorage) (b : Block) : Prop :=
  s.bestHeader = .ok b.header ∧ s.blocks[b.header.number]? = some b

theorem promoted_of_publish {ancestor : BlockHeader} {replacement : List Block}
    {native : NativeAccounts} {evm : EvmStateSnapshot} {totals : U64 × U128 × U128}
    (hlast : replacement.getLast? = some b)
    (h : s.publishCanonicalSuffix O ancestor replacement native evm totals = .ok s') :
    Promoted s' b := by
  refine ⟨bestHeader_of_publish hlast h, ?_⟩
  obtain ⟨_, _, removed, hpublished⟩ := publishCanonicalSuffix_eq_ok h
  obtain ⟨before, rfl⟩ := List.getLast?_eq_some_iff.mp hlast
  rw [hpublished.blocks]
  unfold SledStorage.replaceSuffix
  rw [List.foldl_append]
  exact (Map.getElem?_insert_eq _ _ _ _).trans (if_pos rfl)

theorem Promoted.removeCandidates (h : Promoted s b) (hashes : List Hash256) :
    Promoted (s.removeCandidateBlocks hashes) b := by
  refine List.foldlRecOn (motive := fun s' => Promoted s' b) hashes _ h fun s' hs' hash _ => ?_
  exact hs'

/-! ## Publishing a replayed branch -/

section Publish

variable {branch : CandidateBranch} {replayed : ReplayedBranch}

/-- What a replay takes along is that of the database. -/
structure Captures (O : Oracle) (H : Host) (s : SledStorage) (branch : CandidateBranch)
    (captured : CapturedReplay) : Prop where
  ancestor : s.headerByNumber branch.commonHeight = .ok captured.publicationAncestor
  hash : captured.publicationAncestor.hash O = branch.commonHash
  linked : SledStorage.checkContiguous O (SledStorage.notContiguous O) captured.publicationAncestor
    branch.suffix = .ok ()
  snapshot : H.executionSnapshot s branch.commonHeight = some captured.snapshot
  parent : s.headerByNumber captured.snapshot.height = .ok captured.replayParent
  tip : s.bestHeader = .ok captured.activeTip

theorem captures_of_captureReplay {captured : CapturedReplay}
    (h : captureReplay O H s branch = .ok captured) : Captures O H s branch captured := by
  simp only [captureReplay, throw_bind, bind_eq_ok, ite_throw_eq_ok, not_not, liftStorage,
    mapError_eq_ok] at h
  obtain ⟨ancestor, hancestor, hhash, _, hlinked, _, -, h⟩ := h
  split at h
  next snapshot hsnapshot =>
    simp only [bind_eq_ok, ite_throw_eq_ok, mapError_eq_ok, pure_eq_ok] at h
    obtain ⟨parent, hparent, -, _, -, -, -, activeTip, htip, rfl⟩ := h
    exact ⟨hancestor, hhash, checkContiguous_congr _ hlinked, hsnapshot, hparent, htip⟩
  next => exact absurd h throw_ne_ok

theorem finishReplay_eq_ok {captured : CapturedReplay} {overlay : ExecutionReplayOverlay}
    (h : finishReplay O R config H branch captured overlay = .ok replayed) :
    replayed.ancestor = captured.publicationAncestor ∧ replayed.activeTip = captured.activeTip ∧
      branch.suffix.getLast?.map Block.header = some replayed.tip := by
  simp only [finishReplay, throw_bind, bind_eq_ok] at h
  obtain ⟨_, -, _, -, h⟩ := h
  split at h
  next last hlast =>
    simp only [ite_throw_eq_ok, pure_eq_ok] at h
    obtain ⟨-, rfl⟩ := h
    exact ⟨rfl, rfl, by rw [hlast]; rfl⟩
  next => exact absurd h throw_ne_ok

theorem replayCandidate_eq_ok (h : replayCandidate O R config H s branch = .ok replayed) :
    ∃ captured, Captures O H s branch captured ∧
      replayed.ancestor = captured.publicationAncestor ∧ replayed.activeTip = captured.activeTip ∧
      branch.suffix.getLast?.map Block.header = some replayed.tip := by
  simp only [replayCandidate, bind_eq_ok] at h
  obtain ⟨captured, hcapture, _, -, _, -, hfinish⟩ := h
  exact ⟨captured, captures_of_captureReplay hcapture, finishReplay_eq_ok hfinish⟩

theorem commitDirectCandidateExtension_of_fork (hbest : s.bestHeader = .ok tip)
    (hfork : branch.commonHeight ≠ tip.number) :
    commitDirectCandidateExtension O R config branch s = .ok false s := by
  unfold commitDirectCandidateExtension
  split
  · rfl
  · rw [get_bind_apply, readStore_bind_of_ok hbest, if_pos (.inl hfork.symm)]
    rfl

/-- **A replayed branch that outranks the chain becomes the chain**, wherever below the tip it
leaves it. -/
theorem stageAndPublishCandidate_of_replayed {ancestorWork currentWork : U128}
    (hs : ChainConsistent s.blocks s.headers) (hbest : s.bestHeader = .ok tip)
    (hfork : branch.commonHeight.toNat < tip.number.toNat)
    (hancestor : canonicalWorkThroughNodeStorage s branch.commonHeight = .ok ancestorWork)
    (hcurrent : canonicalWorkThroughNodeStorage s tip.number = .ok currentWork)
    (hlast : branch.suffix.getLast? = some b) (hreplaces : publicationReplaces
      ⟨branch.suffix.foldl (fun work block => addWork work block.header) ancestorWork,
        b.header.number, b.header.hash O⟩ ⟨currentWork, tip.number, tip.hash O⟩ = true)
    (hmanifest : H.hasManifest = true)
    (hreplay : replayCandidate O R config H s branch = .ok replayed) :
    ∃ s', stageAndPublishCandidate O R config H branch s = .ok () s' ∧ Promoted s' b := by
  have hread : ReadableThrough s tip.number := readableThrough_of_work hs hcurrent
  obtain ⟨captured, ⟨hstored, -, hlinked, -, -, hactive⟩, hcaptured, hactiveTip, htip⟩ :=
    replayCandidate_eq_ok hreplay
  rw [← hcaptured] at hstored hlinked
  rw [← hactiveTip] at hactive
  obtain rfl : replayed.activeTip = tip := Except.ok.inj (hactive.symm.trans hbest)
  have htip : replayed.tip = b.header := by
    rw [hlast] at htip
    exact (Option.some.inj htip).symm
  have hnumber : replayed.ancestor.number = branch.commonHeight :=
    hs.header_number (headerByNumber_eq_ok.mp hstored)
  rw [← canonicalWorkThroughStorage_eq hs] at hancestor hcurrent
  -- the supply index is brought up to date, and nothing else has changed when the batch is written
  obtain ⟨totals, s₁, hsupply, hview⟩ :=
    exists_suffixSupplyTotals hread hbest replayed.ancestor branch.suffix
  have hstored₁ : s₁.headerByNumber replayed.ancestor.number = .ok replayed.ancestor := by
    have hheaders : s₁.headers = s.headers := congrArg ChainView.headers hview
    rw [hnumber, headerByNumber_eq_ok, hheaders]
    exact headerByNumber_eq_ok.mp hstored
  obtain ⟨s₂, hpublish⟩ := exists_publishCanonicalSuffix (hread.view hview)
    ((bestHeader_of_view hview).trans hbest) (by rw [hnumber]; exact hfork.le) hstored₁ hlinked hlast
    replayed.nativeAccounts replayed.evmAccounts totals
  refine ⟨_, ?_, (promoted_of_publish hlast hpublish).removeCandidates
    (branch.suffix.map fun block => block.header.hash O)⟩
  have hne : branch.commonHeight ≠ replayed.activeTip.number := fun heq => by
    rw [heq] at hfork
    exact lt_irrefl _ hfork
  unfold stageAndPublishCandidate
  rw [bind_apply_of_ok (commitDirectCandidateExtension_of_fork hbest hne), if_neg Bool.false_ne_true,
    get_bind_apply, runExcept_bind_of_ok hreplay]
  unfold publishCandidate
  rw [readStore_bind_of_ok hbest, if_neg (not_not.mpr rfl)]
  refine (readStore_bind_of_ok hancestor).trans ?_
  refine (readStore_bind_of_ok hcurrent).trans ?_
  dsimp only
  rw [htip, hreplaces, hmanifest]
  refine (bind_apply_of_ok hsupply).trans ?_
  exact bind_apply_of_ok (writeStore_apply_of_ok hpublish)

end Publish

end Blq
