import Blq.Proof.Persist
import Blq.Proof.Reachable

/-!
# Extending the tip

* `exists_insertBlock`: a block that passes the checks of an extension is inserted without an
  error, so execution is not checked twice with different outcomes.
* `known_iff`: which hashes the node answers for, and how an insertion changes that.
-/

namespace Blq

open Word Result

variable {O : Oracle} {R : Revm} {config : NodeConfig} {s : SledStorage}

/-! ## An accepted block is inserted -/

theorem balance_fits_of_evmAccounts {S : RevmState} {accounts : EvmStateSnapshot}
    (h : evmAccountsFromRevmState S = .ok accounts) {address : Address} {account : RevmAccount}
    (haccount : S.accounts[address]? = some account) : account.balance.toNat < 2 ^ 128 := by
  obtain ⟨hrange, -⟩ := (foldlM_inRange_eq_ok (fun account balance => EvmAccountSnapshot.mk balance
    account.nonce account.code account.storage) _).mp h
  exact hrange (address, account) ((Map.mem_toList_iff _ _ _).mpr haccount)

theorem exists_persistRevmState {S : RevmState} {accounts : EvmStateSnapshot}
    (h : evmAccountsFromRevmState S = .ok accounts) (s : SledStorage) :
    ∃ s', (persistRevmState S).run s = .ok ⟨⟩ s' := by
  refine exists_run_forM (fun p hp s => ?_) s
  obtain ⟨address, account⟩ := p
  have hfits := balance_fits_of_evmAccounts h ((Map.mem_toList_iff _ _ _).mp hp)
  simp only [balanceToBix, if_pos hfits]
  exact ⟨_, rfl⟩

theorem exists_persistHistoricalEvmSnapshot (number : U64) (s : SledStorage) :
    ∃ s', (persistHistoricalEvmSnapshot number).run s = .ok ⟨⟩ s' := by
  unfold persistHistoricalEvmSnapshot
  split
  · exact ⟨_, rfl⟩
  · exact ⟨_, rfl⟩

theorem exists_nodeInsertBlock {block : Block} {e : Executed} (h : executeBlock O R s block = .ok e) :
    ∃ s', (nodeInsertBlock O R block).run s = .ok ⟨⟩ s' := by
  unfold executeBlock at h
  split at h
  next hevm =>
    simp only [simulateEvmStateTransition, liftStorage, bind_eq_ok, mapError_eq_ok] at h
    obtain ⟨simulation, ⟨timestamp, htime, hsim⟩, root, hroot, -⟩ := h
    simp only [evmStateRootFromRevmState, bind_eq_ok] at hroot
    obtain ⟨accounts, haccounts, -⟩ := hroot
    obtain ⟨s₁, hs₁⟩ := exists_persistRevmState haccounts (s.insertBlock block)
    obtain ⟨s₂, hs₂⟩ := exists_persistHistoricalEvmSnapshot block.header.number
      (s₁.setRewardIndexedTo block.header.number)
    refine ⟨s₂, ?_⟩
    simp only [nodeInsertBlock, hevm, if_true, run_bind_eq_ok, run_get_eq_ok, run_modify_eq_ok,
      run_runExcept_eq_ok, asSerialization, mapError_eq_ok]
    exact ⟨s, s, ⟨rfl, rfl⟩, timestamp, s, ⟨htime, rfl⟩, simulation, s, ⟨hsim, rfl⟩, ⟨⟩, _, rfl,
      ⟨⟩, s₁, hs₁, ⟨⟩, _, rfl, hs₂⟩
  next hplain =>
    simp only [simulateStateTransition, liftStorage, bind_eq_ok, mapError_eq_ok] at h
    obtain ⟨⟨accounts, receipts, gasUsed⟩, ⟨timestamp, htime, hsim⟩, -⟩ := h
    obtain ⟨s₁, hs₁⟩ := exists_run_forM (l := accounts.toList)
      (f := fun p => (modify fun s => s.putAccount p.1 p.2.1 p.2.2 : EStateM StorageError SledStorage PUnit))
      (fun p _ s => ⟨_, rfl⟩) (s.insertBlock block)
    obtain ⟨s₂, hs₂⟩ := exists_persistHistoricalEvmSnapshot block.header.number
      (s₁.setRewardIndexedTo block.header.number)
    refine ⟨s₂, ?_⟩
    simp only [nodeInsertBlock, if_neg hplain, run_bind_eq_ok, run_get_eq_ok, run_modify_eq_ok,
      run_runExcept_eq_ok, asSerialization, mapError_eq_ok]
    exact ⟨s, s, ⟨rfl, rfl⟩, timestamp, s, ⟨htime, rfl⟩, ⟨accounts, receipts, gasUsed⟩, s,
      ⟨hsim, rfl⟩, ⟨⟩, _, rfl, ⟨⟩, s₁, hs₁, ⟨⟩, _, rfl, hs₂⟩

/-- **A block that passes the checks of an extension is inserted.** -/
theorem exists_insertBlock {parent : BlockHeader} {block : Block}
    (h : validateExtension O R config s parent block = .ok ()) :
    ∃ s', insertBlock O R block s = .ok () s' ∧ s'.chainView = (s.insertBlock block).chainView := by
  simp only [validateExtension, validateStateRoot, bind_eq_ok] at h
  obtain ⟨_, -, _, -, e, hexec, -⟩ := h
  obtain ⟨s', hs'⟩ := exists_nodeInsertBlock hexec
  refine ⟨s', ?_, ((keeps_nodeInsertBlock block s).of_ok hs').2⟩
  show EStateM.adaptExcept NodeError.storage (nodeInsertBlock O R block) s = _
  unfold EStateM.adaptExcept
  rw [show nodeInsertBlock O R block s = .ok () s' from hs']

/-! ## Known hashes -/

/-- The node answers for the hash: a canonical header or a candidate has it. -/
def Known (O : Oracle) (s : SledStorage) (hash : Hash256) : Prop :=
  ∃ header, s.headerByHash O hash = .ok header

variable {hash : Hash256}

theorem known_iff :
    Known O s hash ↔ (∃ (k : U64) (header : BlockHeader), s.headers[k]? = some header ∧
      header.hash O = hash) ∨ (s.candidates[hash]?).isSome := by
  unfold Known SledStorage.headerByHash
  constructor
  · rintro ⟨header, h⟩
    split at h
    next k header' hfind =>
      have hmem := (Map.mem_toList_iff _ _ _).mp (List.mem_of_find?_eq_some hfind)
      exact .inl ⟨k, header', hmem, by simpa using List.find?_some hfind⟩
    next =>
      simp only [SledStorage.candidateBlockByHash, bind_eq_ok] at h
      obtain ⟨block, hblock, -⟩ := h
      exact .inr (by simp [orNotFound_eq_ok.mp hblock])
  · intro h
    split
    next k header hfind => exact ⟨header, rfl⟩
    next hfind =>
      rcases h with ⟨k, header, hk, hhash⟩ | hcandidate
      · have := List.find?_eq_none.mp hfind (k, header) ((Map.mem_toList_iff _ _ _).mpr hk)
        simp [hhash] at this
      · obtain ⟨block, hblock⟩ := Option.isSome_iff_exists.mp hcandidate
        refine ⟨block.header, bind_eq_ok.mpr ⟨block, orNotFound_eq_ok.mpr hblock, rfl⟩⟩

theorem headerByHash_of_stored {t : SledStorage} (ht : t.headers = s.headers) {k : U64}
    {header : BlockHeader} (hk : s.headers[k]? = some header) (hhash : header.hash O = hash) :
    ∃ (k' : U64) (header' : BlockHeader), s.headers[k']? = some header' ∧ header'.hash O = hash ∧
      s.headerByHash O hash = .ok header' ∧ t.headerByHash O hash = .ok header' := by
  unfold SledStorage.headerByHash
  rw [ht]
  split
  next k' header' hfind =>
    exact ⟨k', header', (Map.mem_toList_iff _ _ _).mp (List.mem_of_find?_eq_some hfind),
      by simpa using List.find?_some hfind, rfl, rfl⟩
  next hfind =>
    have hnone := List.find?_eq_none.mp hfind _ ((Map.mem_toList_iff _ _ _).mpr hk)
    simp [hhash] at hnone

theorem headerByHash_of_not_known (h : ¬Known O s hash) :
    ∃ e, s.headerByHash O hash = .error e := by
  cases hfind : s.headerByHash O hash with
  | error e => exact ⟨e, rfl⟩
  | ok header => exact absurd ⟨header, hfind⟩ h

section Insert

variable {s' : SledStorage} {block : Block}
  (hview : s'.chainView = (s.insertBlock block).chainView)

include hview

theorem headers_of_insert : s'.headers = s.headers.insert block.header.number block.header :=
  congrArg ChainView.headers hview

theorem blocks_of_insert : s'.blocks = s.blocks.insert block.header.number block :=
  congrArg ChainView.blocks hview

theorem bestHeader_of_insert : s'.bestHeader = .ok block.header := by
  have hbest : s'.bestNumber = some block.header.number := congrArg ChainView.bestNumber hview
  simp [SledStorage.bestHeader, SledStorage.getBestNumber, SledStorage.headerByNumber, hbest,
    headers_of_insert hview]

end Insert

end Blq
