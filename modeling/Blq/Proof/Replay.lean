import Blq.Monad.Frame
import Blq.Proof.Extension

/-!
# Replaying a chain

A replay starts from a database without canonical rows, inserts the genesis block and then each
block behind its checks.

* `Stored`: the canonical rows are exactly those of a chain, height by height, each block linked
  to the one before.
* `canonicalBlocks_of_stored`: such a database lists that chain.
* `stored_of_replay`, `stored_of_replay_error`: a replay has stored the whole chain, or, when it
  fails, a proper part of it.
* `framesAt_replayCanonicalChain`: the pools that survive a reset of the canonical rows have no
  influence on a replay, although the lookup of headers falls back to them.
* `rebuild_of_isolation`: so a chain that replays on an empty database replaces any other.
-/

namespace Blq

open Word Result

variable {O : Oracle} {R : Revm} {config : NodeConfig} {block : Block} {rest : List Block}

/-! ## The rows of a chain -/

structure Stored (O : Oracle) (s : SledStorage) (chain : List Block) : Prop where
  numbered : ∀ (i : ℕ) (b : Block), chain[i]? = some b → b.header.number.toNat = i
  blocks : ∀ k : U64, s.blocks[k]? = chain[k.toNat]?
  headers : ∀ k : U64, s.headers[k]? = (chain[k.toNat]?).map Block.header
  best : s.bestNumber = chain.getLast?.map fun b => b.header.number
  linked : ∀ (i : ℕ) (b b' : Block), chain[i]? = some b → chain[i + 1]? = some b' →
    b'.header.parentHash = b.header.hash O

variable {s s' : SledStorage} {chain : List Block}

theorem stored_nil (hbest : s.bestNumber = none) (hheaders : s.headers = ∅) (hblocks : s.blocks = ∅) :
    Stored O s [] := by
  refine ⟨by simp, fun k => ?_, fun k => ?_, hbest, by simp⟩
  · simp [hblocks]
  · simp [hheaders]

theorem Stored.getElem?_number (h : Stored O s chain) {b : Block} (hb : b ∈ chain) :
    chain[b.header.number.toNat]? = some b := by
  obtain ⟨i, hi⟩ := List.mem_iff_getElem?.mp hb
  rw [h.numbered i b hi, hi]

theorem Stored.bestHeader (h : Stored O s chain) {last : Block} (hlast : chain.getLast? = some last) :
    s.bestHeader = .ok last.header := by
  have hbest : s.bestNumber = some last.header.number := by rw [h.best, hlast]; rfl
  have hheader : s.headers[last.header.number]? = some last.header := by
    rw [h.headers, h.getElem?_number (List.mem_of_getLast? hlast)]
    rfl
  simp [SledStorage.bestHeader, SledStorage.getBestNumber, SledStorage.headerByNumber, hbest,
    hheader]

theorem Stored.last_number (h : Stored O s chain) {last : Block}
    (hlast : chain.getLast? = some last) : last.header.number.toNat + 1 = chain.length := by
  have hne : chain ≠ [] := by
    rintro rfl
    simp at hlast
  have hpos := List.length_pos_iff.mpr hne
  rw [List.getLast?_eq_getElem?] at hlast
  have := h.numbered _ _ hlast
  omega

theorem getElem?_concat (chain : List Block) (block : Block) (i : ℕ) :
    (chain ++ [block])[i]? = if i = chain.length then some block else chain[i]? := by
  rcases Nat.lt_trichotomy i chain.length with hlt | rfl | hgt
  · rw [List.getElem?_append_left hlt, if_neg (by omega)]
  · simp
  · rw [if_neg (by omega), List.getElem?_eq_none (by simp; omega), List.getElem?_eq_none (by omega)]

/-- **One more block.** -/
theorem Stored.insert (h : Stored O s chain) (hnumber : block.header.number.toNat = chain.length)
    (hparent : ∀ last, chain.getLast? = some last → block.header.parentHash = last.header.hash O)
    (hview : s'.chainView = (s.insertBlock block).chainView) : Stored O s' (chain ++ [block]) := by
  have hlookup : ∀ k : U64, (chain ++ [block])[k.toNat]? =
      if block.header.number = k then some block else chain[k.toNat]? := by
    intro k
    have hkey : k.toNat = chain.length ↔ block.header.number = k := by
      rw [← hnumber, BitVec.toNat_inj, eq_comm]
    simp only [getElem?_concat, hkey]
  refine ⟨?_, ?_, ?_, ?_, ?_⟩
  · intro i b hb
    rw [getElem?_concat] at hb
    split at hb
    · next hi => rw [← Option.some.inj hb, hnumber, hi]
    · exact h.numbered i b hb
  · intro k
    rw [blocks_of_insert hview, Map.getElem?_insert_eq, hlookup, h.blocks]
  · intro k
    rw [headers_of_insert hview, Map.getElem?_insert_eq, hlookup, h.headers]
    split <;> rfl
  · have hbest : s'.bestNumber = some block.header.number := congrArg ChainView.bestNumber hview
    simpa using hbest
  · intro i b b' hb hb'
    have hlt := (List.getElem?_eq_some_iff.mp hb').1
    rw [List.length_append, List.length_singleton] at hlt
    rw [getElem?_concat, if_neg (by omega)] at hb
    rw [getElem?_concat] at hb'
    split at hb'
    · -- the new block follows the last one
      next hi =>
      rw [← Option.some.inj hb']
      refine hparent b ?_
      rw [List.getLast?_eq_getElem?, ← hi]
      exact hb
    · exact h.linked i b b' hb hb'

/-- **The chain is what the database lists.** -/
theorem canonicalBlocks_of_stored (h : Stored O s chain) : s.canonicalBlocks = chain := by
  have hmem : ∀ b, b ∈ s.canonicalBlocks ↔ b ∈ chain := by
    intro b
    rw [mem_canonicalBlocks]
    constructor
    · rintro ⟨k, hk⟩
      rw [h.blocks] at hk
      exact List.mem_of_getElem? hk
    · intro hb
      exact ⟨b.header.number, by rw [h.blocks, h.getElem?_number hb]⟩
  have hsorted : s.canonicalBlocks.Pairwise fun a b =>
      a.header.number.toNat ≤ b.header.number.toNat := by
    have : Std.Total fun a b : Block => a.header.number.toNat ≤ b.header.number.toNat :=
      ⟨fun a b => le_total _ _⟩
    have : IsTrans Block fun a b => a.header.number.toNat ≤ b.header.number.toNat :=
      ⟨fun a b c hab hbc => hab.trans hbc⟩
    exact List.pairwise_insertionSort _ _
  have hstrict : chain.Pairwise fun a b => a.header.number.toNat < b.header.number.toNat := by
    rw [List.pairwise_iff_getElem]
    intro i j hi hj hij
    rw [h.numbered i _ (List.getElem?_eq_getElem hi), h.numbered j _ (List.getElem?_eq_getElem hj)]
    exact hij
  have hnodup : s.canonicalBlocks.Nodup := by
    refine (List.perm_insertionSort _ _).nodup_iff.mpr ?_
    refine List.Nodup.map_on ?_ (List.Pairwise.imp (fun hne heq => hne (congrArg Prod.fst heq))
      (Map.pairwise_key_ne s.blocks))
    rintro ⟨k, b⟩ hk ⟨k', b'⟩ hk' (rfl : b = b')
    have hb := (Map.mem_toList_iff _ _ _).mp hk
    have hb' := (Map.mem_toList_iff _ _ _).mp hk'
    rw [h.blocks] at hb hb'
    have hkey : k = k' := BitVec.eq_of_toNat_eq
      ((h.numbered _ _ hb).symm.trans (h.numbered _ _ hb'))
    rw [hkey]
  refine List.Perm.eq_of_pairwise ?_ hsorted (hstrict.imp le_of_lt) ?_
  · intro a b ha hb hab hba
    have heq : a.header.number.toNat = b.header.number.toNat := le_antisymm hab hba
    have hget := h.getElem?_number ((hmem a).mp ha)
    rw [heq, h.getElem?_number hb] at hget
    exact (Option.some.inj hget).symm
  · exact (List.perm_ext_iff_of_nodup hnodup (hstrict.imp fun hlt heq => by
      rw [heq] at hlt; exact lt_irrefl _ hlt)).mpr hmem

/-! ## What a replay does not see -/

/-- The canonical rows of `s` with the pools of another database. -/
def SledStorage.graft (pools s : SledStorage) : SledStorage :=
  { s with
    orphans := pools.orphans
    candidates := pools.candidates
    candidateWorks := pools.candidateWorks
    quarantine := pools.quarantine
    recoverySpool := pools.recoverySpool }

theorem framesAt_persistRevmState (pools : SledStorage) (state : RevmState) (s : SledStorage) :
    FramesAt pools.graft (persistRevmState state) s := by
  refine simulatesAt_forM fun entry _ s => ?_
  obtain ⟨address, account⟩ := entry
  simp only
  split
  next balance _ => exact framesAt_modify (by rfl)
  next => exact simulatesAt_throw

theorem framesAt_nodeInsertBlock (pools : SledStorage) (block : Block) (s : SledStorage) :
    FramesAt pools.graft (nodeInsertBlock O R block) s := by
  have hrest : ∀ s' : SledStorage, FramesAt pools.graft
      ((modify fun s => s.setRewardIndexedTo block.header.number) >>= fun _ =>
        persistHistoricalEvmSnapshot block.header.number) s' := by
    intro s'
    refine framesAt_modify_bind (by rfl) ?_
    unfold persistHistoricalEvmSnapshot
    exact simulatesAt_ite (fun _ => simulatesAt_pure) fun _ => framesAt_modify (by rfl)
  unfold nodeInsertBlock
  dsimp only
  refine framesAt_get_bind rfl (simulatesAt_runExcept.bind fun timestamp s' _ => ?_)
  split
  · refine simulatesAt_runExcept.bind fun simulation s' _ => ?_
    refine framesAt_modify_bind (by rfl) ?_
    exact (framesAt_persistRevmState pools simulation.state _).bind fun _ s' _ => hrest s'
  · refine simulatesAt_runExcept.bind fun simulation s' _ => ?_
    obtain ⟨accounts, _, _⟩ := simulation
    refine framesAt_modify_bind (by rfl) ?_
    refine SimulatesAt.bind ?_ fun _ s' _ => hrest s'
    exact simulatesAt_forM fun _ _ _ => framesAt_modify (by rfl)

theorem framesAt_insertBlock (pools : SledStorage) (block : Block) (s : SledStorage) :
    FramesAt pools.graft (insertBlock O R block) s :=
  (framesAt_nodeInsertBlock pools block s).adaptExcept _

/-- Every header but the first names the hash of a stored header as its parent. -/
def LinkedHeaders (O : Oracle) (s : SledStorage) : Prop :=
  ∀ (k : U64) (header : BlockHeader), s.headers[k]? = some header → header.number ≠ 0 →
    ∃ (k' : U64) (parent : BlockHeader), s.headers[k']? = some parent ∧
      parent.hash O = header.parentHash

theorem Stored.linkedHeaders (h : Stored O s chain) : LinkedHeaders O s := by
  intro k header hk hnumber
  rw [h.headers, Option.map_eq_some_iff] at hk
  obtain ⟨b, hb, rfl⟩ := hk
  have hindex := h.numbered _ _ hb
  have hpos : k.toNat ≠ 0 := by
    intro hzero
    refine hnumber (BitVec.eq_of_toNat_eq ?_)
    rw [hindex, hzero]
    rfl
  have hlt : k.toNat < chain.length := (List.getElem?_eq_some_iff.mp hb).1
  have hprev : chain[k.toNat - 1]? = some chain[k.toNat - 1] :=
    List.getElem?_eq_getElem (by omega)
  have hkey : (BitVec.ofNat 64 (k.toNat - 1)).toNat = k.toNat - 1 := by
    rw [toNat_ofNat_of_lt (by have := k.isLt; omega)]
  refine ⟨BitVec.ofNat 64 (k.toNat - 1), chain[k.toNat - 1].header, ?_, ?_⟩
  · rw [h.headers, hkey, hprev]
    rfl
  · refine (h.linked (k.toNat - 1) _ b hprev ?_).symm
    rw [Nat.sub_add_cancel (by omega)]
    exact hb

theorem difficultyHeaderByHash_stored {hash : Hash256}
    (h : ∃ (k : U64) (header : BlockHeader), s.headers[k]? = some header ∧ header.hash O = hash) :
    ∃ (k : U64) (header : BlockHeader), s.headers[k]? = some header ∧
      ∀ pools : SledStorage, difficultyHeaderByHash O (pools.graft s) hash = .ok header ∧
        difficultyHeaderByHash O s hash = .ok header := by
  obtain ⟨k, header, hk, hhash⟩ := h
  obtain ⟨k', header', hk', -, hheader, -⟩ := headerByHash_of_stored rfl hk hhash
  refine ⟨k', header', hk', fun pools => ?_⟩
  obtain ⟨-, found, -, -, hsame, hgraft⟩ := headerByHash_of_stored (s := s) (t := pools.graft s) rfl hk hhash
  obtain rfl : header' = found := Except.ok.inj (hheader.symm.trans hsame)
  exact ⟨by simp [difficultyHeaderByHash, hgraft], by simp [difficultyHeaderByHash, hheader]⟩

theorem headersBefore_graft (hlinked : LinkedHeaders O s) (pools : SledStorage) (count : ℕ)
    {cursor : BlockHeader} (hcursor : ∃ k : U64, s.headers[k]? = some cursor) :
    headersBefore (difficultyHeaderByHash O (pools.graft s)) count cursor =
      headersBefore (difficultyHeaderByHash O s) count cursor := by
  induction count generalizing cursor with
  | zero => rfl
  | succ count ih =>
    obtain ⟨k, hk⟩ := hcursor
    unfold headersBefore
    by_cases hzero : cursor.number = 0
    · rw [if_pos hzero, if_pos hzero]
    · obtain ⟨k', previous, hprevious, hlookup⟩ :=
        difficultyHeaderByHash_stored (hlinked k cursor hk hzero)
      rw [if_neg hzero, if_neg hzero, (hlookup pools).1, (hlookup pools).2, ok_bind, ok_bind,
        ih ⟨k', hprevious⟩]

theorem expectedDifficultyTarget_graft (hlinked : LinkedHeaders O s) (pools : SledStorage)
    {parent : BlockHeader} (hparent : ∃ k : U64, s.headers[k]? = some parent) (child : BlockHeader) :
    expectedDifficultyTargetWithLookup config parent child
        (difficultyHeaderByHash O (pools.graft s)) =
      expectedDifficultyTargetWithLookup config parent child (difficultyHeaderByHash O s) := by
  unfold expectedDifficultyTargetWithLookup difficultyHistoryIntervalsWithLookup
    difficultyHistoryHeadersWithLookup
  rw [headersBefore_graft hlinked pools _ hparent]

/-! ## One block of a replay -/

theorem run_readStore_eq_ok {α : Type} {f : SledStorage → Except StorageError α} {a : α}
    (h : readStore f s = .ok a s') : f s = .ok a ∧ s' = s := by
  obtain ⟨_, _, hget, hread⟩ := run_bind_eq_ok.mp h
  obtain ⟨rfl, rfl⟩ := run_get_eq_ok.mp hget
  obtain ⟨hf, rfl⟩ := run_runExcept_eq_ok.mp hread
  exact ⟨mapError_eq_ok.mp hf, rfl⟩

/-- **A block that fails its checks is not written, one that passes them is.** -/
theorem replayBlock_cases (O : Oracle) (R : Revm) (config : NodeConfig) (block : Block)
    (s : SledStorage) :
    (∃ e, replayBlock O R config block s = .error e s) ∨
      ∃ parent s', s.bestHeader = .ok parent ∧ validateExtension O R config s parent block = .ok () ∧
        insertBlock O R block s = .ok () s' ∧ replayBlock O R config block s = .ok () s' ∧
        s'.chainView = (s.insertBlock block).chainView := by
  unfold replayBlock
  cases hbest : s.bestHeader with
  | error e => exact .inl ⟨.storage e, bind_apply_of_error (readStore_apply_of_error hbest)⟩
  | ok parent =>
    rw [readStore_bind_of_ok hbest, get_bind_apply]
    cases hvalid : validateExtension O R config s parent block with
    | error e => exact .inl ⟨e, runExcept_bind_of_error rfl⟩
    | ok u =>
      obtain ⟨s', hs', hview⟩ := exists_insertBlock hvalid
      refine .inr ⟨parent, s', rfl, hvalid, hs', ?_, hview⟩
      rw [runExcept_bind_of_ok rfl]
      exact hs'

theorem Stored.replayBlock (h : Stored O s chain) (hne : chain ≠ []) (hlen : chain.length < 2 ^ 64)
    (hrun : replayBlock O R config block s = .ok () s') :
    Stored O s' (chain ++ [block]) := by
  rcases replayBlock_cases O R config block s with
    ⟨e, herr⟩ | ⟨parent, s'', hbest, hvalid, -, hok, hview⟩
  · rw [herr] at hrun
    cases hrun
  · rw [hok] at hrun
    obtain ⟨-, rfl⟩ := EStateM.Result.ok.inj hrun
    have hlast := List.getLast?_eq_some_getLast hne
    have hheader := h.bestHeader hlast
    rw [hbest] at hheader
    obtain rfl := Except.ok.inj hheader
    obtain ⟨hparent, hnumber⟩ := extendsHeader_iff.mp (extends_of_validateExtension hvalid)
    have hlength := h.last_number hlast
    refine h.insert ?_ ?_ hview
    · rw [hnumber, BitVec.toNat_add, show (1 : U64).toNat = 1 from rfl]
      omega
    · intro last' hlast'
      rw [hlast] at hlast'
      obtain rfl := Option.some.inj hlast'
      exact hparent

theorem framesAt_replayBlock (hlinked : LinkedHeaders O s) (pools : SledStorage) (block : Block) :
    FramesAt pools.graft (replayBlock O R config block) s := by
  unfold Blq.replayBlock
  have hread : FramesAt pools.graft (readStore SledStorage.bestHeader) s :=
    framesAt_get_bind rfl simulatesAt_runExcept
  refine hread.bind fun parent s' hs' => ?_
  obtain ⟨hbest, rfl⟩ := run_readStore_eq_ok hs'
  have hparent : ∃ k : U64, s'.headers[k]? = some parent := by
    simp only [SledStorage.bestHeader, bind_eq_ok, SledStorage.headerByNumber] at hbest
    obtain ⟨k, -, hk⟩ := hbest
    split at hk
    · next header hheader => exact ⟨k, hheader.trans (congrArg some (pure_eq_ok.mp hk))⟩
    · exact absurd hk throw_ne_ok
  have hsame : validateExtension O R config (pools.graft s') parent block =
      validateExtension O R config s' parent block := by
    unfold validateExtension validateDifficultyTarget
    rw [expectedDifficultyTarget_graft hlinked pools hparent]
    rfl
  refine framesAt_get_bind (by rw [hsame]) (simulatesAt_runExcept.bind fun _ s'' _ => ?_)
  exact framesAt_insertBlock pools block s''

/-! ## The whole replay -/

theorem Stored.forM_replayBlock (h : Stored O s chain) (hne : chain ≠ [])
    (hlen : (chain ++ rest).length ≤ 2 ^ 64)
    (hrun : rest.forM (Blq.replayBlock O R config) s = .ok () s') :
    Stored O s' (chain ++ rest) := by
  induction rest generalizing s chain with
  | nil =>
    obtain ⟨-, rfl⟩ := run_pure_eq_ok.mp hrun
    simpa using h
  | cons block rest ih =>
    rw [List.length_append, List.length_cons] at hlen
    obtain ⟨_, s₁, hblock, hrest⟩ := run_bind_eq_ok.mp hrun
    have hstored := ih (h.replayBlock hne (by omega) hblock) (by simp) (by simp; omega) hrest
    rwa [List.append_assoc, List.singleton_append] at hstored

theorem forM_insertBlock_of_replay (hrun : rest.forM (Blq.replayBlock O R config) s = .ok () s') :
    rest.forM (insertBlock O R) s = .ok () s' := by
  induction rest generalizing s with
  | nil => exact hrun
  | cons block rest ih =>
    obtain ⟨_, s₁, hblock, hrest⟩ := run_bind_eq_ok.mp hrun
    rcases replayBlock_cases O R config block s with
      ⟨e, herr⟩ | ⟨parent, s₂, -, -, hinsert, hok, -⟩
    · cases herr.symm.trans hblock
    · obtain ⟨-, rfl⟩ := EStateM.Result.ok.inj (hok.symm.trans hblock)
      exact run_bind_eq_ok.mpr ⟨(), s₂, hinsert, ih hrest⟩

theorem framesAt_forM_replayBlock (h : Stored O s chain) (hne : chain ≠ [])
    (hlen : (chain ++ rest).length ≤ 2 ^ 64) (pools : SledStorage) :
    FramesAt pools.graft (rest.forM (Blq.replayBlock O R config)) s := by
  induction rest generalizing s chain with
  | nil => exact simulatesAt_pure
  | cons block rest ih =>
    rw [List.length_append, List.length_cons] at hlen
    show FramesAt pools.graft (Blq.replayBlock O R config block >>= fun _ => rest.forM _) s
    refine (framesAt_replayBlock h.linkedHeaders pools block).bind fun _ s' hs' => ?_
    exact ih (h.replayBlock hne (by omega) hs') (by simp) (by simp; omega)

theorem insertBlock_view (h : insertBlock O R block s = .ok () s') :
    s'.chainView = (s.insertBlock block).chainView :=
  (((keeps_nodeInsertBlock block s).adaptExcept _).of_ok h).2

theorem Stored.genesis (h : Stored O s []) {genesis : Block} (hzero : genesis.header.number = 0)
    (hrun : insertBlock O R genesis s = .ok () s') : Stored O s' [genesis] :=
  h.insert (by rw [hzero]; rfl) (by simp) (insertBlock_view hrun)

/-- **A replay that succeeds has stored its chain**, and done nothing but insert its blocks. -/
theorem stored_of_replay (h : Stored O s []) (hlen : chain.length ≤ 2 ^ 64)
    (hrun : replayCanonicalChain O R config chain s = .ok () s') :
    Stored O s' chain ∧ chain.forM (insertBlock O R) s = .ok () s' := by
  cases chain with
  | nil => cases hrun
  | cons genesis rest =>
    change (if genesis.header.number ≠ 0 then _ else _ : StoreM Unit) s = _ at hrun
    split_ifs at hrun with hzero
    · cases hrun
    · obtain ⟨_, s₁, hinsert, hrest⟩ := run_bind_eq_ok.mp hrun
      exact ⟨(h.genesis (not_not.mp hzero) hinsert).forM_replayBlock (by simp) hlen hrest,
        run_bind_eq_ok.mpr ⟨(), s₁, hinsert, forM_insertBlock_of_replay hrest⟩⟩

theorem exists_insertBlock_genesis {genesis : Block} (hzero : genesis.header.number = 0)
    (hnone : genesis.transactions = []) (s : SledStorage) :
    ∃ s', insertBlock O R genesis s = .ok () s' := by
  have hexec : ∃ e, executeBlock O R s genesis = .ok e := by
    simp [executeBlock, hnone, simulateStateTransition, parentTimestamp, hzero, liftStorage,
      simulateStateTransitionFromAccounts, Except.mapError, pure, Except.pure, bind, Except.bind]
  obtain ⟨e, he⟩ := hexec
  obtain ⟨s', hs'⟩ := exists_nodeInsertBlock he
  refine ⟨s', ?_⟩
  show EStateM.adaptExcept NodeError.storage (nodeInsertBlock O R genesis) s = _
  unfold EStateM.adaptExcept
  rw [show nodeInsertBlock O R genesis s = .ok () s' from hs']

/-- **A replay that fails has stored a proper part of its chain.** -/
theorem stored_of_replay_error (h : Stored O s []) (hlen : chain.length ≤ 2 ^ 64)
    (hgenesis : ∀ b ∈ chain, b.header.number = 0 → b.transactions = []) {e : NodeError}
    (hrun : replayCanonicalChain O R config chain s = .error e s') :
    (chain = [] ∧ s' = s) ∨ ∃ done, done ≠ chain ∧ Stored O s' done := by
  cases chain with
  | nil =>
    change (.error _ s : EStateM.Result NodeError SledStorage Unit) = .error e s' at hrun
    obtain ⟨-, rfl⟩ := EStateM.Result.error.inj hrun
    exact .inl ⟨rfl, rfl⟩
  | cons genesis rest =>
    refine .inr ?_
    change (if genesis.header.number ≠ 0 then _ else _ : StoreM Unit) s = _ at hrun
    by_cases hzero : genesis.header.number = 0
    · rw [if_neg (not_not.mpr hzero)] at hrun
      change (insertBlock O R genesis >>= fun _ => rest.forM _) s = _ at hrun
      obtain ⟨s₁, hinsert⟩ := exists_insertBlock_genesis (R := R) hzero
        (hgenesis genesis (by simp) hzero) s
      rw [bind_apply_of_ok hinsert] at hrun
      have hstored := h.genesis hzero hinsert
      rcases forM_cases (replayBlock O R config) rest s₁ with
        ⟨s₂, hok⟩ | ⟨done, block, todo, e', s₂, s₃, hrest, hdone, hblock, herr⟩
      · rw [hok] at hrun
        cases hrun
      · -- the loop stopped at a block that was not written
        rw [herr] at hrun
        obtain ⟨-, rfl⟩ := EStateM.Result.error.inj hrun
        have hsame : s₃ = s₂ := by
          rcases replayBlock_cases O R config block s₂ with
            ⟨e'', hkept⟩ | ⟨_, s₄, -, -, -, hwritten, -⟩
          · rw [hkept] at hblock
            exact (EStateM.Result.error.inj hblock).2.symm
          · rw [hwritten] at hblock
            cases hblock
        subst hsame hrest
        refine ⟨[genesis] ++ done, ?_, hstored.forM_replayBlock (by simp) ?_ hdone⟩
        · intro heq
          have := congrArg List.length heq
          simp at this
        · simp only [List.length_cons, List.length_append] at hlen ⊢
          simp only [List.length_nil]
          omega
    · rw [if_pos hzero] at hrun
      change (.error _ s : EStateM.Result NodeError SledStorage Unit) = .error e s' at hrun
      obtain ⟨-, rfl⟩ := EStateM.Result.error.inj hrun
      exact ⟨[], by simp, h⟩

/-- **The pools have no influence on a replay.** -/
theorem framesAt_replayCanonicalChain (h : Stored O s []) (hlen : chain.length ≤ 2 ^ 64)
    (pools : SledStorage) : FramesAt pools.graft (replayCanonicalChain O R config chain) s := by
  cases chain with
  | nil => exact simulatesAt_throw
  | cons genesis rest =>
    show FramesAt pools.graft (if genesis.header.number ≠ 0 then _ else _ : StoreM Unit) s
    refine simulatesAt_ite (fun _ => simulatesAt_throw) fun hzero => ?_
    refine (framesAt_insertBlock pools genesis s).bind fun _ s' hs' => ?_
    exact framesAt_forM_replayBlock (h.genesis (not_not.mp hzero) hs') (by simp) hlen pools

/-! ## Chains and accounts -/

/-- The canonical chain and the accounts. -/
@[ext] structure CanonicalView where
  bestNumber : Option U64
  headers : Map U64 BlockHeader
  blocks : Map U64 Block
  balances : Map Address Bix
  nonces : Map Address U64
  codes : Map Address Bytes
  slots : Map StorageKey Hash256

def SledStorage.canonicalView (s : SledStorage) : CanonicalView where
  bestNumber := s.bestNumber
  headers := s.headers
  blocks := s.blocks
  balances := s.balances
  nonces := s.nonces
  codes := s.codes
  slots := s.slots

theorem canonicalBlocks_of_view {s' : SledStorage} (h : s.canonicalView = s'.canonicalView) :
    s.canonicalBlocks = s'.canonicalBlocks := by
  have hblocks : s.blocks = s'.blocks := congrArg CanonicalView.blocks h
  unfold SledStorage.canonicalBlocks
  rw [hblocks]

/-- The database holds a chain: these blocks, and the accounts their execution on an empty
database leads to. -/
def Holds (O : Oracle) (R : Revm) (s : SledStorage) (chain : List Block) : Prop :=
  s.canonicalBlocks = chain ∧
    ∃ s₀, chain.forM (insertBlock O R) {} = .ok () s₀ ∧ s.canonicalView = s₀.canonicalView

/-! ## Rebuilding -/

theorem stored_clear (s : SledStorage) : Stored O s.clearCanonicalState [] :=
  stored_nil rfl rfl rfl

theorem stored_empty : Stored O {} [] := stored_nil rfl rfl rfl

theorem isolation_iff :
    validateReplacementInIsolation O R config chain = .ok () ↔
      ∃ s₀, replayCanonicalChain O R config chain {} = .ok () s₀ := by
  unfold validateReplacementInIsolation
  by_cases hempty : chain.isEmpty = true
  · obtain rfl := List.isEmpty_iff.mp hempty
    refine ⟨fun h => absurd h (by simp), ?_⟩
    rintro ⟨s₀, hs₀⟩
    cases hs₀
  · rw [if_neg hempty]
    cases hrun : replayCanonicalChain O R config chain {} with
    | ok u s₀ =>
      refine ⟨fun _ => ⟨s₀, rfl⟩, fun _ => ?_⟩
      rw [show (replayCanonicalChain O R config chain).run {} = .ok u s₀ from hrun]
      rfl
    | error e s₀ =>
      refine ⟨fun h => ?_, fun ⟨_, h⟩ => by cases h⟩
      rw [show (replayCanonicalChain O R config chain).run {} = .error e s₀ from hrun] at h
      exact absurd h (by simp)

/-- **A chain that replays on an empty database replays after a reset**, with the same rows. -/
theorem replay_clear_of_isolation (hlen : chain.length ≤ 2 ^ 64)
    (h : validateReplacementInIsolation O R config chain = .ok ()) (s : SledStorage) :
    ∃ s', replayCanonicalChain O R config chain s.clearCanonicalState = .ok () s' ∧
      Holds O R s' chain ∧ s'.orphans = s.orphans := by
  obtain ⟨s₀, hs₀⟩ := isolation_iff.mp h
  obtain ⟨hstored, hinsert⟩ := stored_of_replay stored_empty hlen hs₀
  refine ⟨s.graft s₀, (framesAt_replayCanonicalChain stored_empty hlen s).of_ok hs₀,
    ⟨?_, s₀, hinsert, rfl⟩, rfl⟩
  rw [← canonicalBlocks_of_stored hstored]
  rfl

/-- **A chain that replays on an empty database is rebuilt**, and the pools stay. -/
theorem rebuild_of_isolation (hlen : chain.length ≤ 2 ^ 64)
    (h : validateReplacementInIsolation O R config chain = .ok ()) (previous : List Block)
    (s : SledStorage) :
    ∃ s', rebuildCanonicalChain O R config chain previous s = .ok () s' ∧ Holds O R s' chain ∧
      s'.orphans = s.orphans := by
  obtain ⟨s', hs', hafter⟩ := replay_clear_of_isolation hlen h s
  refine ⟨s', ?_, hafter⟩
  show (attempt (replayCanonicalChain O R config chain) >>= _) s.clearCanonicalState = _
  rw [attempt_bind_of_ok hs']
  rfl

end Blq
