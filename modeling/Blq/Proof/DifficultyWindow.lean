import Blq.Proof.SameHeader

/-!
# The header window of a replay

A replay carries the latest headers along and looks the history of the difficulty rule up in them
alone.

* `headersBefore_window`: a walk back that stays in the window finds the same headers there as in
  the whole history.
* `Covers.apply`: the window covers the walk from its parent, and still does after every block.
* `window_target_eq`: at every block of a replay the window gives the target the whole history
  gives, and no header is missing.
-/

namespace Blq

open Word Result

/-- A chain of headers from genesis on, each linked to the one before by its hash. -/
structure HashLinked (O : Oracle) (chain : List BlockHeader) : Prop where
  genesis : ∀ header, chain.head? = some header → header.number = 0
  linked : chain.IsChain fun parent child =>
    child.parentHash = parent.hash O ∧ child.number = parent.number + 1

/-- A lookup over the complete history: it finds every header of the chain under its hash, and
never one under another's. -/
structure CompleteHistory (O : Oracle) (chain : List BlockHeader)
    (lookup : Hash256 → Except NodeError BlockHeader) : Prop where
  found : ∀ header ∈ chain, lookup (header.hash O) = .ok header
  sound : ∀ hash header, lookup hash = .ok header → header.hash O = hash

/-- The lookup of `ExecutionReplayOverlay.apply`. -/
def windowLookup (O : Oracle) (history : List BlockHeader) (hash : Hash256) :
    Except NodeError BlockHeader :=
  match history.find? fun header => header.hash O = hash with
  | some header => pure header
  | none => throw (.bail "candidate replay difficulty history is incomplete")

variable {O : Oracle} {R : Revm} {config : NodeConfig} {chain : List BlockHeader}
  {lookup : Hash256 → Except NodeError BlockHeader} {count : ℕ} {block : Block}
  {parent : BlockHeader}

theorem windowLookup_sound {history : List BlockHeader} {hash : Hash256} {header : BlockHeader}
    (h : windowLookup O history hash = .ok header) : header.hash O = hash := by
  unfold windowLookup at h
  split at h
  next found hfind =>
    obtain rfl := pure_eq_ok.mp h
    simpa using List.find?_some hfind
  next => exact absurd h throw_ne_ok

/-! ## Walking back -/

variable {cursor : BlockHeader} {before : List BlockHeader} {overlay next : ExecutionReplayOverlay}
  {genesisHash : Hash256}

theorem headersBefore_take {fewer : ℕ} (h : headersBefore lookup count cursor = .ok before)
    (hle : fewer ≤ count) : headersBefore lookup fewer cursor = .ok (before.take fewer) := by
  induction count generalizing fewer cursor before with
  | zero =>
    obtain rfl : fewer = 0 := Nat.le_zero.mp hle
    rfl
  | succ count ih =>
    cases fewer with
    | zero => rfl
    | succ fewer =>
      unfold headersBefore at h ⊢
      split at h
      next hzero =>
        obtain rfl := pure_eq_ok.mp h
        rw [if_pos hzero]
        rfl
      next hzero =>
        simp only [bind_eq_ok, pure_eq_ok] at h
        obtain ⟨previous, hprevious, rest, hrest, rfl⟩ := h
        rw [if_neg hzero, hprevious, ok_bind, ih hrest (by omega)]
        rfl

theorem length_headersBefore (h : headersBefore lookup count cursor = .ok before) :
    before.length ≤ count := by
  have htake := (headersBefore_take h le_rfl).symm.trans h
  have hlength := congrArg List.length (Except.ok.inj htake)
  rw [List.length_take] at hlength
  omega

/-- **Inside the window the walk finds the same headers.** -/
theorem headersBefore_window {history : List BlockHeader}
    (hknown : ∀ header ∈ history, lookup (header.hash O) = .ok header)
    (hsound : ∀ hash header, lookup hash = .ok header → header.hash O = hash)
    (h : headersBefore lookup count cursor = .ok before) (hin : ∀ header ∈ before, header ∈ history) :
    headersBefore (windowLookup O history) count cursor = .ok before := by
  induction count generalizing cursor before with
  | zero => exact h
  | succ count ih =>
    unfold headersBefore at h ⊢
    split at h
    next hzero => rw [if_pos hzero, h]
    next hzero =>
      simp only [bind_eq_ok, pure_eq_ok] at h
      obtain ⟨previous, hprevious, rest, hrest, rfl⟩ := h
      have hhash := hsound _ _ hprevious
      -- the first header of the window under the hash is the one the history has
      have hfind : windowLookup O history cursor.parentHash = .ok previous := by
        unfold windowLookup
        cases hcase : history.find? fun header => header.hash O = cursor.parentHash with
        | none =>
          have hnone := List.find?_eq_none.mp hcase previous (hin previous (by simp))
          exact absurd hhash (by simpa using hnone)
        | some header =>
          have hmem := List.mem_of_find?_eq_some hcase
          have heq : header.hash O = cursor.parentHash := by simpa using List.find?_some hcase
          have hsame := hknown header hmem
          rw [heq, hprevious] at hsame
          rw [Except.ok.inj hsame]
          rfl
      rw [if_neg hzero, hfind, ok_bind, ih hrest fun header hheader => hin header (by simp [hheader])]
      rfl

theorem exists_headersBefore (hchain : HashLinked O chain)
    (hlookup : CompleteHistory O chain lookup) (count : ℕ) (hcursor : cursor ∈ chain) :
    ∃ before, headersBefore lookup count cursor = .ok before ∧ ∀ header ∈ before, header ∈ chain := by
  induction count generalizing cursor with
  | zero => exact ⟨[], rfl, by simp⟩
  | succ count ih =>
    unfold headersBefore
    by_cases hzero : cursor.number = 0
    · rw [if_pos hzero]
      exact ⟨[], rfl, by simp⟩
    · obtain ⟨i, hi, rfl⟩ := List.getElem_of_mem hcursor
      have hpos : i ≠ 0 := by
        rintro rfl
        exact hzero (hchain.genesis _ (by rw [List.head?_eq_getElem?, List.getElem?_eq_getElem hi]))
      obtain ⟨j, rfl⟩ := Nat.exists_eq_succ_of_ne_zero hpos
      obtain ⟨hparent, -⟩ := List.isChain_iff_getElem.mp hchain.linked j hi
      have hmem : chain[j] ∈ chain := List.getElem_mem _
      obtain ⟨before, hbefore, hin⟩ := ih hmem
      rw [if_neg hzero]
      refine ⟨chain[j] :: before, ?_, List.forall_mem_cons.mpr ⟨hmem, hin⟩⟩
      rw [hparent, hlookup.found _ hmem, ok_bind, hbefore]
      rfl

/-! ## The window of a replay -/

/-- The window holds headers of the history, among them all the walk from the parent visits. -/
structure Covers (O : Oracle) (lookup : Hash256 → Except NodeError BlockHeader)
    (overlay : ExecutionReplayOverlay) : Prop where
  known : ∀ header ∈ overlay.difficultyHistory, lookup (header.hash O) = .ok header
  walk : ∃ before, headersBefore lookup blockTimeV2MedianWindow overlay.parent = .ok before ∧
    (overlay.parent :: before).reverse <:+ overlay.difficultyHistory
  bounded : overlay.difficultyHistory.length ≤ blockTimeV2MedianWindow + 1

theorem ExecutionReplayOverlay.apply_eq_ok
    (h : overlay.apply O R config genesisHash block = .ok next) :
    block.header.parentHash = overlay.parent.hash O ∧ next.parent = block.header ∧
      next.difficultyHistory =
        if (overlay.difficultyHistory ++ [block.header]).length > blockTimeV2MedianWindow + 1 then
          (overlay.difficultyHistory ++ [block.header]).tail
        else overlay.difficultyHistory ++ [block.header] := by
  simp only [ExecutionReplayOverlay.apply, throw_bind, bind_eq_ok, ite_throw_eq_ok, pure_eq_ok,
    liftConsensus, mapError_eq_ok] at h
  obtain ⟨_, -, _, hvalid, _, -, -, ⟨native, evm⟩, -, rfl⟩ := h
  exact ⟨(extendsHeader_iff.mp (extends_of_validateBlock hvalid)).1, rfl, rfl⟩

theorem ExecutionReplayOverlay.apply_target
    (h : overlay.apply O R config genesisHash block = .ok next) :
    expectedDifficultyTargetWithLookup config overlay.parent block.header
      (windowLookup O overlay.difficultyHistory) = .ok block.header.difficultyTarget := by
  simp only [ExecutionReplayOverlay.apply, throw_bind, bind_eq_ok, ite_throw_eq_ok, not_not] at h
  obtain ⟨_, -, _, -, target, htarget, rfl, -⟩ := h
  exact htarget

theorem suffix_trimmed {α : Type} {l history : List α} {size : ℕ} (h : l <:+ history)
    (hl : l.length ≤ size) : l <:+ if history.length > size then history.tail else history := by
  split
  next hlong =>
    cases history with
    | nil => exact h
    | cons first rest =>
      rcases List.suffix_cons_iff.mp h with rfl | htail
      · omega
      · exact htail
  next => exact h

/-- **The window still covers the walk after a block.** -/
theorem Covers.apply (h : Covers O lookup overlay)
    (happly : overlay.apply O R config genesisHash block = .ok next)
    (hblock : lookup (block.header.hash O) = .ok block.header) : Covers O lookup next := by
  obtain ⟨hparent, hnext, hhistory⟩ := ExecutionReplayOverlay.apply_eq_ok happly
  obtain ⟨before, hbefore, hsuffix⟩ := h.walk
  have hknown : ∀ header ∈ overlay.difficultyHistory ++ [block.header],
      lookup (header.hash O) = .ok header := by
    intro header hheader
    rcases List.mem_append.mp hheader with hold | hnew
    · exact h.known header hold
    · rw [List.mem_singleton.mp hnew]
      exact hblock
  have hlength : (overlay.difficultyHistory ++ [block.header]).length ≤
      blockTimeV2MedianWindow + 1 + 1 := by
    rw [List.length_append, List.length_singleton]
    exact Nat.succ_le_succ h.bounded
  refine ⟨fun header hheader => ?_, ?_, ?_⟩
  · rw [hhistory] at hheader
    split at hheader
    · exact hknown header (List.mem_of_mem_tail hheader)
    · exact hknown header hheader
  · -- the walk from the block is the block's parent and a walk from there
    obtain ⟨walk, hwalk, hends⟩ : ∃ walk,
        headersBefore lookup blockTimeV2MedianWindow block.header = .ok walk ∧
          walk.reverse <:+ overlay.difficultyHistory := by
      have hwindow : blockTimeV2MedianWindow = (blockTimeV2MedianWindow - 1) + 1 := by decide
      rw [hwindow]
      unfold headersBefore
      split
      · exact ⟨[], rfl, List.nil_suffix⟩
      · have hmem : overlay.parent ∈ overlay.difficultyHistory := hsuffix.subset (by simp)
        rw [hparent, h.known _ hmem, ok_bind, headersBefore_take hbefore (Nat.sub_le _ 1)]
        refine ⟨overlay.parent :: before.take (blockTimeV2MedianWindow - 1), rfl, ?_⟩
        refine List.IsSuffix.trans ?_ hsuffix
        refine List.reverse_suffix.mpr ?_
        exact List.cons_prefix_cons.mpr ⟨rfl, List.take_prefix _ _⟩
    rw [hnext, hhistory]
    refine ⟨walk, hwalk, suffix_trimmed ?_ ?_⟩
    · rw [List.reverse_cons]
      obtain ⟨front, hfront⟩ := hends
      exact ⟨front, by rw [← List.append_assoc, hfront]⟩
    · rw [List.length_reverse, List.length_cons]
      exact Nat.succ_le_succ (length_headersBefore hwalk)
  · rw [hhistory]
    split
    · rw [List.length_tail]
      omega
    · omega

theorem Covers.history (h : Covers O lookup overlay)
    (hsound : ∀ hash header, lookup hash = .ok header → header.hash O = hash) :
    ∃ headers, difficultyHistoryHeadersWithLookup overlay.parent lookup = .ok headers ∧
      difficultyHistoryHeadersWithLookup overlay.parent
        (windowLookup O overlay.difficultyHistory) = .ok headers := by
  obtain ⟨before, hbefore, hsuffix⟩ := h.walk
  have hwindow := headersBefore_window h.known hsound hbefore fun header hheader =>
    hsuffix.subset (by simp [hheader])
  unfold difficultyHistoryHeadersWithLookup
  rw [hbefore, hwindow]
  exact ⟨_, rfl, rfl⟩

theorem expectedTarget_congr {child : BlockHeader}
    {lookup lookup' : Hash256 → Except NodeError BlockHeader}
    (h : difficultyHistoryHeadersWithLookup parent lookup =
      difficultyHistoryHeadersWithLookup parent lookup') :
    expectedDifficultyTargetWithLookup config parent child lookup =
      expectedDifficultyTargetWithLookup config parent child lookup' := by
  unfold expectedDifficultyTargetWithLookup difficultyHistoryIntervalsWithLookup
  rw [h]

theorem exists_covers (hchain : HashLinked O chain) (hlookup : CompleteHistory O chain lookup)
    (hparent : parent ∈ chain) :
    ∃ history, difficultyHistoryHeadersWithLookup parent lookup = .ok history ∧
      ∀ overlay : ExecutionReplayOverlay, overlay.parent = parent →
        overlay.difficultyHistory = history → Covers O lookup overlay := by
  obtain ⟨before, hbefore, hin⟩ := exists_headersBefore hchain hlookup blockTimeV2MedianWindow hparent
  refine ⟨(parent :: before).reverse, ?_, ?_⟩
  · unfold difficultyHistoryHeadersWithLookup
    rw [hbefore]
    rfl
  · rintro overlay rfl hhistory
    refine ⟨fun header hheader => ?_, ⟨before, hbefore, by rw [hhistory]⟩, ?_⟩
    · rw [hhistory, List.mem_reverse, List.mem_cons] at hheader
      rcases hheader with rfl | hold
      · exact hlookup.found _ hparent
      · exact hlookup.found _ (hin header hold)
    · rw [hhistory, List.length_reverse, List.length_cons]
      exact Nat.succ_le_succ (length_headersBefore hbefore)

theorem Covers.applyAll {first : ExecutionReplayOverlay} {blocks : List Block}
    (h : Covers O lookup first)
    (hblocks : ∀ block ∈ blocks, lookup (block.header.hash O) = .ok block.header)
    (happly : blocks.foldlM (fun overlay block => overlay.apply O R config genesisHash block) first =
      .ok overlay) : Covers O lookup overlay :=
  foldlM_rec happly h fun block hblock _ _ hnext hcovers => hcovers.apply hnext (hblocks block hblock)

/-- **At every block of a replay the window gives the target of the complete history**, and no
header it asks for is missing: for any chain, any height to start from and any activation height
(the configuration's). -/
theorem window_target_eq (hchain : HashLinked O chain) (hlookup : CompleteHistory O chain lookup)
    {start : ℕ} (hstart : chain[start]? = some parent) :
    ∃ history, difficultyHistoryHeadersWithLookup parent lookup = .ok history ∧
      ∀ (snapshot : ExecutionSnapshot) (genesisHash : Hash256) (first overlay : ExecutionReplayOverlay)
        (blocks : List Block) (next : BlockHeader) (rest : List BlockHeader),
        ExecutionReplayOverlay.fromSnapshot O snapshot parent history = .ok first →
        chain.drop (start + 1) = blocks.map Block.header ++ next :: rest →
        blocks.foldlM (fun overlay block => overlay.apply O R config genesisHash block) first =
          .ok overlay → (∃ headers, difficultyHistoryHeadersWithLookup overlay.parent
          (windowLookup O overlay.difficultyHistory) = .ok headers) ∧
        expectedDifficultyTargetWithLookup config overlay.parent next
            (windowLookup O overlay.difficultyHistory) =
          expectedDifficultyTargetWithLookup config overlay.parent next lookup := by
  obtain ⟨history, hhistory, hcovers⟩ := exists_covers hchain hlookup (List.mem_of_getElem? hstart)
  refine ⟨history, hhistory, ?_⟩
  intro snapshot genesisHash first overlay blocks next rest hfirst hblocks happly
  have hcovered : Covers O lookup first := by
    simp only [ExecutionReplayOverlay.fromSnapshot, throw_bind, ite_throw_eq_ok, pure_eq_ok] at hfirst
    obtain ⟨-, rfl⟩ := hfirst
    exact hcovers _ rfl rfl
  have hmem : ∀ block ∈ blocks, lookup (block.header.hash O) = .ok block.header := by
    intro block hblock
    refine hlookup.found _ (List.mem_of_mem_drop (i := start + 1) ?_)
    rw [hblocks]
    exact List.mem_append_left _ (List.mem_map_of_mem hblock)
  obtain ⟨headers, hfull, hwindow⟩ := (hcovered.applyAll hmem happly).history hlookup.sound
  exact ⟨⟨headers, hwindow⟩, expectedTarget_congr (hwindow.trans hfull.symm)⟩

def nextBlock : Block := childOf secondBlock.header 4

def shortHeaders : List BlockHeader :=
  [genesisHeader nonceOracle, firstBlock.header, secondBlock.header, nextBlock.header]

def medianConfig : NodeConfig := { plainConfig with blockTimeV2ActivationHeight := some 3 }

def replayTwo : Except NodeError ExecutionReplayOverlay := do
  let some snapshot := snapshotHost.executionSnapshot {} 0 | throw (.bail "")
  let first ← ExecutionReplayOverlay.fromSnapshot nonceOracle snapshot (genesisHeader nonceOracle)
    [genesisHeader nonceOracle]
  [firstBlock, secondBlock].foldlM (fun overlay block => overlay.apply nonceOracle noContracts medianConfig
    ((genesisHeader nonceOracle).hash nonceOracle) block) first

theorem window_target_eq_nextBlock : ∃ overlay, replayTwo = .ok overlay ∧
    expectedDifficultyTargetWithLookup medianConfig overlay.parent nextBlock.header
        (windowLookup nonceOracle overlay.difficultyHistory) =
      expectedDifficultyTargetWithLookup medianConfig overlay.parent nextBlock.header
        (windowLookup nonceOracle shortHeaders) := by
  have hchain : HashLinked nonceOracle shortHeaders :=
    ⟨by rintro header ⟨⟩; rfl, by decide +kernel⟩
  have hlookup : CompleteHistory nonceOracle shortHeaders (windowLookup nonceOracle shortHeaders) :=
    ⟨by decide +kernel, fun _ _ => windowLookup_sound⟩
  have hstart : shortHeaders[0]? = some (genesisHeader nonceOracle) := rfl
  obtain ⟨history, hhistory, htarget⟩ := window_target_eq (R := noContracts) hchain hlookup hstart
  obtain rfl : [genesisHeader nonceOracle] = history := Except.ok.inj hhistory
  obtain ⟨overlay, hrun⟩ : ∃ overlay, replayTwo = .ok overlay :=
    exists_ok_of_isOk (by decide +kernel)
  obtain ⟨first, hfirst, happly⟩ := bind_eq_ok.mp hrun
  exact ⟨overlay, hrun, (htarget _ _ first overlay [firstBlock, secondBlock] _ [] hfirst rfl
    happly).2⟩

end Blq
