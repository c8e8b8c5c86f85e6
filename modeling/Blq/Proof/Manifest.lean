import Blq.Proof.GenerationStep

/-!
# When the check of a manifest passes

`verify_generation_manifest` compares the manifest, the publication record and the replay checkpoint
with the stored tip. Here:

* `verifies_iff`: what a generation has to be like for the check to pass;
* `verifies_refreshed_iff`: after the manifest was refreshed, the check depends on the replay
  checkpoint alone;
* `publish_cases`: everything a suffix publication can do to the disk;
* `verifies_finished`: the files a publication leaves describe its tip.
-/

namespace Blq

open Word Result

variable {O : Oracle} {R : Revm} {config : NodeConfig}

namespace Generation

/-! ## The check -/

def Verifies (O : Oracle) (g : Generation) : Prop :=
  ∃ m d, verifyGenerationManifest O ⟨g, []⟩ = .ok m d

/-- The block of the checkpoint is stored at its height. -/
def CheckpointStored (O : Oracle) (s : SledStorage) (c : ReplayCheckpoint) : Prop :=
  ∃ header, s.headers[c.height]? = some header ∧ header.hash O = c.blockHash ∧
    header.stateRoot = c.stateRoot

/-- The checkpoint file is there exactly if the manifest names a height, and it is that of the
manifest. -/
def CheckpointNamed (g : Generation) (m : GenerationManifest) : Prop :=
  g.checkpoint.map (fun c => (c.generationId, c.height)) =
    m.replayCheckpoint.map fun height => (m.generationId, height)

/-- What the check asks for, with the manifest and the stored tip. -/
structure VerifiedBy (O : Oracle) (g : Generation) (m : GenerationManifest) (best : BlockHeader) :
    Prop where
  manifest : g.manifest = some m
  status : ¬(m.status = .staging ∨ m.status = .retired ∨ m.status = .failed)
  tip : g.store.bestHeader = .ok best
  describes : m.Describes O best
  publication : ∀ record, g.publication = some record → record.generationId = m.generationId
  named : CheckpointNamed g m
  stored : ∀ c, g.checkpoint = some c → c.height.toNat ≤ best.number.toNat ∧
    CheckpointStored O g.store c

variable {g g' : Generation} {m : GenerationManifest} {best tip ancestor : BlockHeader}
  {replacement : List Block}

theorem stalePublication_eq_ok {stale : Bool} (h : g.stalePublication O m = .ok stale) :
    ∀ record, g.publication = some record → record.generationId = m.generationId := by
  intro record hrecord
  unfold stalePublication at h
  rw [hrecord] at h
  simp only [ite_throw_eq_ok, not_not] at h
  exact h.1

theorem exists_stalePublication
    (h : ∀ record, g.publication = some record → record.generationId = m.generationId) :
    ∃ stale, g.stalePublication O m = .ok stale := by
  unfold stalePublication
  cases hrecord : g.publication with
  | none => exact ⟨false, rfl⟩
  | some record =>
    dsimp only
    rw [if_neg (not_not.mpr (h record hrecord))]
    exact ⟨_, rfl⟩

theorem verifyReplayCheckpoint_eq_ok_iff :
    g.verifyReplayCheckpoint O m best = .ok () ↔ CheckpointNamed g m ∧
      ∀ c, g.checkpoint = some c → c.height.toNat ≤ best.number.toNat ∧
        CheckpointStored O g.store c := by
  unfold verifyReplayCheckpoint CheckpointNamed
  cases hheight : m.replayCheckpoint with
  | none =>
    cases hc : g.checkpoint with
    | none => simp
    | some c => simp
  | some height =>
    cases hc : g.checkpoint with
    | none => simp
    | some c =>
      simp only [throw_bind, ite_throw_eq_ok, bind_eq_ok, pure_eq_ok, headerByNumber_eq_ok, and_true,
        Option.map_some, Option.some.injEq, Prod.mk.injEq, forall_eq', CheckpointStored]
      push Not
      tauto

theorem checkGenerationManifest_eq_ok {stale : Bool}
    (h : g.checkGenerationManifest O = .ok (m, stale)) : ∃ best, VerifiedBy O g m best := by
  unfold checkGenerationManifest at h
  cases hm : g.manifest with
  | none => simp [hm] at h
  | some m' =>
    simp only [hm, throw_bind, ite_throw_eq_ok, bind_eq_ok, pure_eq_ok, Prod.mk.injEq, not_not] at h
    obtain ⟨hstatus, best, htip, hdescribes, stale', hstale, _, hcheckpoint, rfl, rfl⟩ := h
    obtain ⟨hnamed, hstored⟩ := verifyReplayCheckpoint_eq_ok_iff.mp hcheckpoint
    exact ⟨best, hm, hstatus, htip, hdescribes, stalePublication_eq_ok hstale, hnamed, hstored⟩

theorem VerifiedBy.check (h : VerifiedBy O g m best) :
    ∃ stale, g.checkGenerationManifest O = .ok (m, stale) := by
  obtain ⟨stale, hstale⟩ := exists_stalePublication (O := O) h.publication
  have hcheckpoint := verifyReplayCheckpoint_eq_ok_iff.mpr ⟨h.named, h.stored⟩
  refine ⟨stale, ?_⟩
  unfold checkGenerationManifest
  simp only [h.manifest, throw_bind, ite_throw_eq_ok, bind_eq_ok, pure_eq_ok, Prod.mk.injEq, not_not]
  exact ⟨h.status, best, h.tip, h.describes, stale, hstale, (), hcheckpoint, by simp⟩

/-- **The check passes** exactly if manifest, publication record and checkpoint describe the stored
chain. -/
theorem verifies_iff : Verifies O g ↔ ∃ m best, VerifiedBy O g m best := by
  unfold Verifies verifyGenerationManifest
  constructor
  · rintro ⟨m, d, h⟩
    rw [onDisk_bind_apply] at h
    obtain ⟨⟨m', stale⟩, d', hcheck, -⟩ := run_bind_eq_ok.mp h
    obtain ⟨hcheck, -⟩ := run_runExcept_eq_ok.mp hcheck
    rw [liftStorage, mapError_eq_ok] at hcheck
    obtain ⟨best, hbest⟩ := checkGenerationManifest_eq_ok hcheck
    exact ⟨m', best, hbest⟩
  · rintro ⟨m, best, h⟩
    obtain ⟨stale, hstale⟩ := h.check
    rw [onDisk_bind_apply, runExcept_bind_of_ok (by rw [hstale]; rfl)]
    cases stale with
    | true => exact ⟨m, _, rfl⟩
    | false => exact ⟨m, _, rfl⟩

/-! ## After a refresh -/

/-- **After a refresh the check depends on the checkpoint alone**: its block has to be on the chain
that is stored now. The publication record may be that of the manifest before. -/
theorem verifies_refreshed_iff (hm : VerifiedBy O g m best)
    (hmanifest : g'.manifest = some (refreshedManifest O m tip))
    (hpublication : ∀ record, g'.publication = some record → record.generationId = m.generationId)
    (hcheckpoint : g'.checkpoint = g.checkpoint) (htip : g'.store.bestHeader = .ok tip) :
    Verifies O g' ↔ ∀ c, g.checkpoint = some c → c.height.toNat ≤ tip.number.toNat ∧
      CheckpointStored O g'.store c := by
  rw [verifies_iff]
  constructor
  · rintro ⟨m', best', h'⟩ c hc
    have hbest : best' = tip := by
      have heq := h'.tip.symm.trans htip
      exact Except.ok.inj heq
    rw [← hcheckpoint] at hc
    rw [← hbest]
    exact h'.stored c hc
  · intro hstored
    refine ⟨refreshedManifest O m tip, tip, hmanifest, ?_, htip, ⟨rfl, rfl, rfl⟩, hpublication, ?_, ?_⟩
    · rintro (h | h | h) <;> cases h
    · have hnamed := hm.named
      unfold CheckpointNamed at hnamed ⊢
      rw [hcheckpoint]
      exact hnamed
    · intro c hc
      rw [hcheckpoint] at hc
      exact hstored c hc

theorem verifies_withTip_iff (hverified : Verifies O g)
    (hfiles : g'.files = (withTip O g tip).files) (htip : g'.store.bestHeader = .ok tip) :
    Verifies O g' ↔ ∀ c, g.checkpoint = some c → c.height.toNat ≤ tip.number.toNat ∧
      CheckpointStored O g'.store c := by
  obtain ⟨m, best, hm⟩ := verifies_iff.mp hverified
  unfold withTip at hfiles
  simp only [hm.manifest] at hfiles
  have hpublication : g'.publication =
      some ⟨m.generationId, manifestChecksum O (refreshedManifest O m tip)⟩ :=
    congrArg (fun fs : Files => fs.2.1) hfiles
  refine verifies_refreshed_iff hm (congrArg Prod.fst hfiles) ?_
    (congrArg (fun fs : Files => fs.2.2.1) hfiles) htip
  intro record hrecord
  rw [hpublication] at hrecord
  obtain rfl := Option.some.inj hrecord
  rfl

/-! ## A suffix publication -/

/-- The tip of a manifest is that of another one's checkpoint, or there is none: what
`sync_suffix_replay_checkpoint` writes. -/
def checkpointOf (m : GenerationManifest) : Option ReplayCheckpoint :=
  m.replayCheckpoint.map fun height => ⟨m.generationId, height, m.canonicalHash, m.stateRoot⟩

theorem syncSuffixReplayCheckpoint_apply (m : GenerationManifest) (d : Durable Generation) :
    syncSuffixReplayCheckpoint m d =
      .ok () ⟨{ d.current with checkpoint := checkpointOf m }, d.past ++ [d.current]⟩ := by
  unfold syncSuffixReplayCheckpoint checkpointOf
  cases m.replayCheckpoint with
  | none => rfl
  | some height => rfl

def publicationOf (O : Oracle) (m : GenerationManifest) : GenerationPublicationRecord :=
  ⟨m.generationId, manifestChecksum O m⟩

theorem refresh_apply {d : Durable Generation} (hm : d.current.manifest = some m)
    (hbest : (database d).bestHeader = .ok tip) :
    refreshGenerationManifest O d = .ok ()
      ⟨{ d.current with
          manifest := some (refreshedManifest O m tip)
          publication := some (publicationOf O (refreshedManifest O m tip)) },
        d.past ++ [d.current, { d.current with manifest := some (refreshedManifest O m tip) }]⟩ := by
  unfold refreshGenerationManifest
  rw [onDisk_bind_apply, hm]
  dsimp only
  rw [readDatabase_bind_of_ok hbest]
  show (.ok () _ : EStateM.Result NodeError (Durable Generation) Unit) = _
  simp only [publicationOf, List.append_assoc, List.cons_append, List.nil_append]

/-- The files one by one after the batch of a publication, or when opening completes it. -/
def finishSteps (O : Oracle) (g : Generation) (target : GenerationManifest) : List Generation :=
  let g₁ := { g with checkpoint := checkpointOf target }
  let g₂ := { g₁ with manifest := some target }
  let g₃ := { g₂ with publication := some (publicationOf O target) }
  [g, g₁, g₂, g₃]

def finished (O : Oracle) (g : Generation) (target : GenerationManifest) : Generation :=
  { g with
    checkpoint := checkpointOf target
    manifest := some target
    publication := some (publicationOf O target)
    journal := none }

theorem finish_apply (target : GenerationManifest) (d : Durable Generation) :
    (do
      syncSuffixReplayCheckpoint target
      writeGenerationManifest target
      writeGenerationPublication O target
      clearSuffixPublication) d =
      .ok () ⟨finished O d.current target, d.past ++ finishSteps O d.current target⟩ := by
  rw [bind_apply_of_ok (syncSuffixReplayCheckpoint_apply target d)]
  show (.ok () _ : EStateM.Result NodeError (Durable Generation) Unit) = _
  simp only [finished, finishSteps, publicationOf, List.append_assoc, List.cons_append, List.nil_append]

section Publish

variable (O) (ancestor : BlockHeader) (replacement : List Block) (native : NativeAccounts)
  (evm : EvmStateSnapshot) (totals : U64 × U128 × U128) (target : GenerationManifest)
  (d : Durable Generation)

/-- **All a publication can do to the disk**: nothing, or leave its journal when the batch cannot be
built, or go through all its steps. -/
theorem publish_cases :
    (∃ e, publishCanonicalSuffix O ancestor replacement native evm totals target d = .error e d) ∨
    ∃ previous, d.current.manifest = some previous ∧
      checkSuffix O d.current.store ancestor replacement target = .ok () ∧
      ((∃ e, publishCanonicalSuffix O ancestor replacement native evm totals target d =
          .error e ⟨{ d.current with journal := some ⟨previous, target⟩ }, d.past ++ [d.current]⟩) ∨
        ∃ batch, ({ d.current with journal := some ⟨previous, target⟩ } : Generation).suffixBatch O
            ancestor replacement native evm totals = .ok batch ∧
          publishCanonicalSuffix O ancestor replacement native evm totals target d =
            .ok () ⟨finished O batch target, d.past ++ [d.current,
              { d.current with journal := some ⟨previous, target⟩ }] ++
              finishSteps O batch target⟩) := by
  unfold publishCanonicalSuffix
  rw [onDisk_bind_apply]
  cases hm : d.current.manifest with
  | none => exact .inl ⟨_, rfl⟩
  | some previous =>
    dsimp only
    cases hcheck : checkSuffix O d.current.store ancestor replacement target with
    | error e =>
      exact .inl ⟨_, bind_apply_of_error (readDatabase_apply_of_error hcheck)⟩
    | ok u =>
      refine .inr ⟨previous, rfl, rfl, ?_⟩
      rw [readDatabase_bind_of_ok hcheck]
      show (∃ e, (runExcept _ >>= _) _ = _) ∨ ∃ batch, _ ∧ (runExcept _ >>= _) _ = _
      cases hbatch : ({ d.current with journal := some ⟨previous, target⟩ } : Generation).suffixBatch O
          ancestor replacement native evm totals with
      | error e => exact .inl ⟨e, runExcept_bind_of_error rfl⟩
      | ok batch =>
        refine .inr ⟨batch, rfl, ?_⟩
        rw [runExcept_bind_of_ok rfl, durably_bind_apply, finish_apply]
        simp only [List.append_assoc, List.cons_append, List.nil_append]

end Publish

/-! ## What a publication leaves -/

theorem files_removeIndex (g : Generation) (block : Block) :
    (removeIndex O g block).files = g.files := by
  unfold removeIndex
  generalize block.transactions = l
  induction l generalizing g with
  | nil => rfl
  | cons t l ih => exact (ih _).trans rfl

theorem files_addIndex {block : Block} (h : addIndex O g block = .ok g') : g'.files = g.files := by
  unfold addIndex at h
  refine foldlM_rec (P := fun g₁ => g₁.files = g.files) h rfl fun _ _ _ _ hstep hfiles => ?_
  dsimp only at hstep
  split at hstep
  · exact absurd hstep throw_ne_ok
  · obtain rfl := pure_eq_ok.mp hstep
    exact hfiles

theorem suffixBatch_eq_ok {batch : Generation} {native : NativeAccounts} {evm : EvmStateSnapshot}
    {totals : U64 × U128 × U128}
    (h : g.suffixBatch O ancestor replacement native evm totals = .ok batch) :
    g.store.publishCanonicalSuffix O ancestor replacement native evm totals = .ok batch.store ∧
      batch.files = g.files := by
  simp only [suffixBatch, bind_eq_ok, pure_eq_ok, liftStorage, mapError_eq_ok] at h
  obtain ⟨store, hstore, best, -, removed, -, indexed, hindexed, rfl⟩ := h
  have hremoved : (removed.foldl (fun g block => removeIndex O g block) g).files = g.files :=
    List.foldlRecOn (motive := fun g₁ => g₁.files = g.files) removed _ rfl
      fun g₁ h₁ block _ => (files_removeIndex g₁ block).trans h₁
  exact ⟨hstore, foldlM_rec (P := fun g₁ => g₁.files = g.files) hindexed hremoved
    fun _ _ _ _ hadd h₁ => (files_addIndex hadd).trans h₁⟩

theorem checkSuffix_eq_ok {s : SledStorage} {target : GenerationManifest}
    (h : checkSuffix O s ancestor replacement target = .ok ()) :
    ∃ tip, replacement.getLast? = some tip ∧ target.Describes O tip.header ∧
      target.replayCheckpoint = some tip.header.number := by
  simp only [checkSuffix, throw_bind, bind_eq_ok, ite_throw_eq_ok] at h
  obtain ⟨best, -, -, stored, -, -, _, -, h⟩ := h
  split at h
  · next tip htip =>
    simp only [ite_throw_eq_ok, not_or, not_not] at h
    exact ⟨tip, htip, h.1.1, h.1.2⟩
  · exact absurd h throw_ne_ok

/-- **The files of a publication describe the replacement's tip**: over any database with that tip
the check passes. -/
theorem verifies_finished {target : GenerationManifest} (htip : g.store.bestHeader = .ok tip)
    (hstored : g.store.headers[tip.number]? = some tip) (hdescribes : target.Describes O tip)
    (hcheckpoint : target.replayCheckpoint = some tip.number)
    (hstatus : ¬(target.status = .staging ∨ target.status = .retired ∨ target.status = .failed)) :
    Verifies O (finished O g target) := by
  have hsaved : (finished O g target).checkpoint =
      some ⟨target.generationId, tip.number, target.canonicalHash, target.stateRoot⟩ := by
    show checkpointOf target = _
    unfold checkpointOf
    rw [hcheckpoint]
    rfl
  refine verifies_iff.mpr ⟨target, tip, rfl, hstatus, htip, hdescribes, ?_, ?_, ?_⟩
  · intro record hrecord
    obtain rfl := Option.some.inj (show some (publicationOf O target) = some record from hrecord)
    rfl
  · unfold CheckpointNamed
    rw [hsaved, hcheckpoint]
    rfl
  · intro c hc
    obtain rfl := Option.some.inj (hsaved.symm.trans hc)
    exact ⟨le_rfl, tip, hstored, hdescribes.2.1.symm, hdescribes.2.2.symm⟩

end Generation

end Blq
