import Blq.Proof.ChainOperations
import Blq.Spec.GenerationRoot

/-!
# Pruning old generations

Old generations are removed by their identifiers, while the pointer to the active one can move down:
the start of a node falls back to an older generation that still opens.

* `mem_drop_iff`: what is behind the first entries of a descending list.
* `Moves`: an operation removes no directory and moves the pointer only to one that is there, one
  lemma for each operation.
* `SafeRun.activePresent`: the directory of the active generation is there along every run whose
  prunings are safe.
* `prune_keeps_active_iff`: pruning keeps it exactly if fewer than two directories have a higher
  identifier.
* `prune_deletes_fallback`: a node falls back to its only valid generation and removes it.
-/

namespace Blq

open Word Result

/-! ## Descending lists -/

/-- **An entry is behind the first `n` exactly if `n` entries are above it.** -/
theorem mem_drop_iff {l : List U64} (hsorted : l.Pairwise fun a b => b.toNat < a.toNat) {x : U64}
    (n : ℕ) : x ∈ l.drop n ↔ x ∈ l ∧ n ≤ (l.filter fun y => x.toNat < y.toNat).length := by
  induction l generalizing n with
  | nil => simp
  | cons y l ih =>
    rw [List.pairwise_cons] at hsorted
    obtain ⟨habove, hrest⟩ := hsorted
    cases n with
    | zero => simp
    | succ n =>
      rw [List.drop_succ_cons, ih hrest]
      constructor
      · rintro ⟨hx, hcount⟩
        have hlt := habove x hx
        refine ⟨List.mem_cons_of_mem y hx, ?_⟩
        rw [List.filter_cons_of_pos (by simpa using hlt), List.length_cons]
        omega
      · rintro ⟨hx, hcount⟩
        rcases List.mem_cons.mp hx with rfl | hx
        · -- nothing is above the first entry
          have hnone : ((x :: l).filter fun y => x.toNat < y.toNat) = [] := by
            refine List.filter_eq_nil_iff.mpr fun z hz => ?_
            rcases List.mem_cons.mp hz with rfl | hz
            · simp
            · have := habove z hz
              simp only [decide_eq_true_eq]
              omega
          rw [hnone, List.length_nil] at hcount
          omega
        · have hlt := habove x hx
          rw [List.filter_cons_of_pos (by simpa using hlt), List.length_cons] at hcount
          exact ⟨hx, by omega⟩

namespace GenerationRoot

variable {O : Oracle} {expectedGenesis : Option Hash256} {root root' : GenerationRoot}

def Has (root : GenerationRoot) (id : U64) : Prop := (root.generations[id]?).isSome

variable {id : U64}

theorem mem_ids : id ∈ root.ids ↔ root.Has id := by
  unfold ids Has
  rw [List.mem_map]
  constructor
  · rintro ⟨⟨k, g⟩, hmem, rfl⟩
    rw [(Map.mem_toList_iff _ _ _).mp hmem]
    rfl
  · intro hsome
    obtain ⟨g, hg⟩ := Option.isSome_iff_exists.mp hsome
    exact ⟨(id, g), (Map.mem_toList_iff _ _ _).mpr hg, rfl⟩

theorem pairwise_ids (root : GenerationRoot) : root.ids.Pairwise fun a b => a.toNat < b.toNat := by
  unfold ids
  rw [List.pairwise_map]
  refine root.generations.ordered_keys_toList.imp ?_
  intro p q hlt
  exact BitVec.lt_def.mp (compareOfLessAndEq_eq_lt.mp hlt)

def above (root : GenerationRoot) (id : U64) : ℕ :=
  (root.ids.filter fun other => id.toNat < other.toNat).length

/-- **What pruning leaves.** -/
theorem has_prune : root.pruneOldGenerations.Has id ↔ root.Has id ∧ root.above id < 2 := by
  have hsorted : root.ids.reverse.Pairwise fun a b => b.toNat < a.toNat :=
    List.pairwise_reverse.mpr root.pairwise_ids
  have hcount : (root.ids.reverse.filter fun other => id.toNat < other.toNat).length =
      root.above id := by
    rw [List.filter_reverse, List.length_reverse]
    rfl
  unfold Has pruneOldGenerations
  rw [Map.getElem?_foldl_erase]
  constructor
  · intro hsome
    split at hsome
    · cases hsome
    · next hnot =>
      refine ⟨hsome, ?_⟩
      by_contra hmany
      refine hnot ((mem_drop_iff hsorted 2).mpr ⟨List.mem_reverse.mpr (mem_ids.mpr hsome), ?_⟩)
      rw [hcount]
      omega
  · rintro ⟨hsome, hfew⟩
    have hnot : id ∉ root.ids.reverse.drop 2 := by
      intro hmem
      have := ((mem_drop_iff hsorted 2).mp hmem).2
      rw [hcount] at this
      omega
    rw [if_neg hnot]
    exact hsome

/-! ## Operations -/

def ActivePresent (root : GenerationRoot) : Prop := ∀ id, root.active = some id → root.Has id

/-- No directory disappears, and the pointer stays or names one that is there. -/
structure Moves (root root' : GenerationRoot) : Prop where
  keeps : ∀ id, root.Has id → root'.Has id
  pointer : root'.active = root.active ∨ ∃ id, root'.active = some id ∧ root'.Has id

theorem Moves.refl (root : GenerationRoot) : Moves root root := ⟨fun _ h => h, .inl rfl⟩

theorem Moves.trans {root'' : GenerationRoot} (h : Moves root root') (h' : Moves root' root'') :
    Moves root root'' := by
  refine ⟨fun id hid => h'.keeps id (h.keeps id hid), ?_⟩
  rcases h'.pointer with hsame | hmoved
  · rcases h.pointer with hsame' | ⟨id, hid, hhas⟩
    · exact .inl (hsame.trans hsame')
    · exact .inr ⟨id, hsame.trans hid, h'.keeps id hhas⟩
  · exact .inr hmoved

theorem Moves.activePresent (h : Moves root root') (hactive : root.ActivePresent) :
    root'.ActivePresent := by
  intro id hid
  rcases h.pointer with hsame | ⟨id', hid', hhas⟩
  · exact h.keeps id (hactive id (hsame ▸ hid))
  · obtain rfl : id' = id := Option.some.inj (hid'.symm.trans hid)
    exact hhas

theorem Moves.then {α : Type} {x : RootM α} {Q : α → GenerationRoot → Prop} (h : Moves root root')
    (hx : Keeps (Moves root') x root' Q) : Keeps (Moves root) x root' Q :=
  hx.imp fun _ h' => h.trans h'

theorem has_storeGeneration {k : U64} {g : Generation} :
    (root.storeGeneration id g).Has k ↔ k = id ∨ root.Has k := by
  unfold storeGeneration Has
  rw [Map.getElem?_insert_eq]
  by_cases hk : id = k
  · simp [hk]
  · simp [hk, Ne.symm hk]

theorem moves_storeGeneration (root : GenerationRoot) (id : U64) (g : Generation) :
    Moves root (root.storeGeneration id g) :=
  ⟨fun _ h => has_storeGeneration.mpr (.inr h), .inl rfl⟩

theorem keeps_inGeneration {α : Type} (id : U64) (x : DiskM α) (root : GenerationRoot) :
    Keeps (Moves root) (inGeneration id x) root fun _ root' => root'.Has id := by
  unfold Keeps inGeneration
  cases x ⟨(root.generations[id]?).getD {}, []⟩ with
  | ok a d => exact ⟨moves_storeGeneration root id _, has_storeGeneration.mpr (.inl rfl)⟩
  | error e d => exact ⟨moves_storeGeneration root id _, has_storeGeneration.mpr (.inl rfl)⟩

theorem moves_updateGeneration (root : GenerationRoot) (id : U64) (f : Generation → Generation) :
    Moves root (match root.generations[id]? with
      | some g => root.storeGeneration id (f g)
      | none => root) := by
  split
  · exact moves_storeGeneration root id _
  · exact .refl root

theorem keeps_writeManifest (id : U64) (m : GenerationManifest) (root : GenerationRoot) :
    Keeps (Moves root) (writeManifest id m) root fun _ _ => True :=
  keeps_modify (moves_updateGeneration root id fun g => { g with manifest := some m }) trivial

theorem keeps_failGeneration (id : U64) (root : GenerationRoot) :
    Keeps (Moves root) (failGeneration id) root fun _ _ => True :=
  keeps_modify (moves_updateGeneration root id Generation.failGeneration) trivial

theorem keeps_activateGeneration (h : root.Has id) :
    Keeps (Moves root) (activateGeneration id) root fun _ _ => True :=
  keeps_modify ⟨fun _ hid => hid, .inr ⟨id, rfl, h⟩⟩ trivial

theorem moves_staging (root : GenerationRoot) (staging : Map U64 Generation) :
    Moves root { root with staging := staging } := ⟨fun _ h => h, .inl rfl⟩

theorem keeps_publishStagingGeneration (id : U64) (m : GenerationManifest) (root : GenerationRoot) :
    Keeps (Moves root) (publishStagingGeneration O id m) root fun _ _ => ¬root.Has id := by
  unfold publishStagingGeneration
  refine keeps_ite (fun _ => keeps_throw (.refl root)) fun _ => keeps_get_bind ?_
  split
  · exact keeps_throw (.refl root)
  · split
    · exact keeps_set_bind (keeps_throw (moves_staging root _))
    · next d _ =>
      refine keeps_ite (fun _ => keeps_set_bind (keeps_throw (moves_staging root _))) fun hfree => ?_
      -- the directory is renamed before the pointer names it
      have hrenamed : Moves root { root with
          staging := root.staging.erase id
          generations := root.generations.insert id d.current } :=
        (moves_storeGeneration root id d.current).trans (moves_staging _ _)
      refine keeps_set_bind (keeps_modify (hrenamed.trans ⟨fun _ h => h, .inr ⟨id, rfl, ?_⟩⟩) ?_)
      · exact has_storeGeneration.mpr (.inl rfl)
      · rwa [Std.ExtTreeMap.contains_eq_isSome_getElem?] at hfree

theorem keeps_generationPathIsValid (id : U64) (root : GenerationRoot) :
    Keeps (Moves root) (generationPathIsValid O id) root fun valid root' =>
      valid = true → root'.Has id := by
  unfold generationPathIsValid loadGenerationManifest
  refine keeps_get_bind ?_
  split
  · exact keeps_pure (.refl root) (by simp)
  · refine keeps_ite (fun _ => keeps_pure (.refl root) (by simp)) fun _ => ?_
    refine (keeps_inGeneration id _ root).bind fun outcome root₁ h₁ _ => ?_
    cases outcome with
    | error e => exact keeps_throw h₁
    | ok _ =>
      refine (h₁.then (keeps_inGeneration id _ root₁)).bind fun outcome root₂ h₂ hhas => ?_
      cases outcome with
      | error e => exact keeps_pure h₂ (by simp)
      | ok _ => exact keeps_pure h₂ fun _ => hhas

theorem keeps_validGenerations (l : List U64) (root : GenerationRoot) :
    Keeps (Moves root) (validGenerations O l) root fun valid root' => ∀ id ∈ valid, root'.Has id := by
  induction l generalizing root with
  | nil => exact keeps_pure (.refl root) (by simp)
  | cons id l ih =>
    unfold validGenerations
    refine (keeps_generationPathIsValid id root).bind fun valid root₁ h₁ hvalid => ?_
    -- the directory that was found is still there after the others were checked
    have hothers : Keeps (Moves root) (validGenerations O l) root₁ fun others root' =>
        (∀ id ∈ others, root'.Has id) ∧ (valid = true → root'.Has id) := by
      have hrest := ih root₁
      unfold Keeps at hrest ⊢
      split at hrest
      · next h => exact ⟨h₁.trans hrest.1, hrest.2, fun hv => hrest.1.keeps id (hvalid hv)⟩
      · exact h₁.trans hrest
    refine hothers.bind fun others root₂ h₂ hhas => keeps_pure h₂ ?_
    cases valid with
    | true => exact List.forall_mem_cons.mpr ⟨hhas.2 rfl, hhas.1⟩
    | false => exact hhas.1

theorem keeps_keepActive (root : GenerationRoot) :
    Keeps (Moves root) (keepActive O) root fun _ _ => True := by
  unfold keepActive loadGenerationManifest
  refine keeps_get_bind ?_
  split
  · exact keeps_pure (.refl root) trivial
  · next id _ =>
    rw [bind_assoc]
    refine keeps_get_bind ?_
    rw [pure_bind]
    split
    · exact keeps_pure (.refl root) trivial
    · next m _ =>
      refine keeps_ite (fun _ => keeps_pure (.refl root) trivial) fun _ => ?_
      refine (keeps_generationPathIsValid id root).bind fun valid root₁ h₁ _ => ?_
      refine keeps_ite (fun _ => keeps_pure h₁ trivial) fun _ => ?_
      exact (h₁.then (keeps_writeManifest id _ root₁)).bind fun _ root₂ h₂ _ =>
        keeps_pure h₂ trivial

theorem keeps_recoverGenerationState (root : GenerationRoot) :
    Keeps (Moves root) (recoverGenerationState O) root fun _ _ => True := by
  unfold recoverGenerationState
  refine keeps_modify_bind ?_
  have h₀ := moves_staging root ∅
  refine (h₀.then (keeps_keepActive _)).bind fun kept root₁ h₁ _ => ?_
  refine keeps_ite (fun _ => keeps_pure h₁ trivial) fun _ => ?_
  have hverified : Keeps (Moves root) (verifiedGenerationPaths O) root₁ fun valid root' =>
      ∀ id ∈ valid, root'.Has id := by
    unfold verifiedGenerationPaths
    refine keeps_get_bind ((h₁.then (keeps_validGenerations _ root₁)).bind fun valid root₂ h₂ hhas => ?_)
    exact keeps_pure h₂ fun id hid => hhas id (List.mem_reverse.mp hid)
  refine hverified.bind fun valid root₂ h₂ hhas => ?_
  cases valid with
  | nil => exact keeps_pure h₂ trivial
  | cons id rest =>
    have hid := hhas id (by simp)
    refine (h₂.then (keeps_activateGeneration hid)).bind fun _ root₃ h₃ _ => ?_
    unfold loadGenerationManifest
    refine keeps_get_bind ?_
    split
    · exact keeps_pure h₃ trivial
    · exact h₃.then (keeps_writeManifest id _ root₃)

def Carries (best : Option (U64 × U128 × Hash256)) (root : GenerationRoot) : Prop :=
  ∀ id work hash, best = some (id, work, hash) → root.Has id

theorem Carries.moves {best : Option (U64 × U128 × Hash256)} (h : Carries best root)
    (hmoves : Moves root root') : Carries best root' := fun id work hash hbest =>
  hmoves.keeps id (h id work hash hbest)

theorem carries_some {work : U128} {hash : Hash256} (h : root.Has id) :
    Carries (some (id, work, hash)) root := by
  rintro id' work' hash' hbest
  obtain ⟨rfl, -⟩ := Prod.mk.inj (Option.some.inj hbest)
  exact h

theorem keeps_restoreFailed {best : Option (U64 × U128 × Hash256)} (id : U64)
    (root : GenerationRoot) (hbest : Carries best root) :
    Keeps (Moves root) (restoreFailed O expectedGenesis best id) root Carries := by
  unfold restoreFailed
  refine keeps_get_bind ?_
  split
  · split
    · refine keeps_ite (fun _ => keeps_pure (.refl root) hbest) fun _ => ?_
      split
      · refine keeps_ite (fun _ => keeps_pure (.refl root) hbest) fun _ => ?_
        refine (keeps_writeManifest id _ root).bind fun _ root₁ h₁ _ => ?_
        refine (h₁.then (keeps_inGeneration id _ root₁)).bind fun outcome root₂ h₂ hhas => ?_
        have hbest₂ := hbest.moves h₂
        cases outcome with
        | error e =>
          -- the mark is put back
          exact (h₂.then (keeps_writeManifest id _ root₂)).bind fun _ root₃ h₃ _ =>
            keeps_pure h₃ (hbest.moves h₃)
        | ok result =>
          obtain ⟨work, hash⟩ := result
          cases best with
          | none => exact keeps_pure h₂ (carries_some hhas)
          | some current =>
            obtain ⟨bestId, bestWork, bestHash⟩ := current
            exact keeps_ite (fun _ => keeps_pure h₂ (carries_some hhas)) fun _ =>
              keeps_pure h₂ hbest₂
      · exact keeps_pure (.refl root) hbest
    · exact keeps_pure (.refl root) hbest
  · exact keeps_pure (.refl root) hbest

theorem keeps_restoreFailedPublicationGenerations (root : GenerationRoot) :
    Keeps (Moves root) (restoreFailedPublicationGenerations O expectedGenesis) root
      fun _ _ => True := by
  unfold restoreFailedPublicationGenerations
  refine keeps_get_bind ?_
  have hactive : Keeps (Moves root) (activeWithWork O expectedGenesis root.active) root Carries := by
    unfold activeWithWork
    split
    · exact keeps_pure (.refl root) (by intro id work hash h; cases h)
    · next id _ =>
      refine (keeps_inGeneration id _ root).bind fun outcome root₁ h₁ hhas => ?_
      cases outcome with
      | error e => exact keeps_pure h₁ (by intro id work hash h; cases h)
      | ok result => exact keeps_pure h₁ (carries_some hhas)
  refine hactive.bind fun best root₁ h₁ hbest => keeps_get_bind ?_
  have hloop : Keeps (Moves root) (root₁.ids.foldlM (restoreFailed O expectedGenesis) best) root₁
      Carries :=
    keeps_foldlM h₁ hbest fun id _ best' root' h' hbest' =>
      h'.then (keeps_restoreFailed id root' hbest')
  refine hloop.bind fun best' root₂ h₂ hbest' => ?_
  cases best' with
  | none => exact keeps_pure h₂ trivial
  | some result =>
    obtain ⟨id, work, hash⟩ := result
    exact keeps_ite (fun _ => h₂.then (keeps_activateGeneration (hbest' id work hash rfl))) fun _ =>
      keeps_pure h₂ trivial

theorem keeps_openGenerations (active : Option U64) (l : List U64) (root : GenerationRoot) :
    Keeps (Moves root) (openGenerations O expectedGenesis active l) root fun _ _ => True := by
  induction l generalizing root with
  | nil => exact keeps_pure (.refl root) trivial
  | cons id l ih =>
    unfold openGenerations
    refine (keeps_inGeneration id _ root).bind fun outcome root₁ h₁ hhas => ?_
    cases outcome with
    | error e =>
      exact (h₁.then (keeps_failGeneration id root₁)).bind fun _ root₂ h₂ _ => h₂.then (ih root₂)
    | ok _ =>
      refine keeps_ite (fun _ => ?_) fun _ => keeps_pure h₁ trivial
      exact (h₁.then (keeps_activateGeneration hhas)).bind fun _ root₂ h₂ _ =>
        keeps_pure h₂ trivial

theorem keeps_restoreLatestGenerationSnapshot (snapshots : List StagedSnapshot)
    (root : GenerationRoot) :
    Keeps (Moves root) (restoreLatestGenerationSnapshot O expectedGenesis snapshots) root
      fun chosen _ => ∀ id, chosen = some id → ¬root.Has id := by
  induction snapshots generalizing root with
  | nil => exact keeps_pure (.refl root) nofun
  | cons snapshot rest ih =>
    unfold restoreLatestGenerationSnapshot
    refine keeps_get_bind ?_
    dsimp only
    split
    · exact ih root
    · refine keeps_set_bind ?_
      refine (((moves_staging root _).then
        (keeps_publishStagingGeneration _ _ _)).attempt).bind fun outcome root₁ h₁ hfree => ?_
      cases outcome with
      | ok _ =>
        refine keeps_pure h₁ fun id hid => ?_
        obtain rfl := Option.some.inj hid
        exact hfree () rfl
      | error e =>
        refine keeps_modify_bind (((h₁.trans (moves_staging root₁ _)).then (ih _)).mono ?_)
        exact fun _ _ _ h id hid hhas => h id hid (h₁.keeps id hhas)

theorem keeps_openNode (snapshots : List StagedSnapshot) (root : GenerationRoot) :
    Keeps (Moves root) (openNode O expectedGenesis snapshots) root fun _ _ => True := by
  unfold openNode
  refine (keeps_restoreFailedPublicationGenerations root).bind fun _ root₁ h₁ _ => keeps_get_bind ?_
  refine (h₁.then (keeps_openGenerations _ _ root₁)).bind fun chosen root₂ h₂ _ => ?_
  cases chosen with
  | some id => exact keeps_pure h₂ trivial
  | none =>
    refine (h₂.then (keeps_restoreLatestGenerationSnapshot snapshots root₂)).bind
      fun chosen root₃ h₃ _ => ?_
    cases chosen with
    | some id => exact keeps_pure h₃ trivial
    | none =>
      exact (h₃.then (keeps_recoverGenerationState root₃)).bind fun _ root₄ h₄ _ =>
        keeps_pure h₄ trivial

/-! ## Runs -/

/-- What happens to the directory: a generation is staged, published, the node starts, falls back,
writes to a generation (or a crash leaves it in any state), and prunes. -/
inductive RootOp where
  | stage (id : U64) (g : Generation)
  | publish (id : U64) (m : GenerationManifest)
  | start (snapshots : List StagedSnapshot)
  | fallBack
  | write (id : U64) (g : Generation)
  | prune

def RootOp.run (O : Oracle) (expectedGenesis : Option Hash256) (root : GenerationRoot) :
    RootOp → GenerationRoot
  | .stage id g => { root with staging := root.staging.insert id g }
  | .publish id m => finalState (publishStagingGeneration O id m) root
  | .start snapshots => finalState (openNode O expectedGenesis snapshots) root
  | .fallBack => finalState (recoverGenerationState O) root
  | .write id g => if root.generations.contains id then root.storeGeneration id g else root
  | .prune => root.pruneOldGenerations

theorem RootOp.moves {op : RootOp} (hop : op ≠ .prune) (root : GenerationRoot) :
    Moves root (op.run O expectedGenesis root) := by
  cases op with
  | stage id g => exact moves_staging root _
  | publish id m => exact (keeps_publishStagingGeneration id m root).final
  | start snapshots => exact (keeps_openNode snapshots root).final
  | fallBack => exact (keeps_recoverGenerationState root).final
  | write id g =>
    show Moves root (if root.generations.contains id then root.storeGeneration id g else root)
    split
    · exact moves_storeGeneration root id g
    · exact .refl root
  | prune => exact absurd rfl hop

/-- Fewer than two directories have a higher identifier than the active generation. -/
def SafeToPrune (root : GenerationRoot) : Prop := ∀ id, root.active = some id → root.above id < 2

theorem activePresent_prune (h : root.ActivePresent) :
    root.pruneOldGenerations.ActivePresent ↔ root.SafeToPrune := by
  have hactive : root.pruneOldGenerations.active = root.active := rfl
  constructor
  · intro hpresent id hid
    exact (has_prune.mp (hpresent id (hactive.trans hid))).2
  · intro hsafe id hid
    exact has_prune.mpr ⟨h id (hactive ▸ hid), hsafe id (hactive ▸ hid)⟩

/-- A run whose prunings are safe. -/
inductive SafeRun (O : Oracle) (expectedGenesis : Option Hash256) (start : GenerationRoot) :
    GenerationRoot → Prop where
  | refl : SafeRun O expectedGenesis start start
  | step {root : GenerationRoot} (op : RootOp) (hrun : SafeRun O expectedGenesis start root)
      (hsafe : op = .prune → root.SafeToPrune) :
      SafeRun O expectedGenesis start (op.run O expectedGenesis root)

/-- **Along such a run the directory of the active generation is always there.** -/
theorem SafeRun.activePresent {start : GenerationRoot} (hstart : start.ActivePresent)
    (h : SafeRun O expectedGenesis start root) : root.ActivePresent := by
  induction h with
  | refl => exact hstart
  | step op _ hsafe ih =>
    by_cases hop : op = .prune
    · subst hop
      exact (activePresent_prune ih).mpr (hsafe rfl)
    · exact (RootOp.moves hop _).activePresent ih

/-- **Pruning keeps the active generation exactly if it is one of the two latest.** After any run of
publications, starts, fallbacks and restorations, over generations in any state, from a directory
whose pointer names a generation. -/
theorem prune_keeps_active_iff {start : GenerationRoot} (hstart : start.ActivePresent)
    (hrun : SafeRun O expectedGenesis start root) :
    root.pruneOldGenerations.ActivePresent ↔ root.SafeToPrune :=
  activePresent_prune (hrun.activePresent hstart)

/-! ## A fallback that is removed -/

def markedChain : Generation := Generation.publishedChain.failGeneration

def fallbackRoot : GenerationRoot where
  active := some 3
  generations := (((∅ : Map U64 Generation).insert 1 Generation.publishedChain).insert 2
    markedChain).insert 3 markedChain

/-- What the start of a node on it returns, the pointer it leaves, and whether the directory of that
generation is there before and after pruning. -/
def startThenPrune : Option U64 × Option U64 × Bool × Bool :=
  match openNode nonceOracle none [] fallbackRoot with
  | .error _ _ => (none, none, false, false)
  | .ok chosen root => (chosen, root.active, (root.generations[(1 : U64)]?).isSome,
      (root.pruneOldGenerations.generations[(1 : U64)]?).isSome)

theorem startThenPrune_eq : startThenPrune = (some 1, some 1, true, false) := by decide +kernel

theorem of_startThenPrune (h : startThenPrune = (some 1, some 1, true, false)) :
    ∃ root, openNode nonceOracle none [] fallbackRoot = .ok (some 1) root ∧
      root.active = some 1 ∧ root.Has 1 ∧ ¬root.pruneOldGenerations.Has 1 := by
  unfold startThenPrune at h
  split at h
  · cases h
  · next chosen root hopen =>
    simp only [Prod.mk.injEq] at h
    obtain ⟨rfl, hactive, hhas, hgone⟩ := h
    exact ⟨root, hopen, hactive, hhas, fun hkept => Bool.false_ne_true (hgone.symm.trans hkept)⟩

theorem fallbackRoot_activePresent : fallbackRoot.ActivePresent := by
  intro id hid
  obtain rfl : 3 = id := Option.some.inj hid
  unfold Has fallbackRoot
  rw [Map.getElem?_insert_eq, if_pos rfl]
  rfl

/-- **The generation a node has fallen back to is removed**: the two later ones do not open, the
first one is served and made active, and pruning removes its directory. -/
theorem prune_deletes_fallback :
    fallbackRoot.ActivePresent ∧
    ∃ root, openNode nonceOracle none [] fallbackRoot = .ok (some 1) root ∧
      SafeRun nonceOracle none fallbackRoot root ∧ root.active = some 1 ∧ root.Has 1 ∧
      ¬root.pruneOldGenerations.Has 1 := by
  refine ⟨fallbackRoot_activePresent, ?_⟩
  obtain ⟨root, hopen, hactive, hhas, hgone⟩ := of_startThenPrune startThenPrune_eq
  refine ⟨root, hopen, ?_, hactive, hhas, hgone⟩
  have hrun : SafeRun nonceOracle none fallbackRoot
      ((RootOp.start []).run nonceOracle none fallbackRoot) :=
    .step (.start []) .refl fun h => nomatch h
  have hroot : (RootOp.start []).run nonceOracle none fallbackRoot = root := by
    show finalState (openNode nonceOracle none []) fallbackRoot = root
    unfold finalState
    rw [hopen]
  rwa [hroot] at hrun

theorem prune_keeps_active_fallbackRoot :
    fallbackRoot.ActivePresent ∧ SafeRun nonceOracle none fallbackRoot fallbackRoot ∧
      (fallbackRoot.pruneOldGenerations.ActivePresent ↔ fallbackRoot.SafeToPrune) :=
  ⟨fallbackRoot_activePresent, .refl, prune_keeps_active_iff fallbackRoot_activePresent
    (SafeRun.refl : SafeRun nonceOracle none fallbackRoot fallbackRoot)⟩

end GenerationRoot

end Blq
