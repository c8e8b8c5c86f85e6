import Mathlib.Tactic

/-!
# Successful runs of fallible code

What the success of a sequence of fallible steps says about the steps, for `Except` and
for `EStateM`, whose state survives an error. Tagged for `simp`, so that unfolding a
function and simplifying turns its success into the conjunction of its checks.
-/

namespace Blq.Result

section Except

variable {ε ε' α β : Type} {x : Except ε α} {f : α → Except ε β} {l : List α} {a : α} {b : β} {e : ε}

@[simp] theorem bind_eq_ok : (x >>= f) = .ok b ↔ ∃ a, x = .ok a ∧ f a = .ok b := by
  cases x with
  | error e => simp [bind, Except.bind]
  | ok a => simp [bind, Except.bind]

@[simp] theorem pure_eq_ok {b : α} : (pure a : Except ε α) = .ok b ↔ a = b := by
  simp [pure, Except.pure]

@[simp] theorem throw_ne_ok : (throw e : Except ε α) ≠ .ok a := by
  simp [throw, throwThe, MonadExceptOf.throw]

theorem exists_ok_of_isOk (h : x.isOk = true) : ∃ a, x = .ok a := by
  cases x with
  | error e => exact absurd h Bool.false_ne_true
  | ok a => exact ⟨a, rfl⟩

theorem toOption_eq_some : x.toOption = some a ↔ x = .ok a := by
  cases x <;> simp [Except.toOption]

@[simp] theorem ok_bind : (Except.ok a >>= f) = f a := rfl

@[simp] theorem throw_bind : (throw e >>= f : Except ε β) = throw e := rfl

@[simp] theorem ite_throw_eq_ok {p : Prop} [Decidable p] :
    (if p then throw e else x) = .ok a ↔ ¬p ∧ x = .ok a := by
  by_cases hp : p <;> simp [hp]

@[simp] theorem ite_else_throw_eq_ok {p : Prop} [Decidable p] :
    (if p then x else throw e) = .ok a ↔ p ∧ x = .ok a := by
  by_cases hp : p <;> simp [hp]

@[simp] theorem mapError_eq_ok {f : ε → ε'} : x.mapError f = .ok a ↔ x = .ok a := by
  cases x <;> simp [Except.mapError]

theorem forall_of_foldlM_eq_ok {f : β → α → Except ε β} {p : α → Prop}
    (hf : ∀ b a b', f b a = .ok b' → p a) {b' : β}
    (h : l.foldlM f b = .ok b') : ∀ a ∈ l, p a := by
  induction l generalizing b with
  | nil => simp
  | cons a l ih =>
    rw [List.foldlM_cons, bind_eq_ok] at h
    obtain ⟨b₁, hstep, hrest⟩ := h
    exact List.forall_mem_cons.mpr ⟨hf b a b₁ hstep, ih hrest⟩

theorem foldlM_rec {f : β → α → Except ε β} {P : β → Prop} {b' : β} (h : l.foldlM f b = .ok b')
    (hb : P b) (hf : ∀ a ∈ l, ∀ b b', f b a = .ok b' → P b → P b') : P b' := by
  induction l generalizing b with
  | nil => exact pure_eq_ok.mp h ▸ hb
  | cons a l ih =>
    rw [List.foldlM_cons, bind_eq_ok] at h
    obtain ⟨b₁, hstep, hrest⟩ := h
    obtain ⟨ha, hl⟩ := List.forall_mem_cons.mp hf
    exact ih hrest (ha b b₁ hstep hb) hl

theorem exists_foldlM_eq_ok {f : β → α → Except ε β} (P : List α → β → Prop)
    (hf : ∀ a ∈ l, ∀ done b, P done b → ∃ b', f b a = .ok b' ∧ P (a :: done) b') (hb : P [] b) :
    ∃ b', l.foldlM f b = .ok b' ∧ P l.reverse b' := by
  suffices hloop : ∀ done b, P done b → ∃ b', l.foldlM f b = .ok b' ∧ P (l.reverse ++ done) b' by
    simpa using hloop [] b hb
  clear hb
  induction l with
  | nil => exact fun done b hb => ⟨b, rfl, hb⟩
  | cons a l ih =>
    intro done b hb
    obtain ⟨ha, hl⟩ := List.forall_mem_cons.mp hf
    obtain ⟨b₁, hrun, hb₁⟩ := ha done b hb
    obtain ⟨b₂, hrest, hb₂⟩ := ih hl _ b₁ hb₁
    refine ⟨b₂, by rw [List.foldlM_cons, hrun, ok_bind, hrest], ?_⟩
    rwa [List.reverse_cons, List.append_assoc]

theorem exists_mapM_eq_ok (h : ∀ a ∈ l, ∃ b, f a = .ok b) : ∃ bs, l.mapM f = .ok bs := by
  induction l with
  | nil => exact ⟨[], rfl⟩
  | cons a l ih =>
    obtain ⟨b, hb⟩ := h a (by simp)
    obtain ⟨bs, hbs⟩ := ih fun a' ha' => h a' (List.mem_cons_of_mem a ha')
    rw [List.mapM_cons, hb, hbs]
    exact ⟨b :: bs, rfl⟩

theorem map_of_mapM_eq_ok {bs : List β} (h : l.mapM f = .ok bs) : l.map f = bs.map .ok := by
  induction l generalizing bs with
  | nil =>
    obtain rfl := pure_eq_ok.mp h
    rfl
  | cons a l ih =>
    simp only [List.mapM_cons, bind_eq_ok, pure_eq_ok] at h
    obtain ⟨b, hb, bs, hbs, rfl⟩ := h
    rw [List.map_cons, List.map_cons, hb, ih hbs]

theorem forall_of_mapM_eq_ok {bs : List β} (h : l.mapM f = .ok bs) :
    ∀ a ∈ l, ∃ b ∈ bs, f a = .ok b := by
  intro a ha
  obtain ⟨b, hb, hab⟩ := List.mem_map.mp (map_of_mapM_eq_ok h ▸ List.mem_map_of_mem ha)
  exact ⟨b, hb, hab.symm⟩

theorem mem_of_mapM_eq_ok {bs : List β} (h : l.mapM f = .ok bs) :
    ∀ b ∈ bs, ∃ a ∈ l, f a = .ok b := fun _ hb =>
  List.mem_map.mp (map_of_mapM_eq_ok h ▸ List.mem_map_of_mem hb)

theorem forM_eq_ok {f : α → Except ε Unit} : l.forM f = .ok () ↔ ∀ a ∈ l, f a = .ok () := by
  induction l with
  | nil => exact ⟨fun _ => by simp, fun _ => rfl⟩
  | cons a l ih =>
    change (f a >>= fun _ => l.forM f) = .ok () ↔ _
    rw [bind_eq_ok, List.forall_mem_cons, ← ih]
    exact ⟨fun ⟨_, hstep, hrest⟩ => ⟨hstep, hrest⟩, fun ⟨hstep, hrest⟩ => ⟨(), hstep, hrest⟩⟩

end Except

section Option

variable {α β : Type} {f : α → Option β} {l : List α}

theorem mapM_eq_none_iff : l.mapM f = none ↔ ∃ a ∈ l, f a = none := by
  induction l with
  | nil => simp
  | cons a l ih =>
    rw [List.mapM_cons, List.exists_mem_cons_iff, ← ih]
    cases f a with
    | none => simp
    | some b => cases l.mapM f <;> simp

theorem mapM_eq_some_iff {bs : List β} : l.mapM f = some bs ↔ l.map f = bs.map some := by
  induction l generalizing bs with
  | nil => cases bs <;> simp
  | cons a l ih => cases bs <;> simp [Option.bind_eq_some_iff, ih]

theorem mem_of_mapM_eq_some {bs : List β} (h : l.mapM f = some bs) {b : β} :
    b ∈ bs ↔ ∃ a ∈ l, f a = some b := by
  rw [← List.mem_map, mapM_eq_some_iff.mp h, List.mem_map_of_injective (Option.some_injective β)]

/-- Two runs through one list that fail at the same entries: they end alike if there is such an
entry, and otherwise if they agree at every one. -/
theorem mapM_eq_mapM_iff {g : α → Option β} (hnone : ∀ a ∈ l, f a = none ↔ g a = none) :
    l.mapM f = l.mapM g ↔ (∃ a ∈ l, f a = none) ∨ ∀ a ∈ l, f a = g a := by
  by_cases hfail : ∃ a ∈ l, f a = none
  · have hfail' : ∃ a ∈ l, g a = none := by
      obtain ⟨a, ha, hf⟩ := hfail
      exact ⟨a, ha, (hnone a ha).mp hf⟩
    rw [mapM_eq_none_iff.mpr hfail, mapM_eq_none_iff.mpr hfail', or_iff_left_of_imp fun _ => hfail]
    exact (iff_true_left rfl).mpr hfail
  · obtain ⟨bs, hbs⟩ := Option.ne_none_iff_exists'.mp (mt mapM_eq_none_iff.mp hfail)
    rw [or_iff_right hfail, ← List.map_inj_left, hbs, mapM_eq_some_iff.mp hbs, eq_comm,
      mapM_eq_some_iff, eq_comm]

end Option

section EStateM

variable {ε σ α β : Type} {x : EStateM ε σ α} {f : α → EStateM ε σ β} {l : List α} {s s' : σ} {a : α}
  {b : β} {e : ε}

/-- A computation that only reads, inside one with a state. -/
def runExcept (x : Except ε α) : EStateM ε σ α := fun s =>
  match x with
  | .ok a => .ok a s
  | .error e => .error e s

/-- The outcome of a computation as a value; what it has written stays. -/
def attempt (x : EStateM ε σ α) : EStateM ε σ (Except ε α) := fun s =>
  match x s with
  | .ok a s' => .ok (.ok a) s'
  | .error e s' => .ok (.error e) s'

/-- A computation whose error is dropped. -/
def ignoreError (x : EStateM ε σ Unit) : EStateM ε σ Unit := do
  let _ ← attempt x

theorem run_bind_eq_ok :
    (x >>= f).run s = .ok b s' ↔ ∃ a s₁, x.run s = .ok a s₁ ∧ (f a).run s₁ = .ok b s' := by
  show EStateM.bind x f s = _ ↔ ∃ a s₁, x s = _ ∧ f a s₁ = _
  unfold EStateM.bind
  cases hx : x s with
  | ok a s₁ => simp
  | error e s₁ => simp

theorem bind_apply_of_ok (h : x s = .ok a s') : (x >>= f) s = f a s' := by
  show EStateM.bind x f s = _
  unfold EStateM.bind
  rw [h]

theorem bind_apply_of_error (h : x s = .error e s') : (x >>= f) s = .error e s' := by
  show EStateM.bind x f s = _
  unfold EStateM.bind
  rw [h]

theorem get_bind_apply {f : σ → EStateM ε σ α} : (get >>= f) s = f s s := rfl

theorem runExcept_apply_of_ok {x : Except ε α} (h : x = .ok a) :
    (runExcept x : EStateM ε σ α) s = .ok a s := by
  rw [h]
  rfl

theorem runExcept_apply_of_error {x : Except ε α} (h : x = .error e) :
    (runExcept x : EStateM ε σ α) s = .error e s := by
  rw [h]
  rfl

theorem runExcept_bind_of_ok {x : Except ε α} (h : x = .ok a) : (runExcept x >>= f) s = f a s :=
  bind_apply_of_ok (runExcept_apply_of_ok h)

theorem runExcept_bind_of_error {x : Except ε α} (h : x = .error e) :
    (runExcept x >>= f) s = .error e s :=
  bind_apply_of_error (runExcept_apply_of_error h)

section Attempt

variable {g : Except ε α → EStateM ε σ β}

theorem attempt_bind_of_error (h : x s = .error e s') : (attempt x >>= g) s = g (.error e) s' := by
  refine bind_apply_of_ok ?_
  unfold attempt
  rw [h]

theorem attempt_bind_of_ok (h : x s = .ok a s') : (attempt x >>= g) s = g (.ok a) s' := by
  refine bind_apply_of_ok ?_
  unfold attempt
  rw [h]

end Attempt

theorem run_pure_eq_ok {b : α} :
    (pure a : EStateM ε σ α).run s = .ok b s' ↔ a = b ∧ s = s' := by
  simp [pure, EStateM.pure, EStateM.run]

theorem run_throw_ne_ok : (throw e : EStateM ε σ α).run s ≠ .ok a s' := by
  show (EStateM.Result.error e s : EStateM.Result ε σ α) ≠ .ok a s'
  simp

theorem run_ite_throw_eq_ok {p : Prop} [Decidable p] {f : β → EStateM ε σ α} :
    (if p then throw e >>= f else x).run s = .ok a s' ↔ ¬p ∧ x.run s = .ok a s' := by
  by_cases hp : p
  · rw [if_pos hp]
    refine ⟨fun h => ?_, fun h => absurd hp h.1⟩
    obtain ⟨b, s₁, hb, -⟩ := run_bind_eq_ok.mp h
    exact absurd hb run_throw_ne_ok
  · rw [if_neg hp]
    exact ⟨fun h => ⟨hp, h⟩, fun h => h.2⟩

theorem run_get_eq_ok {a : σ} : (get : EStateM ε σ σ).run s = .ok a s' ↔ s = a ∧ s = s' := by
  show (EStateM.Result.ok s s : EStateM.Result ε σ σ) = .ok a s' ↔ _
  simp

theorem run_modify_eq_ok {f : σ → σ} {u : PUnit} :
    (modify f : EStateM ε σ PUnit).run s = .ok u s' ↔ f s = s' := by
  show (EStateM.Result.ok ⟨⟩ (f s) : EStateM.Result ε σ PUnit) = .ok u s' ↔ _
  simp

theorem run_runExcept_eq_ok {x : Except ε α} :
    (runExcept x : EStateM ε σ α).run s = .ok a s' ↔ x = .ok a ∧ s = s' := by
  unfold runExcept
  cases x <;> simp [EStateM.run]

theorem run_forM_eq_ok {f : α → EStateM ε σ PUnit} {g : α → σ → σ} {p : α → Prop}
    (h : ∀ a s s', (f a).run s = .ok ⟨⟩ s' → p a ∧ g a s = s')
    (hl : (l.forM f).run s = .ok ⟨⟩ s') : (∀ a ∈ l, p a) ∧ l.foldl (fun s a => g a s) s = s' := by
  induction l generalizing s with
  | nil =>
    obtain ⟨-, rfl⟩ := run_pure_eq_ok.mp hl
    exact ⟨by simp, rfl⟩
  | cons a l ih =>
    obtain ⟨⟨⟩, s₁, ha, hrest⟩ := run_bind_eq_ok.mp hl
    obtain ⟨hp, rfl⟩ := h a s s₁ ha
    obtain ⟨hall, hfold⟩ := ih hrest
    exact ⟨List.forall_mem_cons.mpr ⟨hp, hall⟩, hfold⟩

theorem exists_run_forM {f : α → EStateM ε σ PUnit}
    (h : ∀ a ∈ l, ∀ s, ∃ s', (f a).run s = .ok ⟨⟩ s') (s : σ) :
    ∃ s', (l.forM f).run s = .ok ⟨⟩ s' := by
  induction l generalizing s with
  | nil => exact ⟨s, rfl⟩
  | cons a l ih =>
    obtain ⟨s₁, hs₁⟩ := h a (by simp) s
    obtain ⟨s₂, hs₂⟩ := ih (fun b hb => h b (List.mem_cons_of_mem a hb)) s₁
    exact ⟨s₂, run_bind_eq_ok.mpr ⟨⟨⟩, s₁, hs₁, hs₂⟩⟩

theorem forall_of_run_forM_eq_ok {f : α → EStateM ε σ PUnit}
    (h : l.forM f s = .ok ⟨⟩ s') : ∀ a ∈ l, ∃ s₁ s₂, f a s₁ = .ok ⟨⟩ s₂ := by
  induction l generalizing s with
  | nil => simp
  | cons a l ih =>
    obtain ⟨⟨⟩, s₁, ha, hrest⟩ := run_bind_eq_ok.mp h
    exact List.forall_mem_cons.mpr ⟨⟨s, s₁, ha⟩, ih hrest⟩

end EStateM

end Blq.Result
