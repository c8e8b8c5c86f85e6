import Blq.Spec.Filters

/-!
# Requests on the table of filters

What each request does to the table.

* `SameFilters`: every filter that is still there is of the same kind and at the same height.
* `changes_cases`: **a poll reports what lies above the height of the filter and moves it to the tip**,
  or it leaves every filter where it is.
* `install_cases`: a new filter starts at the tip.
-/

namespace Blq

open Word Result

variable {filterId : U64}

namespace RpcFilters

/-- Filters may have gone or have been looked at, no more. -/
def SameFilters (table table' : RpcFilters) : Prop :=
  ∀ (filterId : U64) (filter' : RpcFilter), table'.filters[filterId]? = some filter' →
    ∃ filter : RpcFilter, table.filters[filterId]? = some filter ∧ filter'.kind = filter.kind ∧
      filter'.lastBlock = filter.lastBlock

variable {table table' table'' : RpcFilters}

theorem SameFilters.refl (table : RpcFilters) : SameFilters table table :=
  fun _ filter' h => ⟨filter', h, rfl, rfl⟩

theorem SameFilters.trans (h : SameFilters table table') (h' : SameFilters table' table'') :
    SameFilters table table'' := by
  intro filterId filter'' hfilter''
  obtain ⟨filter', hfilter', hkind', hlast'⟩ := h' filterId filter'' hfilter''
  obtain ⟨filter, hfilter, hkind, hlast⟩ := h filterId filter' hfilter'
  exact ⟨filter, hfilter, hkind'.trans hkind, hlast'.trans hlast⟩

theorem getElem?_pruneExpired {now : U64} {filter : RpcFilter}
    (h : (table.pruneExpired now).filters[filterId]? = some filter) :
    table.filters[filterId]? = some filter := by
  have hfilter : (table.filters.filter fun _ filter => isLive now filter)[filterId]? = some filter := h
  rw [Std.ExtTreeMap.getElem?_filter] at hfilter
  exact (Option.pfilter_eq_some_iff.mp hfilter).1

theorem sameFilters_pruneExpired (table : RpcFilters) (now : U64) :
    SameFilters table (table.pruneExpired now) :=
  fun _ filter h => ⟨filter, getElem?_pruneExpired h, rfl, rfl⟩

theorem getElem?_update (table : RpcFilters) (filterId filterId' : U64) (f : RpcFilter → RpcFilter) :
    (table.update filterId f).filters[filterId']? =
      if filterId = filterId' then (table.filters[filterId]?).map f else table.filters[filterId']? := by
  unfold update
  cases hentry : table.filters[filterId]? with
  | none =>
    split_ifs with heq
    · rw [← heq, hentry]
      rfl
    · rfl
  | some filter =>
    show (table.filters.insert filterId (f filter))[filterId']? = _
    rw [Map.getElem?_insert_eq]
    rfl

theorem sameFilters_touch (table : RpcFilters) (filterId now : U64) :
    SameFilters table (table.update filterId fun filter => { filter with lastAccessedAt := now }) := by
  intro filterId' filter' h
  rw [getElem?_update] at h
  split_ifs at h with heq
  · obtain ⟨filter, hfilter, rfl⟩ := Option.map_eq_some_iff.mp h
    exact ⟨filter, heq ▸ hfilter, rfl, rfl⟩
  · exact ⟨filter', h, rfl, rfl⟩

theorem sameFilters_erase (table : RpcFilters) (filterId : U64) :
    SameFilters table { table with filters := table.filters.erase filterId } :=
  Map.forall_erase (SameFilters.refl table)

end RpcFilters

open RpcFilters

variable {O : Oracle} {peers : BodyPeers} {rows : Rows} {mempool : Mempool} {now : U64}
  {parsed : JsonValue} {table : RpcFilters}

theorem rpcFilterById_apply (now filterId : U64) (table : RpcFilters) :
    rpcFilterById now filterId table = match (table.pruneExpired now).filters[filterId]? with
      | none => .error (.server "filter not found or expired") (table.pruneExpired now)
      | some filter => .ok { filter with lastAccessedAt := now }
          ((table.pruneExpired now).update filterId fun filter => { filter with lastAccessedAt := now }) := by
  show (match (table.pruneExpired now).filters[filterId]? with
    | none => _
    | some filter => _ : FilterM RpcFilter) (table.pruneExpired now) = _
  cases (table.pruneExpired now).filters[filterId]? <;> rfl

theorem rpcFilterById_error {e : RpcError} {table' : RpcFilters}
    (h : rpcFilterById now filterId table = .error e table') :
    SameFilters table table' ∧ table'.filters[filterId]? = none := by
  rw [rpcFilterById_apply] at h
  cases hentry : (table.pruneExpired now).filters[filterId]? with
  | none =>
    rw [hentry] at h
    obtain ⟨-, rfl⟩ := EStateM.Result.error.inj h
    exact ⟨sameFilters_pruneExpired table now, hentry⟩
  | some filter =>
    rw [hentry] at h
    exact absurd h (by simp)

theorem rpcFilterById_ok {filter : RpcFilter} {table' : RpcFilters}
    (h : rpcFilterById now filterId table = .ok filter table') :
    SameFilters table table' ∧ ∃ stored, table.filters[filterId]? = some stored ∧
      filter = { stored with lastAccessedAt := now } ∧ table'.filters[filterId]? = some filter := by
  rw [rpcFilterById_apply] at h
  cases hentry : (table.pruneExpired now).filters[filterId]? with
  | none =>
    rw [hentry] at h
    exact absurd h (by simp)
  | some stored =>
    rw [hentry] at h
    obtain ⟨rfl, rfl⟩ := EStateM.Result.ok.inj h
    refine ⟨(sameFilters_pruneExpired table now).trans (sameFilters_touch _ filterId now), stored,
      getElem?_pruneExpired hentry, rfl, ?_⟩
    rw [getElem?_update, if_pos rfl, hentry]
    rfl

/-! ## Polls -/

/-- The answer of a request that is not refused. -/
def answerOf {α : Type} : EStateM.Result RpcError RpcFilters α → Option α
  | .ok answer _ => some answer
  | .error _ _ => none

/-- **What a poll is answered with.** -/
theorem answerOf_getFilterChanges {latest : U64} (hid : filterIdFromParams parsed = .ok filterId)
    (hlatest : currentBlockNumber rows = .ok latest) :
    answerOf (rpcGetFilterChanges O peers rows mempool now parsed table) =
      ((table.pruneExpired now).filters[filterId]?).bind fun filter =>
        if latest.toNat < (saturatingAdd filter.lastBlock 1).toNat then some (.arr [])
        else (filterChanges O peers rows mempool filter.kind (saturatingAdd filter.lastBlock 1)
          latest).toOption := by
  have hparsed : orInvalid "" (filterIdFromParams parsed) = .ok filterId := by rw [hid]; rfl
  unfold rpcGetFilterChanges
  rw [runExcept_bind_of_ok hparsed, runExcept_bind_of_ok hlatest]
  have hlookup := rpcFilterById_apply now filterId table
  cases hentry : (table.pruneExpired now).filters[filterId]? with
  | none =>
    rw [hentry] at hlookup
    rw [bind_apply_of_error hlookup]
    rfl
  | some filter =>
    rw [hentry] at hlookup
    rw [bind_apply_of_ok hlookup, Option.bind_some]
    dsimp only
    split_ifs
    · rfl
    · cases filterChanges O peers rows mempool filter.kind (saturatingAdd filter.lastBlock 1) latest <;> rfl

theorem answerOf_getFilterLogs {latest last accessed : U64} {filter : JsonValue}
    (hid : filterIdFromParams parsed = .ok filterId)
    (hlatest : currentBlockNumber rows = .ok latest)
    (hfilter : (table.pruneExpired now).filters[filterId]? = some ⟨.logs filter, last, accessed⟩) :
    answerOf (rpcGetFilterLogs O peers rows now parsed table) =
      (logFilterResult O peers rows filter 0 latest).toOption := by
  have hparsed : orInvalid "" (filterIdFromParams parsed) = .ok filterId := by rw [hid]; rfl
  have hlookup := rpcFilterById_apply now filterId table
  rw [hfilter] at hlookup
  unfold rpcGetFilterLogs
  rw [runExcept_bind_of_ok hparsed, bind_apply_of_ok hlookup]
  dsimp only
  rw [runExcept_bind_of_ok hlatest]
  cases logFilterResult O peers rows filter 0 latest <;> rfl

/-- What a poll of a filter can do. -/
inductive ChangesOutcome (O : Oracle) (peers : BodyPeers) (rows : Rows) (mempool : Mempool)
    (table : RpcFilters) (filterId : U64) : EStateM.Result RpcError RpcFilters JsonValue → Prop
  | refused (e : RpcError) (table' : RpcFilters) : SameFilters table table' →
      (∀ latest filter, currentBlockNumber rows = .ok latest → table'.filters[filterId]? = some filter →
        (saturatingAdd filter.lastBlock 1).toNat ≤ latest.toNat ∧ ∃ text, filterChanges O peers rows mempool
          filter.kind (saturatingAdd filter.lastBlock 1) latest = .error text) →
      ChangesOutcome O peers rows mempool table filterId (.error e table')
  | nothing (latest : U64) (filter : RpcFilter) (table' : RpcFilters) : SameFilters table table' →
      currentBlockNumber rows = .ok latest → table'.filters[filterId]? = some filter →
      latest.toNat < (saturatingAdd filter.lastBlock 1).toNat →
      ChangesOutcome O peers rows mempool table filterId (.ok (.arr []) table')
  | reported (latest : U64) (filter : RpcFilter) (answer : JsonValue) (table' : RpcFilters) :
      currentBlockNumber rows = .ok latest → table.filters[filterId]? = some filter →
      (saturatingAdd filter.lastBlock 1).toNat ≤ latest.toNat →
      filterChanges O peers rows mempool filter.kind (saturatingAdd filter.lastBlock 1) latest =
        .ok answer →
      (∀ filter', table'.filters[filterId]? = some filter' →
        filter'.kind = filter.kind ∧ filter'.lastBlock = latest) →
      (∀ (other : U64) (filter' : RpcFilter), other ≠ filterId → table'.filters[other]? = some filter' →
        ∃ stored : RpcFilter, table.filters[other]? = some stored ∧ filter'.kind = stored.kind ∧
          filter'.lastBlock = stored.lastBlock) →
      ChangesOutcome O peers rows mempool table filterId (.ok answer table')

/-- **A poll reports what is above the height of the filter and moves it to the tip**, or it moves
nothing. -/
theorem changes_cases (hid : filterIdFromParams parsed = .ok filterId) :
    ChangesOutcome O peers rows mempool table filterId
      (rpcGetFilterChanges O peers rows mempool now parsed table) := by
  unfold rpcGetFilterChanges
  have hparsed : orInvalid "" (filterIdFromParams parsed) = .ok filterId := by rw [hid]; rfl
  rw [runExcept_bind_of_ok hparsed]
  cases hlatest : currentBlockNumber rows with
  | error e =>
    rw [runExcept_bind_of_error rfl]
    exact .refused e table (.refl table) fun latest _ h => absurd (hlatest.symm.trans h) (by simp)
  | ok latest =>
    rw [runExcept_bind_of_ok rfl]
    cases hlookup : rpcFilterById now filterId table with
    | error e table' =>
      rw [bind_apply_of_error hlookup]
      obtain ⟨hsame, hnone⟩ := rpcFilterById_error hlookup
      exact .refused e table' hsame fun _ _ _ hentry => absurd (hnone.symm.trans hentry) (by simp)
    | ok filter table' =>
      rw [bind_apply_of_ok hlookup]
      obtain ⟨hsame, stored, hstored, rfl, hentry⟩ := rpcFilterById_ok hlookup
      dsimp only
      split_ifs with habove
      · exact .nothing latest _ table' hsame hlatest hentry habove
      · cases hresult : filterChanges O peers rows mempool stored.kind (saturatingAdd stored.lastBlock 1)
          latest with
        | error text =>
          have hfail : (Except.error text : Except String JsonValue).mapError RpcError.server =
            .error (.server text) := rfl
          rw [runExcept_bind_of_error hfail]
          refine .refused _ table' hsame fun latest' filter' hlatest' hentry' => ?_
          obtain rfl := Except.ok.inj (hlatest.symm.trans hlatest')
          obtain rfl := Option.some.inj (hentry.symm.trans hentry')
          exact ⟨Nat.not_lt.mp habove, text, hresult⟩
        | ok answer =>
          have hanswer : (Except.ok answer : Except String JsonValue).mapError RpcError.server =
            .ok answer := rfl
          rw [runExcept_bind_of_ok hanswer]
          refine .reported latest stored answer _ hlatest hstored (by omega) hresult
            (fun filter' hfilter' => ?_) fun other filter' hother hfilter' => ?_
          · rw [getElem?_update, if_pos rfl] at hfilter'
            obtain ⟨moved, hmoved, rfl⟩ := Option.map_eq_some_iff.mp hfilter'
            obtain rfl := Option.some.inj ((getElem?_pruneExpired hmoved).symm.trans hentry)
            exact ⟨rfl, rfl⟩
          · rw [getElem?_update, if_neg (Ne.symm hother)] at hfilter'
            exact hsame other filter' (getElem?_pruneExpired hfilter')

/-! ## Other requests -/

/-- What a request for a new filter can do. -/
inductive InstallOutcome (rows : Rows) (table : RpcFilters) (kind : RpcFilterKind) :
    EStateM.Result RpcError RpcFilters JsonValue → Prop
  | refused (e : RpcError) (table' : RpcFilters) : SameFilters table table' →
      InstallOutcome rows table kind (.error e table')
  | installed (latest now : U64) (table' : RpcFilters) : currentBlockNumber rows = .ok latest →
      table'.filters[table.nextId]? = some ⟨kind, latest, now⟩ →
      (∀ (other : U64) (filter' : RpcFilter), other ≠ table.nextId → table'.filters[other]? = some filter' →
        table.filters[other]? = some filter') →
      InstallOutcome rows table kind (.ok (quantity table.nextId.toNat) table')

/-- **A new filter starts at the tip.** -/
theorem install_cases (rows : Rows) (table : RpcFilters) (now : U64) (kind : RpcFilterKind) :
    InstallOutcome rows table kind ((do
      let latest ← runExcept (currentBlockNumber rows)
      newRpcFilter now kind latest : FilterM JsonValue) table) := by
  cases hlatest : currentBlockNumber rows with
  | error e =>
    rw [runExcept_bind_of_error rfl]
    exact .refused e table (.refl table)
  | ok latest =>
    rw [runExcept_bind_of_ok rfl]
    show InstallOutcome rows table kind
      ((if (table.pruneExpired now).filters.size ≥ maxRpcFilters then _ else _ : FilterM JsonValue)
        (table.pruneExpired now))
    split_ifs with hfull
    · exact .refused _ _ (sameFilters_pruneExpired table now)
    · refine .installed latest now _ hlatest ?_ fun other filter' hother hfilter' => ?_
      · show ((table.pruneExpired now).filters.insert table.nextId ⟨kind, latest, now⟩)[table.nextId]? = _
        rw [Map.getElem?_insert_eq, if_pos rfl]
      · have hentry : ((table.pruneExpired now).filters.insert table.nextId ⟨kind, latest, now⟩)[other]? =
            some filter' := hfilter'
        rw [Map.getElem?_insert_eq, if_neg (Ne.symm hother)] at hentry
        exact getElem?_pruneExpired hentry

theorem changes_of_error {e : String} (hid : filterIdFromParams parsed = .error e) :
    rpcGetFilterChanges O peers rows mempool now parsed table = .error (.invalidParams e) table := by
  unfold rpcGetFilterChanges
  have hparsed : orInvalid "" (filterIdFromParams parsed) = .error (.invalidParams e) := by
    rw [hid]
    show Except.error (RpcError.invalidParams ("" ++ e)) = _
    rw [String.empty_append]
  rw [runExcept_bind_of_error hparsed]

theorem sameFilters_getFilterLogs :
    SameFilters table (finalState (rpcGetFilterLogs O peers rows now parsed) table) := by
  refine Keeps.final (Q := fun _ _ => True) ?_
  unfold rpcGetFilterLogs
  refine keeps_runExcept_bind (.refl table) fun filterId _ => ?_
  have hlookup : Keeps (SameFilters table) (rpcFilterById now filterId) table fun _ _ => True := by
    unfold Keeps
    split
    next h => exact ⟨(rpcFilterById_ok h).1, trivial⟩
    next h => exact (rpcFilterById_error h).1
  refine hlookup.bind fun filter table' hsame _ => ?_
  split
  · refine keeps_runExcept_bind hsame fun latest _ => ?_
    exact keeps_runExcept hsame fun _ _ => trivial
  · exact keeps_throw hsame

theorem sameFilters_uninstallFilter :
    SameFilters table (finalState (rpcUninstallFilter now parsed) table) := by
  refine Keeps.final (Q := fun _ _ => True) ?_
  unfold rpcUninstallFilter
  refine keeps_runExcept_bind (.refl table) fun filterId _ => ?_
  refine keeps_modify_bind (keeps_get_bind (keeps_set_bind (keeps_pure ?_ trivial)))
  exact (sameFilters_pruneExpired table now).trans (sameFilters_erase _ filterId)

def firstFilterId : JsonValue := .obj [("params", .arr [.str "0x1"])]

theorem filterId_firstFilterId : filterIdFromParams firstFilterId = .ok 1 := by decide +kernel

end Blq
