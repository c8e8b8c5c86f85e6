import Blq.Proof.FilterTable
import Blq.Proof.LogRange
import Blq.Proof.RowChange

/-!
# Log filters and the query they were made from

A filter of logs is installed with the object of a query. Whenever it is evaluated the range of that
object is written over: with the whole chain for all its logs, with the heights above the last poll for
its changes.

* `Readable`: the bodies of a list of heights are here or with peers, of which few are asked.
* `getLogs_eq_ok`: a query is answered if its heights are resolved and readable.
* `filter_logs_iff`: **all logs of a filter are those of its query, and its changes lie in the range of
  the query**, exactly if the rest of the chain has no matching log, or both requests are refused.
* `filter_ignores_range`: a filter for the first block reports the log of the second.
-/

namespace Blq

open Word Result

section

variable (O : Oracle) (peers : BodyPeers) (rows : Rows)

/-- The body at a height, from here or from a peer. -/
def loadedAt (number : U64) : Option Block := (loadRpcBlock O peers (rows.reader O) number).toOption.join

def absentAt (number : U64) : Bool := !(rows.blockByNumber number).isOk

/-- All bodies can be had, and of those that are not here no more than a query may fetch. -/
structure Readable (numbers : List U64) : Prop where
  loads : ∀ number ∈ numbers, ∃ block, loadedAt O peers rows number = some block
  few : numbers.countP (absentAt rows) ≤ maxRpcRemoteLogBlocks

end

variable {O : Oracle} {peers : BodyPeers} {rows : Rows} {every numbers : List U64} {number : U64}
  {fetched : ℕ} {blocks : List Block}

/-! ## Bodies -/

theorem loadedAt_eq_some {block : Block} : loadedAt O peers rows number = some block ↔
    loadRpcBlock O peers (rows.reader O) number = .ok (some block) := by
  unfold loadedAt
  rw [Option.join_eq_some_iff, toOption_eq_some]

theorem logBlock_eq_ok (hmem : number ∈ every) {step : Option Block × ℕ} :
    logBlock O peers (rows.reader O) every fetched number = .ok step ↔
      ∃ block, loadedAt O peers rows number = some block ∧
        step = (some block, fetched + (absentAt rows number).toNat) ∧
        (absentAt rows number = true → fetched + 1 ≤ maxRpcRemoteLogBlocks) := by
  have hcontains : every.contains number = true := by simpa using hmem
  have habsent : absentAt rows number = !((rows.reader O).blockByNumber number).isOk := rfl
  rw [habsent]
  rcases loadRpcBlock_cases O peers (rows.reader O) number with ⟨block, hbody, hload⟩ | hbody |
    ⟨e, hbody, he, hload⟩
  · have hblock : logBlock O peers (rows.reader O) every fetched number = .ok (some block, fetched) := by
      unfold logBlock
      rw [hbody]
      dsimp only
      rw [if_pos hcontains]
      rfl
    simp only [hblock, loadedAt_eq_some, hload, hbody, Except.ok.injEq, Option.some.injEq]
    constructor
    · rintro rfl
      exact ⟨block, rfl, rfl, fun h => absurd h Bool.false_ne_true⟩
    · rintro ⟨_, rfl, rfl, -⟩
      rfl
  · -- the body is fetched, if one more may be
    have hblock : logBlock O peers (rows.reader O) every fetched number = .ok step ↔
        fetched + 1 ≤ maxRpcRemoteLogBlocks ∧ ∃ block,
          loadRpcBlock O peers (rows.reader O) number = .ok (some block) ∧
            step = (some block, fetched + 1) := by
      unfold logBlock
      rw [hbody]
      dsimp only
      rw [throw_bind, ite_throw_eq_ok, gt_iff_lt, not_lt]
      refine and_congr_right fun _ => ?_
      cases loadRpcBlock O peers (rows.reader O) number with
      | error e => exact ⟨fun h => absurd h throw_ne_ok, fun ⟨block, h, _⟩ => absurd h (by simp)⟩
      | ok found =>
        cases found with
        | none => exact ⟨fun h => absurd h throw_ne_ok, fun ⟨block, h, _⟩ => absurd h (by simp)⟩
        | some block =>
          constructor
          · intro h
            exact ⟨block, rfl, (Except.ok.inj h).symm⟩
          · rintro ⟨block', h, rfl⟩
            obtain rfl := Option.some.inj (Except.ok.inj h)
            rfl
    simp only [hblock, hbody, loadedAt_eq_some]
    constructor
    · rintro ⟨hroom, block, hload, rfl⟩
      exact ⟨block, hload, rfl, fun _ => hroom⟩
    · rintro ⟨block, hload, rfl, hroom⟩
      exact ⟨hroom rfl, block, hload, rfl⟩
  · simp only [logBlock_of_failure hbody he, loadedAt_eq_some, hload]
    exact ⟨fun h => absurd h (by simp), fun ⟨block, h, _⟩ => absurd h (by simp)⟩

/-- **The bodies of the heights, if all of them can be had.** -/
theorem logBlocks_eq_ok (hevery : ∀ number ∈ numbers, number ∈ every)
    (hfetched : fetched ≤ maxRpcRemoteLogBlocks) :
    logBlocks O peers (rows.reader O) every fetched numbers = .ok blocks ↔
      (∀ number ∈ numbers, ∃ block, loadedAt O peers rows number = some block) ∧
        fetched + numbers.countP (absentAt rows) ≤ maxRpcRemoteLogBlocks ∧
        blocks = numbers.filterMap (loadedAt O peers rows) := by
  induction numbers generalizing fetched blocks with
  | nil =>
    constructor
    · intro h
      exact ⟨by simp, hfetched, (pure_eq_ok.mp h).symm⟩
    · rintro ⟨-, -, rfl⟩
      rfl
  | cons number rest ih =>
    obtain ⟨hmem, hrest⟩ := List.forall_mem_cons.mp hevery
    have hcount : (number :: rest).countP (absentAt rows) =
        (absentAt rows number).toNat + rest.countP (absentAt rows) := by
      rw [List.countP_cons]
      cases absentAt rows number <;> simp [Nat.add_comm]
    rw [logBlocks, bind_eq_ok, hcount]
    constructor
    · rintro ⟨step, hstep, hlater⟩
      obtain ⟨block, hloaded, rfl, hroom⟩ := (logBlock_eq_ok hmem).mp hstep
      obtain ⟨later, hlater, hblocks⟩ := bind_eq_ok.mp hlater
      have hnext : fetched + (absentAt rows number).toNat ≤ maxRpcRemoteLogBlocks := by
        cases hcase : absentAt rows number with
        | true => exact hroom hcase
        | false => exact hfetched
      obtain ⟨hloads, hfew, rfl⟩ := (ih hrest hnext).mp hlater
      obtain rfl := pure_eq_ok.mp hblocks
      refine ⟨List.forall_mem_cons.mpr ⟨⟨block, hloaded⟩, hloads⟩, by omega, ?_⟩
      rw [List.filterMap_cons, hloaded]
      rfl
    · rintro ⟨hloads, hfew, rfl⟩
      obtain ⟨⟨block, hloaded⟩, hloads⟩ := List.forall_mem_cons.mp hloads
      have hroom : absentAt rows number = true → fetched + 1 ≤ maxRpcRemoteLogBlocks := by
        intro habsent
        rw [habsent, Bool.toNat_true] at hfew
        omega
      refine ⟨_, (logBlock_eq_ok hmem).mpr ⟨block, hloaded, rfl, hroom⟩, bind_eq_ok.mpr
        ⟨rest.filterMap (loadedAt O peers rows), (ih hrest (by omega)).mpr ⟨hloads, by omega, rfl⟩, ?_⟩⟩
      rw [List.filterMap_cons, hloaded]
      rfl

def logsAt (O : Oracle) (peers : BodyPeers) (rows : Rows) (filter : JsonValue) (number : U64) :
    List JsonValue :=
  ((loadedAt O peers rows number).map (filteredLogs O filter)).getD []

theorem flatMap_filterMap_loadedAt (filter : JsonValue) (numbers : List U64) :
    (numbers.filterMap (loadedAt O peers rows)).flatMap (filteredLogs O filter) =
      numbers.flatMap (logsAt O peers rows filter) := by
  induction numbers with
  | nil => rfl
  | cons number rest ih =>
    rw [List.filterMap_cons, List.flatMap_cons, ← ih]
    unfold logsAt
    cases loadedAt O peers rows number <;> rfl

variable {answer : JsonValue}

/-- **A query is answered if its heights are resolved and readable.** -/
theorem getLogs_eq_ok (h : Rows.IndexedRows rows) {tip : BlockHeader}
    (htip : rows.bestHeader = .ok tip) {filter : JsonValue} :
    getLogs O peers rows filter = .ok answer ↔
      ∃ numbers, logBlockNumbers (rows.reader O) filter tip.number = .ok numbers ∧
        Readable O peers rows numbers ∧
        answer = .arr (numbers.flatMap (logsAt O peers rows filter)) := by
  rw [getLogs_eq_scanLogs h, scanLogs_eq htip]
  cases hnumbers : logBlockNumbers (rows.reader O) filter tip.number with
  | error e => exact ⟨fun h => absurd h (by simp), fun ⟨numbers, h, _⟩ => absurd h (by simp)⟩
  | ok numbers =>
    rw [ok_bind]
    have hblocks : ∀ blocks, logBlocks O peers (rows.reader O) numbers 0 numbers = .ok blocks ↔
        Readable O peers rows numbers ∧ blocks = numbers.filterMap (loadedAt O peers rows) := by
      intro blocks
      rw [logBlocks_eq_ok (fun _ hn => hn) (Nat.zero_le _), Nat.zero_add, ← and_assoc]
      exact and_congr_left' ⟨fun h => ⟨h.1, h.2⟩, fun h => ⟨h.loads, h.few⟩⟩
    constructor
    · intro hanswer
      cases hread : logBlocks O peers (rows.reader O) numbers 0 numbers with
      | error e =>
        rw [hread] at hanswer
        exact absurd hanswer (by simp [Except.map])
      | ok blocks =>
        rw [hread] at hanswer
        obtain ⟨hreadable, rfl⟩ := (hblocks blocks).mp hread
        refine ⟨numbers, rfl, hreadable, ?_⟩
        rw [← flatMap_filterMap_loadedAt]
        exact (Except.ok.inj hanswer).symm
    · rintro ⟨numbers', hsame, hreadable, rfl⟩
      obtain rfl := Except.ok.inj hsame
      rw [(hblocks _).mpr ⟨hreadable, rfl⟩, ← flatMap_filterMap_loadedAt]
      rfl

/-! ## Heights -/

theorem flatMap_middle {α β : Type} (f : α → List β) (below middle above : List α) :
    (below ++ middle ++ above).flatMap f = middle.flatMap f ↔ ∀ a ∈ below ++ above, f a = [] := by
  rw [List.flatMap_append, List.flatMap_append]
  constructor
  · intro h a ha
    have hlength := congrArg List.length h
    rw [List.length_append, List.length_append] at hlength
    rcases List.mem_append.mp ha with hbelow | habove
    · exact List.flatMap_eq_nil_iff.mp (List.eq_nil_of_length_eq_zero (by omega)) a hbelow
    · exact List.flatMap_eq_nil_iff.mp (List.eq_nil_of_length_eq_zero (by omega)) a habove
  · intro h
    have hbelow : below.flatMap f = [] :=
      List.flatMap_eq_nil_iff.mpr fun a ha => h a (List.mem_append_left _ ha)
    have habove : above.flatMap f = [] :=
      List.flatMap_eq_nil_iff.mpr fun a ha => h a (List.mem_append_right _ ha)
    rw [hbelow, habove, List.nil_append, List.append_nil]

theorem heights_split {first last latest : U64} (hordered : first.toNat ≤ last.toNat)
    (hlast : last.toNat ≤ latest.toNat) : ∃ below above,
    SledStorage.heights 0 latest = below ++ SledStorage.heights first last ++ above ∧
      ∀ number, number ∈ below ++ above ↔
        number.toNat ≤ latest.toNat ∧ number ∉ SledStorage.heights first last := by
  have hbound := latest.isLt
  refine ⟨(List.range' 0 first.toNat).map (BitVec.ofNat 64),
    (List.range' (last.toNat + 1) (latest.toNat - last.toNat)).map (BitVec.ofNat 64), ?_, fun number => ?_⟩
  · have hbelow : List.range' 0 first.toNat ++ List.range' first.toNat (last.toNat + 1 - first.toNat) =
        List.range' 0 (last.toNat + 1) := by
      have happend := @List.range'_append_1 0 first.toNat (last.toNat + 1 - first.toNat)
      rwa [Nat.zero_add, Nat.add_sub_cancel' (by omega)] at happend
    have habove : List.range' 0 (last.toNat + 1) ++
        List.range' (last.toNat + 1) (latest.toNat - last.toNat) = List.range' 0 (latest.toNat + 1) := by
      have happend := @List.range'_append_1 0 (last.toNat + 1) (latest.toNat - last.toNat)
      have hsum : last.toNat + 1 + (latest.toNat - last.toNat) = latest.toNat + 1 := by omega
      rwa [Nat.zero_add, hsum] at happend
    show (List.range' 0 (latest.toNat + 1)).map (BitVec.ofNat 64) = _
    unfold SledStorage.heights
    rw [← List.map_append, hbelow, ← List.map_append, habove]
  · have hmem : ∀ start size, start + size ≤ 2 ^ 64 →
        (number ∈ (List.range' start size).map (BitVec.ofNat 64) ↔
          start ≤ number.toNat ∧ number.toNat < start + size) := by
      intro start size hfits
      rw [List.mem_map]
      constructor
      · rintro ⟨k, hk, rfl⟩
        obtain ⟨hstart, hend⟩ := List.mem_range'_1.mp hk
        rw [toNat_ofNat_of_lt (by omega)]
        exact ⟨hstart, hend⟩
      · intro hk
        exact ⟨number.toNat, List.mem_range'_1.mpr hk, by simp⟩
    rw [List.mem_append, hmem _ _ (by omega), hmem _ _ (by omega), mem_heights]
    omega

theorem number_of_loadedAt (h : Rows.IndexedRows rows) {block : Block}
    (hloaded : loadedAt O peers rows number = some block) : block.header.number = number := by
  rcases Rows.loadRpcBlock_some (loadedAt_eq_some.mp hloaded) with hread | ⟨_, -, hnumber, -⟩
  · exact h.number_of_block hread
  · exact hnumber

theorem loadedAt_le (h : Rows.SoundRows rows) {latest : U64} (hbest : rows.getBestNumber = .ok latest)
    {block : Block} (hloaded : loadedAt O peers rows number = some block) :
    number.toNat ≤ latest.toNat := by
  rcases Rows.loadRpcBlock_some (loadedAt_eq_some.mp hloaded) with hread | ⟨header, hheader, -⟩
  · exact h.body_le (Rows.blockByNumber_eq_ok.mp hread) hbest
  · obtain ⟨best, hbest', hle⟩ := h.below number header (Rows.headerByNumber_eq_ok.mp hheader)
    obtain rfl := Except.ok.inj (hbest.symm.trans hbest')
    exact hle

/-! ## All logs of a filter -/

section

variable (O : Oracle) (peers : BodyPeers) (rows : Rows) (members : List (String × JsonValue))
  (last latest : U64)

/-- The whole chain can be asked for. -/
structure WholeReadable : Prop where
  noHash : (JsonValue.obj members).member? "blockHash" = none
  short : latest.toNat ≤ maxLogBlockRange
  readable : Readable O peers rows (SledStorage.heights 0 latest)

/-- When the whole chain has the same matching logs as the heights of the query, or neither can be
asked for. -/
inductive SameLogs : Prop
  | refused : (∀ numbers, logBlockNumbers (rows.reader O) (.obj members) latest = .ok numbers →
      ¬Readable O peers rows numbers) → ¬WholeReadable O peers rows members latest → SameLogs
  | silent (numbers : List U64) : logBlockNumbers (rows.reader O) (.obj members) latest = .ok numbers →
      Readable O peers rows numbers → WholeReadable O peers rows members latest →
      (∀ number : U64, number.toNat ≤ latest.toNat → number ∉ numbers →
        logsAt O peers rows (.obj members) number = []) → SameLogs

/-- The height is not outside the bounds that the query names. -/
def AdmitsNumber (number : U64) : Prop :=
  (∀ value, (JsonValue.obj members).member? "fromBlock" = some value →
    ∃ first, parseLogBlockTag (some value) latest = .ok first ∧ first.toNat ≤ number.toNat) ∧
  ∀ value, (JsonValue.obj members).member? "toBlock" = some value →
    ∃ last, parseLogBlockTag (some value) latest = .ok last ∧ number.toNat ≤ last.toNat

/-- The log is of a block that the query admits, by its bounds and by its hash. -/
def Admits (log : JsonValue) : Prop :=
  (∃ number : U64, log.member? "blockNumber" = some (quantity number.toNat) ∧
    AdmitsNumber members latest number) ∧
  ∀ hash, AsksHash (.obj members) hash → log.member? "blockHash" = some (hashText hash)

/-- When the heights above the last poll show a matching log only where the query admits it, or cannot
be asked for. -/
def ChangesAdmitted : Prop :=
  (JsonValue.obj members).member? "blockHash" = none →
  latest.toNat - (saturatingAdd last 1).toNat ≤ maxLogBlockRange →
  Readable O peers rows (SledStorage.heights (saturatingAdd last 1) latest) →
  ∀ number : U64, (saturatingAdd last 1).toNat ≤ number.toNat → number.toNat ≤ latest.toNat →
    logsAt O peers rows (.obj members) number ≠ [] → AdmitsNumber members latest number

end

variable {members : List (String × JsonValue)} {first last latest : U64} {tip : BlockHeader}

theorem heights_of_own {storage : ChainStorage}
    (hhash : (JsonValue.obj members).member? "blockHash" = none)
    (hnumbers : logBlockNumbers storage (.obj members) latest = .ok numbers) :
    ∃ first last : U64, first.toNat ≤ last.toNat ∧ numbers = SledStorage.heights first last := by
  unfold logBlockNumbers at hnumbers
  rw [hhash] at hnumbers
  obtain ⟨first, -, hnumbers⟩ := bind_eq_ok.mp hnumbers
  obtain ⟨last, -, hnumbers⟩ := bind_eq_ok.mp hnumbers
  dsimp only at hnumbers
  split_ifs at hnumbers with hrange
  · exact absurd hnumbers throw_ne_ok
  · exact ⟨first, last, by omega, (pure_eq_ok.mp hnumbers).symm⟩

/-- **What a filter is answered with over a range.** -/
theorem logFilterResult_eq_ok (h : Rows.IndexedRows rows) (htip : rows.bestHeader = .ok tip) :
    logFilterResult O peers rows (.obj members) first last = .ok answer ↔
      (JsonValue.obj members).member? "blockHash" = none ∧ first.toNat ≤ last.toNat ∧
        last.toNat - first.toNat ≤ maxLogBlockRange ∧
        Readable O peers rows (SledStorage.heights first last) ∧
        answer = .arr ((SledStorage.heights first last).flatMap
          (logsAt O peers rows (.obj members))) := by
  have hlogs : logsAt O peers rows (rangeFilter members first last) =
      logsAt O peers rows (.obj members) := by
    funext number
    unfold logsAt
    rw [filteredLogs_rangeFilter]
  rw [logFilterResult_eq, mapError_eq_ok, getLogs_eq_ok h htip, hlogs]
  cases hhash : (JsonValue.obj members).member? "blockHash" with
  | some value =>
    rw [logBlockNumbers_rangeFilter_hash _ hhash]
    exact ⟨fun ⟨_, h, _⟩ => absurd h (by simp), fun ⟨h, _⟩ => absurd h (by simp)⟩
  | none =>
    rw [logBlockNumbers_rangeFilter _ hhash]
    constructor
    · rintro ⟨numbers, hnumbers, hreadable, rfl⟩
      obtain ⟨hrange, hnumbers⟩ := ite_throw_eq_ok.mp hnumbers
      obtain rfl := pure_eq_ok.mp hnumbers
      exact ⟨rfl, by omega, by omega, hreadable, rfl⟩
    · rintro ⟨-, hordered, hshort, hreadable, rfl⟩
      exact ⟨_, ite_throw_eq_ok.mpr ⟨by omega, rfl⟩, hreadable, rfl⟩

theorem whole_eq_some (h : Rows.IndexedRows rows) (htip : rows.bestHeader = .ok tip) :
    (logFilterResult O peers rows (.obj members) 0 latest).toOption = some answer ↔
      WholeReadable O peers rows members latest ∧
        answer = .arr ((SledStorage.heights 0 latest).flatMap (logsAt O peers rows (.obj members))) := by
  rw [toOption_eq_some, logFilterResult_eq_ok h htip]
  have hzero : (0 : U64).toNat = 0 := rfl
  rw [hzero]
  constructor
  · rintro ⟨hhash, -, hshort, hreadable, rfl⟩
    exact ⟨⟨hhash, hshort, hreadable⟩, rfl⟩
  · rintro ⟨⟨hhash, hshort, hreadable⟩, rfl⟩
    exact ⟨hhash, Nat.zero_le _, hshort, hreadable, rfl⟩

theorem sameLogs_iff (h : Rows.SoundRows rows) (htip : rows.bestHeader = .ok tip) :
    (logFilterResult O peers rows (.obj members) 0 tip.number).toOption =
        (getLogs O peers rows (.obj members)).toOption ↔
      SameLogs O peers rows members tip.number := by
  have hbest := (Rows.bestHeader_eq_ok h.index htip).1
  -- the query is answered for the middle of the chain
  have hmiddle : ∀ numbers, WholeReadable O peers rows members tip.number →
      logBlockNumbers (rows.reader O) (.obj members) tip.number = .ok numbers →
      Readable O peers rows numbers →
      ((SledStorage.heights 0 tip.number).flatMap (logsAt O peers rows (.obj members)) =
        numbers.flatMap (logsAt O peers rows (.obj members)) ↔
        ∀ number : U64, number.toNat ≤ tip.number.toNat → number ∉ numbers →
          logsAt O peers rows (.obj members) number = []) := by
    intro numbers hwhole hnumbers hreadable
    obtain ⟨first, last, hordered, rfl⟩ := heights_of_own hwhole.noHash hnumbers
    obtain ⟨block, hlast⟩ := hreadable.loads last (mem_heights.mpr ⟨hordered, le_rfl⟩)
    obtain ⟨below, above, hsplit, houtside⟩ := heights_split hordered (loadedAt_le h hbest hlast)
    rw [hsplit, flatMap_middle]
    constructor
    · exact fun hnone number hle hout => hnone number ((houtside number).mpr ⟨hle, hout⟩)
    · intro hnone number hmem
      obtain ⟨hle, hout⟩ := (houtside number).mp hmem
      exact hnone number hle hout
  constructor
  · intro hsame
    by_cases hwhole : WholeReadable O peers rows members tip.number
    · have hanswer := (whole_eq_some h.index htip).mpr ⟨hwhole, rfl⟩
      rw [hsame, toOption_eq_some, getLogs_eq_ok h.index htip] at hanswer
      obtain ⟨numbers, hnumbers, hreadable, hlogs⟩ := hanswer
      exact .silent numbers hnumbers hreadable hwhole
        ((hmiddle numbers hwhole hnumbers hreadable).mp (JsonValue.arr.inj hlogs))
    · refine .refused (fun numbers hnumbers hreadable => hwhole ?_) hwhole
      have hanswer := toOption_eq_some.mpr
        ((getLogs_eq_ok h.index htip).mpr ⟨numbers, hnumbers, hreadable, rfl⟩)
      rw [← hsame] at hanswer
      exact ((whole_eq_some h.index htip).mp hanswer).1
  · rintro (⟨hown, hwhole⟩ | ⟨numbers, hnumbers, hreadable, hwhole, hnone⟩)
    · have hleft : (logFilterResult O peers rows (.obj members) 0 tip.number).toOption = none :=
        Option.eq_none_iff_forall_ne_some.mpr fun answer hanswer =>
          hwhole ((whole_eq_some h.index htip).mp hanswer).1
      have hright : (getLogs O peers rows (.obj members)).toOption = none := by
        refine Option.eq_none_iff_forall_ne_some.mpr fun answer hanswer => ?_
        obtain ⟨numbers, hnumbers, hreadable, -⟩ :=
          (getLogs_eq_ok h.index htip).mp (toOption_eq_some.mp hanswer)
        exact hown numbers hnumbers hreadable
      rw [hleft, hright]
    · have hleft := (whole_eq_some h.index htip).mpr ⟨hwhole, rfl⟩
      have hright := toOption_eq_some.mpr
        ((getLogs_eq_ok h.index htip).mpr ⟨numbers, hnumbers, hreadable, rfl⟩)
      rw [hleft, hright, (hmiddle numbers hwhole hnumbers hreadable).mpr hnone]

/-! ## Changes -/

theorem blockNumber_of_mem_logsAt (h : Rows.IndexedRows rows) {filter log : JsonValue}
    (hlog : log ∈ logsAt O peers rows filter number) :
    log.member? "blockNumber" = some (quantity number.toNat) := by
  unfold logsAt at hlog
  cases hloaded : loadedAt O peers rows number with
  | none =>
    rw [hloaded] at hlog
    exact absurd hlog (by simp)
  | some block =>
    rw [hloaded] at hlog
    have hmem : log ∈ filteredLogs O filter block := hlog
    rw [← number_of_loadedAt h hloaded]
    obtain ⟨⟨⟨transaction, receipt⟩, transactionIndex⟩, -, hlog⟩ := List.mem_flatMap.mp hmem
    obtain ⟨⟨entry, logIndex⟩, -, rfl⟩ := List.mem_map.mp hlog
    rfl

theorem admits_iff (h : Rows.IndexedRows rows) {log : JsonValue}
    (hhash : (JsonValue.obj members).member? "blockHash" = none)
    (hlog : log ∈ logsAt O peers rows (.obj members) number) :
    Admits members latest log ↔ AdmitsNumber members latest number := by
  have hnumber := blockNumber_of_mem_logsAt h hlog
  constructor
  · rintro ⟨⟨number', hnumber', hadmits⟩, -⟩
    have hsame := quantity_injective (Option.some.inj (hnumber.symm.trans hnumber'))
    rwa [BitVec.eq_of_toNat_eq hsame]
  · intro hadmits
    refine ⟨⟨number, hnumber, hadmits⟩, fun hash hasks => ?_⟩
    obtain ⟨text, hmember, -⟩ := hasks.named
    exact absurd (hhash.symm.trans hmember) (by simp)

theorem changesAdmitted_iff (h : Rows.IndexedRows rows) (htip : rows.bestHeader = .ok tip)
    (mempool : Mempool) (hfirst : (saturatingAdd last 1).toNat ≤ latest.toNat) :
    (∀ logs, (filterChanges O peers rows mempool (.logs (.obj members)) (saturatingAdd last 1)
        latest).toOption = some (.arr logs) → ∀ log ∈ logs, Admits members latest log) ↔
      ChangesAdmitted O peers rows members last latest := by
  have hanswer : ∀ logs, (filterChanges O peers rows mempool (.logs (.obj members)) (saturatingAdd last 1)
      latest).toOption = some (.arr logs) ↔ _ := fun logs =>
    toOption_eq_some.trans (logFilterResult_eq_ok h htip)
  constructor
  · intro hall hhash hshort hreadable number hlower hupper hlogs
    obtain ⟨log, hlog⟩ := List.exists_mem_of_ne_nil _ hlogs
    refine (admits_iff h hhash hlog).mp
      (hall _ ((hanswer _).mpr ⟨hhash, hfirst, hshort, hreadable, rfl⟩) log ?_)
    exact List.mem_flatMap.mpr ⟨number, mem_heights.mpr ⟨hlower, hupper⟩, hlog⟩
  · intro hadmitted logs hlogs log hlog
    obtain ⟨hhash, -, hshort, hreadable, hsame⟩ := (hanswer logs).mp hlogs
    rw [JsonValue.arr.inj hsame] at hlog
    obtain ⟨number, hnumber, hlog⟩ := List.mem_flatMap.mp hlog
    obtain ⟨hlower, hupper⟩ := mem_heights.mp hnumber
    exact (admits_iff h hhash hlog).mpr
      (hadmitted hhash hshort hreadable number hlower hupper (List.ne_nil_of_mem hlog))

/-- **A log filter and the query it was made from**: all its logs are those of the query, and its
changes are admitted by the query, exactly if the rest of the chain shows no matching log, as far as it
can be asked for. -/
theorem filter_logs_iff (h : Rows.Store O rows) (htip : rows.bestHeader = .ok tip) {table : RpcFilters}
    {mempool : Mempool} {now filterId accessed : U64} {parsed : JsonValue}
    (hid : filterIdFromParams parsed = .ok filterId)
    (hfilter : (table.pruneExpired now).filters[filterId]? =
      some ⟨.logs (.obj members), last, accessed⟩) :
    (answerOf (rpcGetFilterLogs O peers rows now parsed table) =
        (rpcGetLogs O peers rows (.obj [("params", .arr [.obj members])])).toOption ∧
      ∀ logs, answerOf (rpcGetFilterChanges O peers rows mempool now parsed table) = some (.arr logs) →
        ∀ log ∈ logs, Admits members tip.number log) ↔
      SameLogs O peers rows members tip.number ∧
        ((saturatingAdd last 1).toNat ≤ tip.number.toNat →
          ChangesAdmitted O peers rows members last tip.number) := by
  have hlatest : currentBlockNumber rows = .ok tip.number := by
    unfold currentBlockNumber
    rw [htip]
    rfl
  have hquery : rpcGetLogs O peers rows (.obj [("params", .arr [.obj members])]) =
      getLogs O peers rows (.obj members) := rfl
  rw [answerOf_getFilterLogs hid hlatest hfilter, hquery, sameLogs_iff h.sound htip,
    answerOf_getFilterChanges hid hlatest, hfilter, Option.bind_some]
  refine and_congr_right fun _ => ?_
  by_cases hfirst : (saturatingAdd last 1).toNat ≤ tip.number.toNat
  · rw [if_neg (Nat.not_lt.mpr hfirst), changesAdmitted_iff h.sound.index htip mempool hfirst]
    exact ⟨fun hadmitted _ => hadmitted, fun hadmitted => hadmitted hfirst⟩
  · rw [if_pos (Nat.not_le.mp hfirst)]
    refine ⟨fun _ hle => absurd hle hfirst, fun _ logs hlogs log hlog => ?_⟩
    obtain rfl : [] = logs := JsonValue.arr.inj (Option.some.inj hlogs)
    exact absurd hlog List.not_mem_nil

/-! ## A filter for the first block -/

def relayRows : Rows := (Rows.relayChain.foldlM (Rows.insertBlock nonceOracle) ∅).toOption.getD ∅

theorem store_relayRows : Rows.Store nonceOracle relayRows := by
  obtain ⟨rows, hrows, hstore⟩ := exists_store_relayChain
  unfold relayRows
  rw [hrows]
  exact hstore

theorem tip_relayRows : relayRows.bestHeader = .ok (Rows.relayBlock 0 1 1).header := by
  decide +kernel

def filterTable (members : List (String × JsonValue)) : RpcFilters where
  filters := (∅ : Map U64 RpcFilter).insert 1 ⟨.logs (.obj members), 0, 0⟩
  nextId := 2

theorem filter_filterTable (members : List (String × JsonValue)) :
    ((filterTable members).pruneExpired 0).filters[(1 : U64)]? =
      some ⟨.logs (.obj members), 0, 0⟩ := by
  show (((∅ : Map U64 RpcFilter).insert 1 ⟨.logs (.obj members), 0, 0⟩).filter fun _ filter =>
    RpcFilters.isLive 0 filter)[(1 : U64)]? = _
  rw [Std.ExtTreeMap.getElem?_filter, Map.getElem?_insert_eq, if_pos rfl]
  exact Option.pfilter_eq_some_iff.mpr ⟨rfl, by simp [RpcFilters.isLive, saturatingSub]⟩

def fromEarliest : List (String × JsonValue) := [("fromBlock", .str "earliest")]

def firstBlockOnly : List (String × JsonValue) := [("fromBlock", .str "0x0"), ("toBlock", .str "0x0")]

theorem readable_relayRows : Readable nonceOracle noPeers relayRows (SledStorage.heights 0 1) := by
  have hread : (SledStorage.heights 0 1).all (fun number =>
      (loadedAt nonceOracle noPeers relayRows number).isSome) = true ∧
      (SledStorage.heights 0 1).countP (absentAt relayRows) ≤ maxRpcRemoteLogBlocks := by
    decide +kernel
  exact ⟨fun number hnumber => Option.isSome_iff_exists.mp (List.all_eq_true.mp hread.1 number hnumber),
    hread.2⟩

theorem filter_logs_iff_fromEarliest :
    answerOf (rpcGetFilterLogs nonceOracle noPeers relayRows 0 firstFilterId (filterTable fromEarliest)) =
        (rpcGetLogs nonceOracle noPeers relayRows
          (.obj [("params", .arr [.obj fromEarliest])])).toOption ∧
      ∀ logs, answerOf (rpcGetFilterChanges nonceOracle noPeers relayRows {} 0 firstFilterId
          (filterTable fromEarliest)) = some (.arr logs) →
        ∀ log ∈ logs, Admits fromEarliest 1 log := by
  have hnumbers : logBlockNumbers (relayRows.reader nonceOracle) (.obj fromEarliest) 1 =
      .ok (SledStorage.heights 0 1) := rfl
  refine (filter_logs_iff store_relayRows tip_relayRows filterId_firstFilterId
    (filter_filterTable fromEarliest)).mpr ⟨?_, fun _ _ _ _ number _ _ _ => ⟨?_, ?_⟩⟩
  · refine .silent _ hnumbers readable_relayRows ⟨rfl, by decide, readable_relayRows⟩
      fun number hle hout => absurd ?_ hout
    exact mem_heights.mpr ⟨Nat.zero_le _, hle⟩
  · rintro value hvalue
    obtain rfl : JsonValue.str "earliest" = value := Option.some.inj hvalue
    exact ⟨0, rfl, Nat.zero_le _⟩
  · intro value hvalue
    have hnone : (JsonValue.obj fromEarliest).member? "toBlock" = none := rfl
    exact absurd (hnone.symm.trans hvalue) (by simp)

/-- **A filter for the first block reports the log of the second**, both when it is asked for all its
logs, where the query has none, and when it is polled. -/
theorem filter_ignores_range :
    answerOf (rpcGetFilterLogs nonceOracle noPeers relayRows 0 firstFilterId
        (filterTable firstBlockOnly)) ≠
        (rpcGetLogs nonceOracle noPeers relayRows
          (.obj [("params", .arr [.obj firstBlockOnly])])).toOption ∧
      ∃ logs, answerOf (rpcGetFilterChanges nonceOracle noPeers relayRows {} 0 firstFilterId
          (filterTable firstBlockOnly)) = some (.arr logs) ∧
        ∃ log ∈ logs, ¬Admits firstBlockOnly 1 log := by
  have hrun : ((answerOf (rpcGetFilterLogs nonceOracle noPeers relayRows 0 firstFilterId
        (filterTable firstBlockOnly))).bind JsonValue.asArray?).map List.length = some 1 ∧
      ((rpcGetLogs nonceOracle noPeers relayRows
        (.obj [("params", .arr [.obj firstBlockOnly])])).toOption.bind JsonValue.asArray?).map
          List.length = some 0 ∧
      ((answerOf (rpcGetFilterChanges nonceOracle noPeers relayRows {} 0 firstFilterId
        (filterTable firstBlockOnly))).bind JsonValue.asArray?).map (fun logs => logs.map fun log =>
          (log.member? "blockNumber").bind JsonValue.text?) = some [some "0x1"] := by
    decide +kernel
  obtain ⟨hlogs, hquery, hchanges⟩ := hrun
  refine ⟨fun hsame => ?_, ?_⟩
  · rw [hsame, hquery] at hlogs
    exact absurd hlogs (by decide)
  · obtain ⟨logs, hlogs, htexts⟩ := Option.map_eq_some_iff.mp hchanges
    obtain ⟨answer, hanswer, harray⟩ := Option.bind_eq_some_iff.mp hlogs
    have harr : answer = .arr logs := by
      cases answer with
      | arr items => exact congrArg JsonValue.arr (Option.some.inj harray)
      | _ => exact absurd harray (by simp [JsonValue.asArray?])
    subst harr
    obtain ⟨log, rfl, htext⟩ := List.map_eq_singleton_iff.mp htexts
    refine ⟨[log], hanswer, log, List.mem_singleton_self log, ?_⟩
    rintro ⟨⟨number, hnumber, -, hlast⟩, -⟩
    -- the log is of the second block, the filter ends with the first
    rw [hnumber] at htext
    have hone : number.toNat = 1 := by
      have hquantity : hexQuantity 1 = "0x1" := by decide
      exact hexQuantity_injective ((Option.some.inj htext).trans hquantity.symm)
    obtain ⟨last, hlast, hle⟩ := hlast (.str "0x0") rfl
    have hzero : parseLogBlockTag (some (.str "0x0")) 1 = .ok 0 := by decide +kernel
    obtain rfl := Except.ok.inj (hzero.symm.trans hlast)
    rw [hone] at hle
    exact absurd hle (by decide)

end Blq
