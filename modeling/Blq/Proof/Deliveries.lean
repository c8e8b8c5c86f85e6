import Blq.Proof.FilterTable
import Blq.Proof.LogRange
import Blq.Proof.RowChange
import Blq.Search.Cursor

/-!
# What filters and subscriptions deliver

A node with its table of filters, its websocket subscriptions and a record of what each of them has
been sent.

* `Watch`: what a filter or a subscription asks for. The block filter and `newHeads` report headers,
  the others logs.
* `DeliveredUpTo`: what was sent are the reports of the blocks above the start, each once and in order.
* `DeliveredUpTo.keep`, `DeliveredUpTo.advance`: **a change above the served height leaves that, and a
  poll extends it to the tip.**
* `filterChanges_watch`, `websocketSubscriptionResult_watch`: the answers are those reports.
-/

namespace Blq

open Word Result

/-! ## Clients -/

/-- A filter of the table or a subscription of a websocket. -/
inductive Subscriber where
  | filter (filterId : U64)
  | socket (subscriptionId : U64)
deriving DecidableEq

inductive Watch where
  | headers (report : BlockHeader → JsonValue)
  | logs (filter : JsonValue)

def RpcFilterKind.watch? (O : Oracle) : RpcFilterKind → Option Watch
  | .blocks => some (.headers fun header => hashText (header.hash O))
  | .logs filter => some (.logs filter)
  | .pendingTransactions => none

def WsSubscription.watch? (O : Oracle) (subscription : WsSubscription) : Option Watch :=
  match subscription.kind with
  | .newHeads => some (.headers (headJson O))
  | .logs => some (.logs (subscription.filter.getD (.obj [])))
  | .newPendingTransactions => none

/-- The node, with the height each subscriber started at and all it has been sent. -/
structure FilterNode where
  rows : Rows
  mempool : Mempool := {}
  table : RpcFilters := {}
  sockets : Map U64 WsSubscription := ∅
  started : Subscriber → U64 := fun _ => 0
  sent : Subscriber → List JsonValue := fun _ => []

inductive FilterEvent where
  | chain (c : Rows.RowChange)
  | pool (mempool : Mempool)
  | newBlockFilter (now : U64)
  | newFilter (now : U64) (parsed : JsonValue)
  | newPendingFilter (now : U64)
  | getFilterChanges (now : U64) (parsed : JsonValue)
  | getFilterLogs (now : U64) (parsed : JsonValue)
  | uninstallFilter (now : U64) (parsed : JsonValue)
  | subscribe (subscriptionId : U64) (kind : WsKind) (filter : Option JsonValue)
  | notify (subscriptionId : U64)
  | unsubscribe (subscriptionId : U64)

namespace FilterNode

variable (O : Oracle) (peers : BodyPeers) (n : FilterNode)

/-- A subscriber starts at the height of the tip with nothing sent. -/
def start (k : Subscriber) : FilterNode :=
  { n with
    started := Function.update n.started k ((currentBlockNumber n.rows).toOption.getD 0)
    sent := Function.update n.sent k [] }

def send (k : Subscriber) (items : List JsonValue) : FilterNode :=
  { n with sent := Function.update n.sent k (n.sent k ++ items) }

def install (outcome : EStateM.Result RpcError RpcFilters JsonValue) : FilterNode :=
  match outcome with
  | .ok _ table => { n.start (.filter n.table.nextId) with table := table }
  | .error _ table => { n with table := table }

def step : FilterEvent → FilterNode
  | .chain c => { n with rows := n.rows.change O c }
  | .pool mempool => { n with mempool := mempool }
  | .newBlockFilter now => n.install (rpcNewBlockFilter n.rows now n.table)
  | .newFilter now parsed => n.install (rpcNewFilter n.rows now parsed n.table)
  | .newPendingFilter now => n.install (rpcNewPendingFilter n.rows now n.table)
  | .getFilterChanges now parsed =>
    match filterIdFromParams parsed, rpcGetFilterChanges O peers n.rows n.mempool now parsed n.table with
    | .ok filterId, .ok answer table =>
      { n.send (.filter filterId) (answer.asArray?.getD []) with table := table }
    | _, .ok _ table | _, .error _ table => { n with table := table }
  | .getFilterLogs now parsed =>
    { n with table := finalState (rpcGetFilterLogs O peers n.rows now parsed) n.table }
  | .uninstallFilter now parsed => { n with table := finalState (rpcUninstallFilter now parsed) n.table }
  | .subscribe subscriptionId kind filter =>
    match newSubscription n.rows kind filter with
    | .ok subscription =>
      { n.start (.socket subscriptionId) with sockets := n.sockets.insert subscriptionId subscription }
    | .error _ => n
  | .notify subscriptionId =>
    match n.sockets[subscriptionId]? with
    | none => n
    | some subscription =>
      match websocketSubscriptionResult O peers n.rows n.mempool subscription with
      | .ok (items, subscription) =>
        { n.send (.socket subscriptionId) items with
          sockets := n.sockets.insert subscriptionId subscription }
      | .error _ => { n with sockets := n.sockets.erase subscriptionId }
  | .unsubscribe subscriptionId => { n with sockets := n.sockets.erase subscriptionId }

variable {n} in
theorem sent_send_other {k k' : Subscriber} (hk : k' ≠ k) (items : List JsonValue) :
    (n.send k items).sent k' = n.sent k' := Function.update_of_ne hk ..

variable {n} in
theorem sent_start_other {k k' : Subscriber} (hk : k' ≠ k) : (n.start k).sent k' = n.sent k' :=
  Function.update_of_ne hk ..

/-- What a subscriber asks for and the height it has been served up to. -/
inductive Watches : Subscriber → Watch → U64 → Prop
  | filter (filterId : U64) (filter : RpcFilter) (w : Watch) : n.table.filters[filterId]? = some filter →
      filter.kind.watch? O = some w → Watches (.filter filterId) w filter.lastBlock
  | socket (subscriptionId : U64) (subscription : WsSubscription) (w : Watch) :
      n.sockets[subscriptionId]? = some subscription → subscription.watch? O = some w →
      Watches (.socket subscriptionId) w subscription.lastBlock

end FilterNode

/-! ## Deliveries -/

section

variable (O : Oracle) (rows : Rows)

def headerAt (number : ℕ) : Option BlockHeader :=
  if number < 2 ^ 64 then (rows.headerByNumber (BitVec.ofNat 64 number)).toOption else none

def blockAt (number : ℕ) : Option Block :=
  if number < 2 ^ 64 then (rows.blockByNumber (BitVec.ofNat 64 number)).toOption else none

/-- Every canonical header between two heights is that of one of the blocks, whose body may have been
pruned since. -/
def HeadersCovered (started last : U64) (blocks : List Block) : Prop :=
  ∀ (number : U64) (header : BlockHeader), started.toNat < number.toNat → number.toNat ≤ last.toNat →
    rows.headerByNumber number = .ok header → ∃ block ∈ blocks, block.header = header

/-- What was sent are the reports of the blocks above the start up to a height, each once and in the
order of the chain. -/
def DeliveredUpTo (started last : U64) (sent : List JsonValue) : Watch → Prop
  | .headers report => ∃ headers : List BlockHeader, sent = headers.map report ∧
      Cursor.Covers (fun header => header.number.toNat) (headerAt rows) started.toNat last.toNat headers
  | .logs filter => ∃ blocks : List Block, sent = blocks.flatMap (filteredLogs O filter) ∧
      Cursor.Covers (fun block => block.header.number.toNat) (blockAt rows) started.toNat last.toNat blocks ∧
      HeadersCovered rows started last blocks

/-- All bodies between two heights are here, when logs are asked for. -/
def BodiesStored (last latest : U64) (w : Watch) : Prop :=
  ∀ filter, w = .logs filter → ∀ number : U64, last.toNat < number.toNat → number.toNat ≤ latest.toNat →
    ∃ block, rows.blockByNumber number = .ok block

def reportsBetween (first last : U64) : Watch → List JsonValue
  | .headers report => (headersBetween rows first last).map report
  | .logs filter => (blocksBetween rows first last).flatMap (filteredLogs O filter)

end

variable {O : Oracle} {peers : BodyPeers} {rows rows' : Rows} {started last latest : U64}
  {sent : List JsonValue} {w : Watch}

theorem rowAt_eq_some {α : Type} (find : U64 → Except NodeError α) {number : ℕ} {a : α} :
    (if number < 2 ^ 64 then (find (BitVec.ofNat 64 number)).toOption else none) = some a ↔
      ∃ n : U64, n.toNat = number ∧ find n = .ok a := by
  constructor
  · intro h
    split_ifs at h with hlt
    exact ⟨BitVec.ofNat 64 number, toNat_ofNat_of_lt hlt, toOption_eq_some.mp h⟩
  · rintro ⟨n, rfl, hread⟩
    rw [if_pos n.isLt, ofNat_toNat, hread]
    rfl

theorem headerAt_eq_some {number : ℕ} {header : BlockHeader} :
    headerAt rows number = some header ↔
      ∃ n : U64, n.toNat = number ∧ rows.headerByNumber n = .ok header :=
  rowAt_eq_some rows.headerByNumber

theorem blockAt_eq_some {number : ℕ} {block : Block} :
    blockAt rows number = some block ↔
      ∃ n : U64, n.toNat = number ∧ rows.blockByNumber n = .ok block :=
  rowAt_eq_some rows.blockByNumber

theorem filterMap_heights {ι : Type} (find : U64 → Option ι) (first last : U64) :
    (SledStorage.heights first last).filterMap find =
      Cursor.between (fun number => if number < 2 ^ 64 then find (BitVec.ofNat 64 number) else none)
        first.toNat last.toNat := by
  unfold SledStorage.heights Cursor.between
  rw [List.filterMap_map]
  refine List.filterMap_congr fun number hnumber => ?_
  have hlt : number < 2 ^ 64 := by
    have hlast := (List.mem_range'_1.mp hnumber).2
    have hbound := last.isLt
    omega
  rw [if_pos hlt]
  rfl

/-! ## One subscriber -/

theorem DeliveredUpTo.keep (h : DeliveredUpTo O rows started last sent w)
    (hkept : Rows.KeptUpTo rows rows' last.toNat) : DeliveredUpTo O rows' started last sent w := by
  cases w with
  | headers report =>
    obtain ⟨headers, hsent, hcovers⟩ := h
    refine ⟨headers, hsent, hcovers.keep fun number header hle hfind => ?_⟩
    obtain ⟨n, rfl, hread⟩ := headerAt_eq_some.mp hfind
    refine headerAt_eq_some.mpr ⟨n, rfl, Rows.headerByNumber_eq_ok.mpr ?_⟩
    rw [← hkept.header n hle]
    exact Rows.headerByNumber_eq_ok.mp hread
  | logs filter =>
    obtain ⟨blocks, hsent, hcovers, hheaders⟩ := h
    refine ⟨blocks, hsent, hcovers.keep fun number block hle hfind => ?_,
      fun number header hstart hle hread => hheaders number header hstart hle ?_⟩
    · obtain ⟨n, rfl, hread⟩ := blockAt_eq_some.mp hfind
      exact blockAt_eq_some.mpr ⟨n, rfl, Rows.blockByNumber_eq_ok.mpr
        (hkept.body n block hle (Rows.blockByNumber_eq_ok.mp hread))⟩
    · rw [Rows.headerByNumber_eq_ok] at hread ⊢
      rw [← hkept.header number hle]
      exact hread

/-- **A poll delivers up to the tip.** -/
theorem DeliveredUpTo.advance (h : DeliveredUpTo O rows started last sent w)
    (hrows : Rows.IndexedRows rows) (hstarted : started.toNat ≤ last.toNat)
    (hroom : last.toNat + 1 < 2 ^ 64) (hlatest : last.toNat ≤ latest.toNat)
    (hbodies : BodiesStored rows last latest w) :
    DeliveredUpTo O rows started latest
      (sent ++ reportsBetween O rows (saturatingAdd last 1) latest w) w := by
  have hfirst : (saturatingAdd last 1).toNat = last.toNat + 1 := by
    rw [toNat_saturatingAdd_one]
    omega
  cases w with
  | headers report =>
    obtain ⟨headers, rfl, hcovers⟩ := h
    refine ⟨headers ++ headersBetween rows (saturatingAdd last 1) latest, ?_, ?_⟩
    · rw [List.map_append]
      rfl
    · unfold headersBetween
      rw [filterMap_heights, hfirst]
      refine hcovers.advance hstarted (fun number header hfind => ?_) hlatest
      obtain ⟨n, rfl, hread⟩ := headerAt_eq_some.mp hfind
      rw [hrows.number_of_header hread]
  | logs filter =>
    obtain ⟨blocks, rfl, hcovers, hheaders⟩ := h
    refine ⟨blocks ++ blocksBetween rows (saturatingAdd last 1) latest, ?_, ?_,
      fun number header hstart hle hread => ?_⟩
    · rw [List.flatMap_append]
      rfl
    · unfold blocksBetween
      rw [filterMap_heights, hfirst]
      refine hcovers.advance hstarted (fun number block hfind => ?_) hlatest
      obtain ⟨n, rfl, hread⟩ := blockAt_eq_some.mp hfind
      rw [hrows.number_of_block hread]
    · by_cases hold : number.toNat ≤ last.toNat
      · obtain ⟨block, hblock, hheader⟩ := hheaders number header hstart hold hread
        exact ⟨block, List.mem_append_left _ hblock, hheader⟩
      · obtain ⟨block, hblock⟩ := hbodies filter rfl number (by omega) hle
        have hrow := hrows.bodyHeader number block (Rows.blockByNumber_eq_ok.mp hblock)
        rw [Rows.headerByNumber_eq_ok.mp hread] at hrow
        obtain rfl := RowValue.header.inj (Option.some.inj hrow)
        refine ⟨block, List.mem_append_right _ ?_, rfl⟩
        unfold blocksBetween
        rw [filterMap_heights, hfirst]
        exact Cursor.mem_between.mpr ⟨number.toNat, by omega, hle,
          blockAt_eq_some.mpr ⟨number, rfl, hblock⟩⟩

theorem DeliveredUpTo.start (O : Oracle) (rows : Rows) (started : U64) (w : Watch) :
    DeliveredUpTo O rows started started [] w := by
  cases w with
  | headers report => exact ⟨[], rfl, .empty _⟩
  | logs filter => exact ⟨[], rfl, .empty _, fun number _ hstart hle _ => by omega⟩

/-! ## Answers -/

/-- What has to hold for the logs of a range to be read. -/
def LogsReadable (rows : Rows) (first latest : U64) (w : Watch) : Prop :=
  ∀ filter, w = .logs filter →
    (∃ members, filter = .obj members ∧ (JsonValue.obj members).member? "blockHash" = none) ∧
      ReadableRange rows first latest

theorem LogsReadable.bodies (h : LogsReadable rows (saturatingAdd last 1) latest w) :
    BodiesStored rows last latest w := by
  intro filter hw number hlast hlatest
  refine (h filter hw).2.stored number ?_ hlatest
  rw [toNat_saturatingAdd_one]
  omega

theorem bodiesStored_nothing : BodiesStored rows last last w :=
  fun _ _ _ hlast hlatest => absurd hlatest (Nat.not_le.mpr hlast)

variable {tip : BlockHeader}

theorem logFilterResult_readable (hrows : Rows.IndexedRows rows) (htip : rows.bestHeader = .ok tip)
    {filter : JsonValue} {first : U64} (hlogs : LogsReadable rows first latest (.logs filter)) :
    logFilterResult O peers rows filter first latest =
      .ok (.arr (reportsBetween O rows first latest (.logs filter))) := by
  obtain ⟨⟨members, rfl, hhash⟩, hrange⟩ := hlogs filter rfl
  exact logFilterResult_of_stored hrows htip hhash hrange

theorem filterChanges_watch (hrows : Rows.IndexedRows rows) (htip : rows.bestHeader = .ok tip)
    {kind : RpcFilterKind} (hkind : kind.watch? O = some w) {first : U64}
    (hlogs : LogsReadable rows first latest w) (mempool : Mempool) :
    filterChanges O peers rows mempool kind first latest =
      .ok (.arr (reportsBetween O rows first latest w)) := by
  cases kind with
  | blocks =>
    obtain rfl := Option.some.inj hkind
    rfl
  | logs filter =>
    obtain rfl := Option.some.inj hkind
    exact logFilterResult_readable hrows htip hlogs
  | pendingTransactions => exact absurd hkind (by simp [RpcFilterKind.watch?])

theorem websocketSubscriptionResult_watch (hrows : Rows.IndexedRows rows)
    (htip : rows.bestHeader = .ok tip) (hlatest : currentBlockNumber rows = .ok latest)
    {subscription : WsSubscription} (hkind : subscription.watch? O = some w)
    (hlogs : (saturatingAdd subscription.lastBlock 1).toNat ≤ latest.toNat →
      LogsReadable rows (saturatingAdd subscription.lastBlock 1) latest w)
    (mempool : Mempool) :
    websocketSubscriptionResult O peers rows mempool subscription =
      .ok (if latest.toNat < (saturatingAdd subscription.lastBlock 1).toNat then ([], subscription)
        else (reportsBetween O rows (saturatingAdd subscription.lastBlock 1) latest w,
          { subscription with lastBlock := latest })) := by
  unfold websocketSubscriptionResult
  rw [hlatest, ok_bind]
  unfold WsSubscription.watch? at hkind
  cases hcase : subscription.kind with
  | newHeads =>
    rw [hcase] at hkind
    obtain rfl := Option.some.inj hkind
    dsimp only
    split_ifs <;> rfl
  | logs =>
    rw [hcase] at hkind
    obtain rfl := Option.some.inj hkind
    dsimp only
    split_ifs with hnothing
    · rfl
    · rw [logFilterResult_readable hrows htip (hlogs (Nat.not_lt.mp hnothing))]
      rfl
  | newPendingTransactions =>
    rw [hcase] at hkind
    exact absurd hkind (by simp)

end Blq
