import Blq.Proof.LogQuery
import Blq.Spec.Filters

/-!
# Log filters as queries of a range

A log filter is evaluated as a query whose range is written over.

* `logFilterResult_eq`: the answer is that of a scan over the range, for the addresses and topics of
  the filter.
* `logFilterResult_of_stored`: with the bodies of a short range at hand the answer is their matching
  logs, in order.
-/

namespace Blq

open Word Result

variable {O : Oracle} {peers : BodyPeers} {rows : Rows}

/-! ## Members -/

theorem lookup_setMember (members : List (String × JsonValue)) (key key' : String) (value : JsonValue) :
    (JsonValue.setMember members key value).lookup key' =
      if key' = key then some value else members.lookup key' := by
  induction members with
  | nil =>
    unfold JsonValue.setMember
    rw [List.lookup_cons]
    by_cases hkey : key' = key
    · simp [hkey]
    · have hne : (key' == key) = false := by simpa using hkey
      rw [hne, if_neg hkey]
  | cons member rest ih =>
    obtain ⟨name, old⟩ := member
    unfold JsonValue.setMember
    by_cases hname : name = key
    · rw [if_pos hname]
      by_cases hkey : key' = key
      · rw [if_pos hkey, List.lookup_cons]
        simp [hname, hkey]
      · rw [if_neg hkey, List.lookup_cons, List.lookup_cons]
        have hne : (key' == name) = false := by simpa [hname] using hkey
        rw [hne]
    · rw [if_neg hname, List.lookup_cons, List.lookup_cons, ih]
      by_cases hother : key' = name
      · have hkey : key' ≠ key := fun hkey => hname (hother.symm.trans hkey)
        simp [hother, hname]
      · have hne : (key' == name) = false := by simpa using hother
        rw [hne]

theorem member?_setMember (members : List (String × JsonValue)) (key key' : String) (value : JsonValue) :
    (JsonValue.obj (JsonValue.setMember members key value)).member? key' =
      if key' = key then some value else (JsonValue.obj members).member? key' :=
  lookup_setMember members key key' value

def rangeFilter (members : List (String × JsonValue)) (first last : U64) : JsonValue :=
  .obj (JsonValue.setMember (JsonValue.setMember members "fromBlock" (quantity first.toNat)) "toBlock"
    (quantity last.toNat))

theorem member?_rangeFilter_first (members : List (String × JsonValue)) (first last : U64) :
    (rangeFilter members first last).member? "fromBlock" = some (quantity first.toNat) := by
  unfold rangeFilter
  rw [member?_setMember, if_neg (by decide), member?_setMember, if_pos rfl]

theorem member?_rangeFilter_last (members : List (String × JsonValue)) (first last : U64) :
    (rangeFilter members first last).member? "toBlock" = some (quantity last.toNat) := by
  unfold rangeFilter
  rw [member?_setMember, if_pos rfl]

theorem member?_rangeFilter (members : List (String × JsonValue)) (first last : U64) {key : String}
    (hfirst : key ≠ "fromBlock") (hlast : key ≠ "toBlock") :
    (rangeFilter members first last).member? key = (JsonValue.obj members).member? key := by
  unfold rangeFilter
  rw [member?_setMember, if_neg hlast, member?_setMember, if_neg hfirst]

theorem filteredLogs_rangeFilter (members : List (String × JsonValue)) (first last : U64) :
    filteredLogs O (rangeFilter members first last) = filteredLogs O (.obj members) := by
  unfold filteredLogs
  rw [member?_rangeFilter members first last (by decide) (by decide),
    member?_rangeFilter members first last (by decide) (by decide)]

/-! ## The query -/

theorem parseLogBlockTag_quantity (number latest : U64) :
    parseLogBlockTag (some (quantity number.toNat)) latest = .ok number := by
  have hread : parseHex 64 (hexQuantity number.toNat) = .ok number := by
    rw [parseHex_hexQuantity number.isLt, ofNat_toNat]
  -- a quantity is none of the names of blocks
  have hname : ∀ name : String, name.toList.head? ≠ some '0' → hexQuantity number.toNat ≠ name := by
    rintro name hhead rfl
    exact hhead (by simp [hexQuantity])
  unfold parseLogBlockTag
  show parseBlockTag (hexQuantity number.toNat) latest = _
  unfold parseBlockTag
  rw [if_neg, if_neg (hname "earliest" (by decide)), hread]
  rintro (h | h | h | h)
  · exact hname "latest" (by decide) h
  · exact hname "safe" (by decide) h
  · exact hname "finalized" (by decide) h
  · exact hname "pending" (by decide) h

variable {members : List (String × JsonValue)}

theorem logBlockNumbers_rangeFilter (storage : ChainStorage)
    (hhash : (JsonValue.obj members).member? "blockHash" = none) (first last latest : U64) :
    logBlockNumbers storage (rangeFilter members first last) latest =
      if last.toNat < first.toNat ∨ last.toNat - first.toNat > maxLogBlockRange then
        throw (.invalidParams "eth_getLogs block range is invalid or too large")
      else pure (SledStorage.heights first last) := by
  unfold logBlockNumbers
  rw [member?_rangeFilter members first last (by decide) (by decide), hhash]
  dsimp only
  rw [member?_rangeFilter_first, member?_rangeFilter_last, parseLogBlockTag_quantity,
    parseLogBlockTag_quantity]
  show (if _ then _ else _) = _
  split_ifs <;> rfl

theorem logBlockNumbers_rangeFilter_hash (storage : ChainStorage) {blockHash : JsonValue}
    (hhash : (JsonValue.obj members).member? "blockHash" = some blockHash) (first last latest : U64) :
    logBlockNumbers storage (rangeFilter members first last) latest =
      .error (.invalidParams "eth_getLogs blockHash cannot be combined with a block range") := by
  unfold logBlockNumbers
  rw [member?_rangeFilter members first last (by decide) (by decide), hhash]
  dsimp only
  rw [member?_rangeFilter_first]
  rfl

theorem logFilterResult_eq (members : List (String × JsonValue)) (first last : U64) :
    logFilterResult O peers rows (.obj members) first last =
      (getLogs O peers rows (rangeFilter members first last)).mapError RpcError.responseText := rfl

def blocksBetween (rows : Rows) (first last : U64) : List Block :=
  (SledStorage.heights first last).filterMap fun number => (rows.blockByNumber number).toOption

theorem logBlocks_of_stored {storage : ChainStorage} {every numbers : List U64}
    (hevery : ∀ number ∈ numbers, number ∈ every)
    (hstored : ∀ number ∈ numbers, ∃ block, storage.blockByNumber number = .ok block) (fetched : ℕ) :
    logBlocks O peers storage every fetched numbers =
      .ok (numbers.filterMap fun number => (storage.blockByNumber number).toOption) := by
  induction numbers with
  | nil => rfl
  | cons number rest ih =>
    obtain ⟨block, hblock⟩ := hstored number List.mem_cons_self
    have hmem : every.contains number := by simpa using hevery number List.mem_cons_self
    rw [logBlocks_cons_ok hblock, if_pos hmem,
      ih (fun n hn => hevery n (List.mem_cons_of_mem _ hn)) fun n hn =>
        hstored n (List.mem_cons_of_mem _ hn), List.filterMap_cons, hblock]
    rfl

/-- A range that a log filter can be evaluated on without a peer. -/
structure ReadableRange (rows : Rows) (first last : U64) : Prop where
  ordered : first.toNat ≤ last.toNat
  short : last.toNat - first.toNat ≤ maxLogBlockRange
  stored : ∀ number : U64, first.toNat ≤ number.toNat → number.toNat ≤ last.toNat →
    ∃ block, rows.blockByNumber number = .ok block

/-- **The matching logs of a readable range.** -/
theorem logFilterResult_of_stored (h : Rows.IndexedRows rows) {tip : BlockHeader}
    (htip : rows.bestHeader = .ok tip) (hhash : (JsonValue.obj members).member? "blockHash" = none)
    {first last : U64} (hrange : ReadableRange rows first last) :
    logFilterResult O peers rows (.obj members) first last =
      .ok (.arr ((blocksBetween rows first last).flatMap (filteredLogs O (.obj members)))) := by
  have hordered := hrange.ordered
  have hshort := hrange.short
  have hnumbers : logBlockNumbers (rows.reader O) (rangeFilter members first last) tip.number =
      .ok (SledStorage.heights first last) := by
    rw [logBlockNumbers_rangeFilter _ hhash, if_neg (by omega)]
    rfl
  have hblocks : logBlocks O peers (rows.reader O) (SledStorage.heights first last) 0
      (SledStorage.heights first last) = .ok (blocksBetween rows first last) := by
    refine logBlocks_of_stored (fun number hnumber => hnumber) (fun number hnumber => ?_) 0
    obtain ⟨hfirst, hlast⟩ := mem_heights.mp hnumber
    exact hrange.stored number hfirst hlast
  rw [logFilterResult_eq, getLogs_eq_scanLogs h, scanLogs_eq htip, hnumbers, ok_bind, hblocks,
    filteredLogs_rangeFilter]
  rfl

end Blq
