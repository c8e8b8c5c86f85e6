import Blq.Proof.Wire
import Blq.Spec.Framing

/-!
# Where the network cuts a stream

Both readers decide on what has arrived: the line reader whether a chunk is text, the HTTP reader
where the header ends.

* `readP2pLines_of_ascii`, `prefix_of_readP2pLines`: lines of ASCII characters are read from any
  chunks, and a cut inside a longer character ends the stream.
* `firstEnd_of_findHeaderEnd`: the read that completes a header finds the empty line that comes
  first, unless it can bring one with carriage returns after one without.
* `framing_iff`: **which streams do not depend on the cuts.**
-/

namespace Blq

open Word Result

/-! ## Lines -/

/-- A line a peer may send. -/
structure PeerLine (line : Bytes) : Prop where
  ended : ∃ text, line = text ++ [10] ∧ 10 ∉ text
  fits : line.length ≤ maxP2pMessageBytes
  valid : Json.utf8Valid line = true

variable {lines : List Bytes} {read : HttpRead}

theorem readP2pLines_of_ascii {chunks : List Bytes} (hlines : ∀ line ∈ lines, PeerLine line)
    (hascii : ∀ line ∈ lines, ∀ b ∈ line, b.toNat < 0x80) (hchunks : ∀ chunk ∈ chunks, chunk ≠ [])
    (h : chunks.flatten = lines.flatten) : readP2pLines (lines.length + 1) chunks = .ok lines := by
  induction lines generalizing chunks with
  | nil =>
    have hnil : chunks = [] := List.eq_nil_iff_forall_not_mem.mpr fun chunk hmem =>
      hchunks chunk hmem (List.flatten_eq_nil_iff.mp h chunk hmem)
    rw [hnil]
    rfl
  | cons line lines ih =>
    rw [List.forall_mem_cons] at hlines hascii
    obtain ⟨text, rfl, hbreak⟩ := hlines.1.ended
    have htext : InLine text := fun b hb =>
      ⟨hascii.1 b (List.mem_append_left _ hb), fun heq => hbreak (heq ▸ hb)⟩
    have hstream : chunks.flatten = text ++ 10 :: lines.flatten := by simpa using h
    have hread := readP2pLineLoop_of_ascii [] htext hchunks hstream
    have hfits : ([] : Bytes).length + text.length + 1 ≤ maxP2pMessageBytes := by
      simpa using hlines.1.fits
    rw [if_pos hfits] at hread
    obtain ⟨left, hleft, hflatten, hne⟩ := hread
    rw [List.length_cons, readP2pLines, readP2pLine, hleft, ok_bind]
    simp only [if_true, ih hlines.2 hascii.2 hne hflatten, ok_bind]
    rfl

theorem not_utf8Valid_cut {text : Bytes} {b : UInt8} (htext : ∀ a ∈ text, a.toNat < 0x80)
    (hb : 0x80 ≤ b.toNat) : Json.utf8Valid (text ++ [b]) = false := by
  induction text with
  | nil =>
    unfold Json.utf8Valid
    dsimp only [List.nil_append]
    rw [if_neg hb.not_gt, ite_self, ite_self, ite_self]
  | cons a text ih =>
    rw [List.forall_mem_cons] at htext
    unfold Json.utf8Valid
    dsimp only [List.cons_append]
    rw [if_pos htext.1]
    exact ih htext.2

/-- What is read from a stream cut inside a character ends before the line of the cut. -/
theorem prefix_of_readP2pLines {before : Bytes} {b : UInt8} {chunks : List Bytes} {fuel : ℕ}
    (hbefore : ∀ a ∈ before, a.toNat < 0x80) (hb : 0x80 ≤ b.toNat)
    (h : readP2pLines fuel ((before ++ [b]) :: chunks) = .ok lines) : lines.flatten <+: before := by
  induction fuel generalizing before lines with
  | zero =>
    obtain rfl := pure_eq_ok.mp h
    exact List.nil_prefix
  | succ fuel ih =>
    simp only [readP2pLines, readP2pLine, bind_eq_ok, Prod.exists] at h
    obtain ⟨found, line, left, hline, h⟩ := h
    cases hfind : before.find? (· == 10) with
    | some c =>
      obtain ⟨hc, text, rest, rfl, htext⟩ := List.find?_eq_some_iff_append.mp hfind
      obtain rfl : c = 10 := by simpa using hc
      simp only [List.mem_append, List.mem_cons] at hbefore
      have hinLine : InLine text := fun a ha => ⟨hbefore a (.inl ha), by simpa using htext a ha⟩
      rw [List.append_assoc, List.cons_append, readP2pLineLoop_break hinLine] at hline
      split at hline
      · simp only [Except.ok.injEq, Prod.mk.injEq, List.nil_append, List.append_eq_nil_iff,
          List.cons_ne_self, and_false, if_false] at hline
        obtain ⟨rfl, rfl, rfl⟩ := hline
        simp only [if_true, bind_eq_ok, pure_eq_ok] at h
        obtain ⟨lines', hrest, rfl⟩ := h
        have hbound := ih (fun a ha => hbefore a (.inr (.inr ha))) hrest
        simpa using hbound
      · cases hline
    | none =>
      -- the cut character is in the same chunk as the rest of its line
      have hbreak : 10 ∉ before ++ [b] := by
        rw [List.mem_append, List.mem_singleton]
        rintro (hmem | rfl)
        · exact List.find?_eq_none.mp hfind 10 hmem rfl
        · exact absurd hb (by decide)
      have htake : (before ++ [b]).take (before.length + 1) = before ++ [b] :=
        List.take_of_length_le (by simp)
      simp [readP2pLineLoop, lineTake_of_not_mem hbreak, htake, not_utf8Valid_cut hbefore hb] at hline

/-- **The streams of lines that every cut leaves alone** are those of ASCII characters. -/
theorem readP2pLines_iff (hlines : ∀ line ∈ lines, PeerLine line) :
    (∀ chunks : List Bytes, (∀ chunk ∈ chunks, chunk ≠ []) → chunks.flatten = lines.flatten →
      readP2pLines (lines.length + 1) chunks = .ok lines) ↔
    ∀ line ∈ lines, ∀ b ∈ line, b.toNat < 0x80 := by
  refine ⟨fun h => ?_, fun hascii _ => readP2pLines_of_ascii hlines hascii⟩
  by_contra hnot
  have hsome : (lines.flatten.find? fun b => 0x80 ≤ b.toNat).isSome = true := by
    simpa [List.find?_isSome] using hnot
  obtain ⟨b, hfind⟩ := Option.isSome_iff_exists.mp hsome
  obtain ⟨hb, before, after, hstream, hbefore⟩ := List.find?_eq_some_iff_append.mp hfind
  obtain ⟨tail, htail, rfl⟩ : ∃ tail : List Bytes, (∀ chunk ∈ tail, chunk ≠ []) ∧
      tail.flatten = after := by
    cases after with
    | nil => exact ⟨[], by simp, rfl⟩
    | cons a after => exact ⟨[a :: after], by simp, by simp⟩
  -- cut the stream after the first byte of the first longer character
  have hread := h ((before ++ [b]) :: tail) (by simpa using htail) (by simp [hstream])
  have hlength := (prefix_of_readP2pLines (by simpa using hbefore) (by simpa using hb) hread).length_le
  rw [hstream, List.length_append, List.length_cons] at hlength
  omega

/-! ## The end of a header -/

section Window

variable {pattern p : Bytes} {i : ℕ}

/-- What was found stays the first occurrence, and one that has arrived is found. -/
theorem windowPosition_eq_some (hpattern : pattern ≠ []) (q : Bytes) :
    windowPosition pattern p = some i ↔
      windowPosition pattern (p ++ q) = some i ∧ i + pattern.length ≤ p.length := by
  induction p generalizing i with
  | nil =>
    have hpos := List.length_pos_iff.mpr hpattern
    refine iff_of_false nofun fun h => ?_
    rw [List.length_nil] at h
    omega
  | cons b p ih =>
    have hprefix := List.prefix_append (b :: p) q
    rw [List.cons_append] at hprefix ⊢
    rw [windowPosition, windowPosition]
    by_cases hhere : pattern <+: b :: p
    · rw [if_pos hhere, if_pos (hhere.trans hprefix), iff_self_and]
      rintro ⟨⟩
      simpa using hhere.length_le
    · rw [if_neg hhere]
      by_cases hlater : pattern <+: b :: (p ++ q)
      · -- the occurrence at the front is not complete in `b :: p`
        have hshort : ¬pattern.length ≤ (b :: p).length := fun hle =>
          hhere (List.prefix_of_prefix_length_le hlater hprefix hle)
        refine iff_of_false (fun h => ?_) (fun h => by omega)
        obtain ⟨j, hj, -⟩ := Option.map_eq_some_iff.mp h
        have hlength := (ih.mp hj).2
        rw [List.length_cons] at hshort
        omega
      · rw [if_neg hlater, Option.map_eq_some_iff, Option.map_eq_some_iff, List.length_cons]
        constructor
        · rintro ⟨j, hj, rfl⟩
          exact ⟨⟨j, (ih.mp hj).1, rfl⟩, by have := (ih.mp hj).2; omega⟩
        · rintro ⟨⟨j, hj, rfl⟩, hle⟩
          exact ⟨j, ih.mpr ⟨hj, by omega⟩, rfl⟩

theorem length_of_windowPosition (hpattern : pattern ≠ []) (h : windowPosition pattern p = some i) :
    i + pattern.length ≤ p.length :=
  ((windowPosition_eq_some hpattern []).mp h).2

end Window

/-- The first occurrence of the line break in the request ends here. -/
def BreakEnds (pattern request : Bytes) (e : ℕ) : Prop :=
  ∃ i, windowPosition pattern request = some i ∧ i + pattern.length = e

/-- An empty line without carriage returns ends before the first one with them does, and one read can
bring the ends of both. -/
def BareBreakFirst (request : Bytes) : Prop :=
  ∃ bare full, BreakEnds [10, 10] request bare ∧ BreakEnds [13, 10, 13, 10] request full ∧
    bare < full ∧ full < bare + httpBuffer

/-- Where the empty line that comes first ends, of either kind. -/
def FirstEnd (request : Bytes) : ℕ → Prop :=
  IsLeast {e | BreakEnds [13, 10, 13, 10] request e ∨ BreakEnds [10, 10] request e}

section HeaderEnd

variable {pattern p q : Bytes} {e e' : ℕ}

theorem BreakEnds.unique (h : BreakEnds pattern p e) (h' : BreakEnds pattern p e') : e = e' := by
  obtain ⟨i, hi, rfl⟩ := h
  obtain ⟨j, hj, rfl⟩ := h'
  rw [hi] at hj
  cases hj
  rfl

theorem breakEnds_append (hpattern : pattern ≠ []) (q : Bytes) :
    BreakEnds pattern p e ↔ BreakEnds pattern (p ++ q) e ∧ e ≤ p.length := by
  constructor
  · rintro ⟨i, hi, rfl⟩
    have h := (windowPosition_eq_some hpattern q).mp hi
    exact ⟨⟨i, h.1, rfl⟩, h.2⟩
  · rintro ⟨⟨i, hi, rfl⟩, hle⟩
    exact ⟨i, (windowPosition_eq_some hpattern q).mpr ⟨hi, hle⟩, rfl⟩

theorem findHeaderEnd_le (h : findHeaderEnd p = some e) : e ≤ p.length := by
  rcases Option.or_eq_some_iff.mp h with h | ⟨-, h⟩
  all_goals
    obtain ⟨i, hi, rfl⟩ := Option.map_eq_some_iff.mp h
    exact length_of_windowPosition (by simp) hi

theorem findHeaderEnd_eq_some : findHeaderEnd p = some e ↔
    BreakEnds [13, 10, 13, 10] p e ∨
      (∀ e', ¬ BreakEnds [13, 10, 13, 10] p e') ∧ BreakEnds [10, 10] p e := by
  have hnone : windowPosition [13, 10, 13, 10] p = none ↔
      ∀ e', ¬ BreakEnds [13, 10, 13, 10] p e' := by
    simp [BreakEnds, Option.eq_none_iff_forall_ne_some]
  rw [findHeaderEnd, Option.or_eq_some_iff, Option.map_eq_some_iff, Option.map_eq_none_iff,
    Option.map_eq_some_iff, hnone]
  rfl

theorem findHeaderEnd_eq_none : findHeaderEnd p = none ↔
    ∀ e, ¬ (BreakEnds [13, 10, 13, 10] p e ∨ BreakEnds [10, 10] p e) := by
  constructor
  · intro h e hends
    rw [findHeaderEnd, Option.or_eq_none_iff, Option.map_eq_none_iff, Option.map_eq_none_iff] at h
    rcases hends with ⟨i, hi, -⟩ | ⟨i, hi, -⟩
    · rw [h.1] at hi
      cases hi
    · rw [h.2] at hi
      cases hi
  · intro h
    refine Option.eq_none_iff_forall_ne_some.mpr fun e he => h e ?_
    exact (findHeaderEnd_eq_some.mp he).imp_right And.right

theorem lt_of_findHeaderEnd_none (hnone : findHeaderEnd p = none)
    (h : BreakEnds [13, 10, 13, 10] (p ++ q) e ∨ BreakEnds [10, 10] (p ++ q) e) : p.length < e := by
  by_contra hle
  replace hle := Nat.not_lt.mp hle
  exact findHeaderEnd_eq_none.mp hnone e
    (h.imp (fun h => (breakEnds_append (by simp) q).mpr ⟨h, hle⟩)
      fun h => (breakEnds_append (by simp) q).mpr ⟨h, hle⟩)

theorem findHeaderEnd_none_of_append (h : findHeaderEnd (p ++ q) = none) :
    findHeaderEnd p = none := by
  refine findHeaderEnd_eq_none.mpr fun e he => findHeaderEnd_eq_none.mp h e ?_
  exact he.imp (fun h => ((breakEnds_append (by simp) q).mp h).1)
    fun h => ((breakEnds_append (by simp) q).mp h).1

/-- **The read that completes the header finds the empty line that comes first**, unless it can bring
a second one. -/
theorem firstEnd_of_findHeaderEnd
    (hbare : ¬ BareBreakFirst (p ++ read.bytes ++ q)) (hnone : findHeaderEnd p = none)
    (he : findHeaderEnd (p ++ read.bytes) = some e) :
    FirstEnd (p ++ read.bytes ++ q) e := by
  rcases findHeaderEnd_eq_some.mp he with hfull | ⟨hnot, hbreak⟩
  · obtain ⟨hends, hle⟩ := (breakEnds_append (by simp) q).mp hfull
    refine ⟨.inl hends, fun e' he' => ?_⟩
    by_contra hlt
    have hstart : p.length < e' := lt_of_findHeaderEnd_none (q := read.bytes ++ q) hnone
      (by rwa [← List.append_assoc])
    have hread := read.fits
    rw [List.length_append] at hle
    rcases he' with hends' | hends'
    · exact hlt (hends.unique hends').le
    · exact hbare ⟨e', e, hends', hends, by omega, by omega⟩
  · obtain ⟨hends, hle⟩ := (breakEnds_append (by simp) q).mp hbreak
    refine ⟨.inr hends, fun e' he' => ?_⟩
    rcases he' with hends' | hends'
    · by_contra hlt
      exact hnot e' ((breakEnds_append (by simp) q).mpr ⟨hends', by omega⟩)
    · exact (hends.unique hends').le

end HeaderEnd

/-! ## Requests -/

section Request

variable {request p : Bytes} {reads left : List HttpRead} {e len : ℕ}

open HttpRead

@[simp] theorem HttpRead.stream_nil : stream [] = [] := rfl

@[simp] theorem HttpRead.stream_cons (read : HttpRead) (reads : List HttpRead) :
    stream (read :: reads) = read.bytes ++ stream reads := List.flatMap_cons

@[simp] theorem HttpRead.stream_append (reads reads' : List HttpRead) :
    stream (reads ++ reads') = stream reads ++ stream reads' := List.flatMap_append

theorem of_readHttpHeader (hnone : findHeaderEnd request = none)
    (h : readHttpHeader request reads = .ok (p, e, left)) :
    ∃ done read, reads = done ++ read :: left ∧ p = request ++ stream done ++ read.bytes ∧
      findHeaderEnd (request ++ stream done) = none ∧ findHeaderEnd p = some e ∧
      p.length ≤ maxHttpRequestBytes := by
  induction reads generalizing request with
  | nil => cases h
  | cons read reads ih =>
    rw [readHttpHeader] at h
    obtain ⟨hfits, h⟩ := ite_throw_eq_ok.mp h
    cases hfound : findHeaderEnd (request ++ read.bytes) with
    | some e' =>
      rw [hfound] at h
      cases h
      exact ⟨[], read, rfl, by simp, by simpa using hnone, hfound, Nat.not_lt.mp hfits⟩
    | none =>
      rw [hfound] at h
      obtain ⟨done, last, rfl, hp, hbefore, hend⟩ := ih hfound h
      exact ⟨read :: done, last, rfl, by simp [hp], by simpa using hbefore, hend⟩

theorem of_readHttpBody (hfits : request.length ≤ maxHttpRequestBytes)
    (h : readHttpBody e len request reads = .ok p) :
    ∃ done rest, reads = done ++ rest ∧ p = request ++ stream done ∧
      p.length ≤ maxHttpRequestBytes := by
  induction reads generalizing request with
  | nil =>
    cases h
    exact ⟨[], [], rfl, by simp, hfits⟩
  | cons read reads ih =>
    rw [readHttpBody] at h
    split at h
    · cases h
      exact ⟨[], read :: reads, rfl, by simp, hfits⟩
    · obtain ⟨hfits, h⟩ := ite_throw_eq_ok.mp h
      obtain ⟨done, rest, rfl, hp, hlength⟩ := ih (Nat.not_lt.mp hfits) h
      exact ⟨read :: done, rest, rfl, by simp [hp], hlength⟩

variable {parseContentLength : Bytes → Option ℕ} {r : Bytes × Bytes}

/-- The header and the body of a request whose header ends here. -/
def requestAt (parseContentLength : Bytes → Option ℕ) (request : Bytes) (e : ℕ) : Bytes × Bytes :=
  (request.take e, (request.drop e).take ((parseContentLength (request.take e)).getD 0))

theorem of_readHttpRequest (h : readHttpRequest parseContentLength reads = .ok r) :
    ∃ done read more rest, ∃ e, reads = done ++ read :: (more ++ rest) ∧
      findHeaderEnd (stream done) = none ∧ findHeaderEnd (stream done ++ read.bytes) = some e ∧
      r = requestAt parseContentLength (stream reads) e ∧
      e + (parseContentLength ((stream reads).take e)).getD 0 ≤
        (stream (done ++ read :: more)).length ∧
      (stream (done ++ read :: more)).length ≤ maxHttpRequestBytes := by
  rw [readHttpRequest] at h
  obtain ⟨⟨p, e, left⟩, hheader, h⟩ := bind_eq_ok.mp h
  obtain ⟨body, hbody, h⟩ := bind_eq_ok.mp h
  obtain ⟨hlen, hr⟩ := ite_throw_eq_ok.mp h
  obtain ⟨done, read, rfl, hp, hnone, hend, hfits⟩ := of_readHttpHeader rfl hheader
  obtain ⟨more, rest, rfl, hmore, hlength⟩ := of_readHttpBody hfits hbody
  have he := findHeaderEnd_le hend
  have hstream : stream (done ++ read :: (more ++ rest)) = body ++ stream rest := by
    simp [hmore, hp]
  have hdone : stream (done ++ read :: more) = body := by simp [hmore, hp]
  have hbe : e ≤ body.length := by
    rw [hmore, List.length_append]
    omega
  have htake : (stream (done ++ read :: (more ++ rest))).take e = p.take e := by
    rw [hstream, hmore, List.append_assoc, List.take_append_of_le_length he]
  refine ⟨done, read, more, rest, e, rfl, by simpa using hnone, by simpa [hp] using hend, ?_, ?_, ?_⟩
  · rw [requestAt, htake, ← pure_eq_ok.mp hr, hstream, List.drop_append_of_le_length hbe,
      List.take_append_of_le_length (by rw [List.length_drop]; omega)]
  · rw [hdone, htake]
    omega
  · rw [hdone]
    exact hlength

/-- The stream goes on behind the limit, and the read that completes the request can reach there. -/
def Overruns (request : Bytes) (r : Bytes × Bytes) : Prop :=
  maxHttpRequestBytes < request.length ∧
    maxHttpRequestBytes + 2 ≤ r.1.length + r.2.length + httpBuffer

theorem fits_of_room {n : ℕ}
    (hroom : request.length ≤ maxHttpRequestBytes ∨ n + httpBuffer < maxHttpRequestBytes + 2)
    (h : p ++ read.bytes <+: request) (hp : p.length < n) :
    ¬ (p ++ read.bytes).length > maxHttpRequestBytes := by
  have hle := h.length_le
  have hread := read.fits
  rw [List.length_append] at hle ⊢
  omega

theorem readHttpHeader_eq_ok (hbare : ¬ BareBreakFirst request) (he : FirstEnd request e)
    (hroom : request.length ≤ maxHttpRequestBytes ∨ e + httpBuffer < maxHttpRequestBytes + 2)
    (hnone : findHeaderEnd p = none) (h : p ++ stream reads = request) :
    ∃ p' left, readHttpHeader p reads = .ok (p', e, left) ∧ p' ++ stream left = request ∧
      e ≤ p'.length := by
  induction reads generalizing p with
  | nil =>
    obtain rfl : p = request := by simpa using h
    exact absurd he.1 (findHeaderEnd_eq_none.mp hnone e)
  | cons read reads ih =>
    rw [stream_cons, ← List.append_assoc] at h
    have hp : p.length < e := lt_of_findHeaderEnd_none (q := read.bytes ++ stream reads) hnone
      (by rw [← List.append_assoc, h]; exact he.1)
    rw [readHttpHeader, if_neg (fits_of_room hroom ⟨_, h⟩ hp)]
    cases hfound : findHeaderEnd (p ++ read.bytes) with
    | none => exact ih hfound h
    | some e' =>
      have hfirst := firstEnd_of_findHeaderEnd (h ▸ hbare) hnone hfound
      rw [h] at hfirst
      obtain rfl := hfirst.unique he
      exact ⟨p ++ read.bytes, reads, rfl, h, findHeaderEnd_le hfound⟩

theorem readHttpBody_eq_ok (hlen : e + len ≤ request.length)
    (hroom : request.length ≤ maxHttpRequestBytes ∨
      e + len + httpBuffer < maxHttpRequestBytes + 2)
    (he : e ≤ p.length) (h : p ++ stream reads = request) :
    ∃ body, readHttpBody e len p reads = .ok body ∧ body <+: request ∧ e + len ≤ body.length := by
  induction reads generalizing p with
  | nil =>
    obtain rfl : p = request := by simpa using h
    exact ⟨p, rfl, List.prefix_rfl, hlen⟩
  | cons read reads ih =>
    rw [readHttpBody]
    by_cases henough : ¬ p.length - e < len
    · rw [if_pos henough]
      exact ⟨p, rfl, ⟨_, h⟩, by omega⟩
    · rw [stream_cons, ← List.append_assoc] at h
      rw [if_neg henough, if_neg (fits_of_room hroom ⟨_, h⟩ (by omega))]
      exact ih (by rw [List.length_append]; omega) h

/-- A request whose header ends at the first empty line and whose body has room is returned from
any reads. -/
theorem readHttpRequest_eq_ok (hbare : ¬ BareBreakFirst (stream reads))
    (he : FirstEnd (stream reads) e)
    (hlen : e + (parseContentLength ((stream reads).take e)).getD 0 ≤ (stream reads).length)
    (hover : ¬ Overruns (stream reads) (requestAt parseContentLength (stream reads) e)) :
    readHttpRequest parseContentLength reads =
      .ok (requestAt parseContentLength (stream reads) e) := by
  have hroom : (stream reads).length ≤ maxHttpRequestBytes ∨
      e + (parseContentLength ((stream reads).take e)).getD 0 + httpBuffer <
        maxHttpRequestBytes + 2 := by
    simp only [Overruns, requestAt, List.length_take, List.length_drop] at hover
    omega
  obtain ⟨p, left, hheader, hp, hep⟩ := readHttpHeader_eq_ok hbare he (by omega) rfl (List.nil_append _)
  have htake : p.take e = (stream reads).take e := by rw [← hp, List.take_append_of_le_length hep]
  obtain ⟨body, hbody, ⟨rest, hrest⟩, hlen'⟩ := readHttpBody_eq_ok hlen hroom hep hp
  have hbytes : (stream reads).drop e = body.drop e ++ rest := by
    rw [← hrest, List.drop_append_of_le_length (by omega)]
  simp only [readHttpRequest, hheader, ok_bind, htake, hbody, requestAt, hbytes]
  rw [if_neg (by omega), List.take_append_of_le_length (by rw [List.length_drop]; omega)]
  rfl

def HttpRead.single (b : UInt8) : HttpRead := ⟨[b], by simp, by simp [httpBuffer]⟩

@[simp] theorem HttpRead.stream_single (bytes : Bytes) : stream (bytes.map single) = bytes := by
  induction bytes with
  | nil => rfl
  | cons b bytes ih => simp [ih, single]

theorem exists_read (request : Bytes) {m k : ℕ} (hmk : m < k) (hk : k ≤ request.length)
    (hread : k ≤ m + httpBuffer) :
    ∃ read : HttpRead, request.take m ++ read.bytes = request.take k ∧
      stream ((request.take m).map single ++ read :: (request.drop k).map single) = request := by
  have hlength : ((request.take k).drop m).length = k - m := by
    rw [List.length_drop, List.length_take]
    omega
  have hjoin : request.take m ++ (request.take k).drop m = request.take k := by
    have hsplit := List.take_append_drop m (request.take k)
    rwa [List.take_take, Nat.min_eq_left hmk.le] at hsplit
  refine ⟨⟨(request.take k).drop m, ?_, by omega⟩, hjoin, ?_⟩
  · rw [← List.length_pos_iff, hlength]
    omega
  · rw [stream_append, stream_cons, stream_single, stream_single, ← List.append_assoc, hjoin,
      List.take_append_drop]

theorem findHeaderEnd_ne_none {done : List HttpRead}
    (he : findHeaderEnd (stream done ++ read.bytes) = some e) (more : List HttpRead) :
    findHeaderEnd (stream (done ++ read :: more)) ≠ none := by
  intro hnone
  rw [stream_append, stream_cons, ← List.append_assoc] at hnone
  rw [findHeaderEnd_none_of_append hnone] at he
  cases he

theorem header_of_readHttpRequest {done rest : List HttpRead}
    (hnone : findHeaderEnd (stream done) = none)
    (he : findHeaderEnd (stream done ++ read.bytes) = some e)
    (h : readHttpRequest parseContentLength (done ++ read :: rest) = .ok r) :
    r = requestAt parseContentLength (stream (done ++ read :: rest)) e := by
  obtain ⟨done', read', more, rest', e', hreads, hnone', he', rfl, -⟩ := of_readHttpRequest h
  obtain ⟨rfl, rfl⟩ : done = done' ∧ read = read' := by
    rcases List.append_eq_append_iff.mp hreads with ⟨as, rfl, hrest⟩ | ⟨as, rfl, hrest⟩
    · cases as with
      | nil => exact ⟨(List.append_nil _).symm, (List.cons.inj hrest).1⟩
      | cons a as =>
        obtain rfl := (List.cons.inj hrest).1
        exact absurd hnone' (findHeaderEnd_ne_none he as)
    · cases as with
      | nil => exact ⟨List.append_nil _, (List.cons.inj hrest).1.symm⟩
      | cons a as =>
        obtain rfl := (List.cons.inj hrest).1
        exact absurd hnone (findHeaderEnd_ne_none he' as)
  rw [he] at he'
  rw [Option.some.inj he']

theorem header_of_all (hall : ∀ reads, stream reads = request →
      readHttpRequest parseContentLength reads = .ok r) {m k : ℕ} (hmk : m < k)
    (hk : k ≤ request.length) (hread : k ≤ m + httpBuffer)
    (hnone : findHeaderEnd (request.take m) = none)
    (he : findHeaderEnd (request.take k) = some e) : r = requestAt parseContentLength request e := by
  obtain ⟨read, hjoin, hstream⟩ := exists_read request hmk hk hread
  have hreturned := header_of_readHttpRequest (e := e) (by rwa [stream_single])
    (by rwa [stream_single, hjoin]) (hall _ hstream)
  rwa [hstream] at hreturned

theorem not_bareBreakFirst (hall : ∀ reads, stream reads = request →
      readHttpRequest parseContentLength reads = .ok r) : ¬ BareBreakFirst request := by
  rintro ⟨bare, full, hbare, hfull, hlt, hnear⟩
  have hle : full ≤ request.length := by
    obtain ⟨i, hi, rfl⟩ := hfull
    exact length_of_windowPosition (by simp) hi
  have htake : ∀ {pattern : Bytes} {k e : ℕ}, pattern ≠ [] → k ≤ request.length →
      (BreakEnds pattern (request.take k) e ↔ BreakEnds pattern request e ∧ e ≤ k) := by
    intro pattern k e hpattern hk
    rw [breakEnds_append hpattern (request.drop k), List.take_append_drop, List.length_take,
      Nat.min_eq_left hk]
  have hpos : 0 < bare := by
    obtain ⟨i, -, rfl⟩ := hbare
    simp
  have hnone : findHeaderEnd (request.take (bare - 1)) = none := by
    refine findHeaderEnd_eq_none.mpr fun e he => ?_
    rcases he with he | he
    · obtain ⟨he, hle⟩ := (htake (by simp) (by omega)).mp he
      have := he.unique hfull
      omega
    · obtain ⟨he, hle⟩ := (htake (by simp) (by omega)).mp he
      have := he.unique hbare
      omega
  -- a read that ends with the bare line against one that brings both
  have hearly : findHeaderEnd (request.take bare) = some bare := by
    refine findHeaderEnd_eq_some.mpr (.inr ⟨fun e he => ?_, (htake (by simp) (by omega)).mpr
      ⟨hbare, le_rfl⟩⟩)
    obtain ⟨he, hle⟩ := (htake (by simp) (by omega)).mp he
    have := he.unique hfull
    omega
  have hlate : findHeaderEnd (request.take full) = some full :=
    findHeaderEnd_eq_some.mpr (.inl ((htake (by simp) hle).mpr ⟨hfull, le_rfl⟩))
  have hshort := header_of_all hall (by omega) (by omega) (by omega) hnone hearly
  have hlong := header_of_all hall (by omega) hle (by omega) hnone hlate
  have hlengths := congrArg (fun r => r.1.length) (hshort.symm.trans hlong)
  simp only [requestAt, List.length_take] at hlengths
  omega

theorem not_overruns (hall : ∀ reads, stream reads = request →
      readHttpRequest parseContentLength reads = .ok r) (hpos : 0 < r.1.length)
    (hfits : r.1.length + r.2.length ≤ maxHttpRequestBytes) : ¬ Overruns request r := by
  rintro ⟨hlong, hnear⟩
  obtain ⟨n, hn⟩ : ∃ n, n = r.1.length + r.2.length := ⟨_, rfl⟩
  rw [← hn] at hfits hnear
  -- a read from before the end of the request to behind the limit
  obtain ⟨read, hjoin, hstream⟩ := exists_read request (m := n - 1)
    (k := maxHttpRequestBytes + 1) (by omega) hlong (by omega)
  obtain ⟨done, read', more, rest, e, hreads, -, -, hr, hlen, hdone⟩ :=
    of_readHttpRequest (hall _ hstream)
  rw [hstream] at hr hlen
  have hread : n ≤ (stream (done ++ read' :: more)).length := by
    refine le_trans ?_ hlen
    rw [hn, hr, requestAt, List.length_take, List.length_take]
    omega
  have hbefore : (stream ((request.take (n - 1)).map single)).length ≤ n - 1 := by
    rw [stream_single, List.length_take]
    omega
  have hafter : (stream ((request.take (n - 1)).map single) ++ read.bytes).length =
      maxHttpRequestBytes + 1 := by
    rw [stream_single, hjoin, List.length_take]
    omega
  rw [← List.cons_append, ← List.append_assoc] at hreads
  rcases List.append_eq_append_iff.mp hreads with ⟨as, has, hrest⟩ | ⟨as, has, hrest⟩
  · cases as with
    | nil =>
      rw [has, List.append_nil] at hread
      omega
    | cons a as =>
      obtain rfl := (List.cons.inj hrest).1
      rw [has, stream_append, stream_cons, ← List.append_assoc, List.length_append, hafter] at hdone
      omega
  · rw [has, stream_append, List.length_append] at hbefore
    omega

/-- **The requests that every sequence of reads returns alike.** -/
theorem readHttpRequest_iff (h : readHttpRequest parseContentLength reads = .ok r) :
    (∀ reads', stream reads' = stream reads → readHttpRequest parseContentLength reads' = .ok r) ↔
      ¬ BareBreakFirst (stream reads) ∧ ¬ Overruns (stream reads) r := by
  obtain ⟨done, read, more, rest, e, hreads, hnone, he, hr, hlen, hfits⟩ := of_readHttpRequest h
  have hprefix : (stream (done ++ read :: more)).length ≤ (stream reads).length := by
    simp [hreads]
  constructor
  · intro hall
    have hpos : 0 < e := by
      rcases findHeaderEnd_eq_some.mp he with ⟨i, -, rfl⟩ | ⟨-, i, -, rfl⟩ <;> simp
    refine ⟨not_bareBreakFirst hall, not_overruns hall ?_ ?_⟩
    all_goals
      rw [hr, requestAt, List.length_take]
      try rw [List.length_take, List.length_drop]
      omega
  · rintro ⟨hbare, hover⟩ reads' hsame
    have hfirst : FirstEnd (stream reads) e := by
      have hstream : stream reads = stream done ++ read.bytes ++ stream (more ++ rest) := by
        simp [hreads]
      rw [hstream] at hbare ⊢
      exact firstEnd_of_findHeaderEnd hbare hnone he
    rw [← hsame] at hbare hfirst hover hr hlen hprefix
    rw [hr] at hover ⊢
    exact readHttpRequest_eq_ok hbare hfirst (hlen.trans hprefix) hover

end Request

/-- **Which messages do not depend on how the network cuts them**: the lines of ASCII characters,
and the requests in which no bare empty line is followed, within one read, by one with carriage
returns, and no read that completes them can reach behind the limit. -/
theorem framing_iff (parseContentLength : Bytes → Option ℕ) :
    (∀ lines : List Bytes, (∀ line ∈ lines, PeerLine line) →
      ((∀ chunks : List Bytes, (∀ chunk ∈ chunks, chunk ≠ []) → chunks.flatten = lines.flatten →
        readP2pLines (lines.length + 1) chunks = .ok lines) ↔
      ∀ line ∈ lines, ∀ b ∈ line, b.toNat < 0x80)) ∧
    ∀ reads r, readHttpRequest parseContentLength reads = .ok r →
      ((∀ reads', HttpRead.stream reads' = HttpRead.stream reads →
        readHttpRequest parseContentLength reads' = .ok r) ↔
      ¬ BareBreakFirst (HttpRead.stream reads) ∧ ¬ Overruns (HttpRead.stream reads) r) :=
  ⟨fun _ => readP2pLines_iff, fun _ _ => readHttpRequest_iff⟩

/-- A letter of two bytes is refused when it arrives in two parts, and a header ends at the first
bare empty line if nothing behind it has arrived. -/
theorem cuts_change_messages :
    readP2pLines 2 [[0xc3, 0xa9, 10]] = .ok [[0xc3, 0xa9, 10]] ∧
    readP2pLines 2 [[0xc3], [0xa9, 10]] = .error "peer message is not valid UTF-8" ∧
    readHttpRequest (fun _ => none) [⟨[65, 10, 10, 13, 10, 13, 10], by decide, by decide⟩] =
      .ok ([65, 10, 10, 13, 10, 13, 10], []) ∧
    readHttpRequest (fun _ => none) [⟨[65, 10, 10], by decide, by decide⟩,
      ⟨[13, 10, 13, 10], by decide, by decide⟩] = .ok ([65, 10, 10], []) := by
  decide +kernel

end Blq
