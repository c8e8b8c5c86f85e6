import Mathlib.Data.List.Basic
import Mathlib.Data.List.Range
import Mathlib.Tactic.Common

/-!
# A cursor over numbered items

A reader of a growing sequence that keeps the last number it has read and nothing else. Each time it
reads on it takes the items from there to the end. What has been read covers the sequence as long as
nothing up to the cursor is replaced.

* `Covers.keep`: changes above the cursor leave the cover.
* `Covers.advance`: reading on covers the sequence up to its end.
-/

namespace Cursor

variable {ι : Type} {number : ι → ℕ} {find find' : ℕ → Option ι} {start last : ℕ} {items : List ι}

/-- The items are those between two numbers, each of them once, in order; `find` is the sequence. -/
structure Covers (number : ι → ℕ) (find : ℕ → Option ι) (start last : ℕ) (items : List ι) : Prop where
  ascending : items.Pairwise fun earlier later => number earlier < number later
  range : ∀ item ∈ items, start < number item ∧ number item ≤ last
  complete : ∀ n item, start < n → n ≤ last → find n = some item → item ∈ items

theorem Covers.empty (start : ℕ) : Covers number find start start [] where
  ascending := List.Pairwise.nil
  range := by simp
  complete n item hstart hlast _ := by omega

theorem Covers.keep (h : Covers number find start last items)
    (hkeep : ∀ n item, n ≤ last → find' n = some item → find n = some item) :
    Covers number find' start last items where
  ascending := h.ascending
  range := h.range
  complete n item hstart hlast hfind := h.complete n item hstart hlast (hkeep n item hlast hfind)

/-- The items between two numbers. -/
def between (find : ℕ → Option ι) (first last : ℕ) : List ι :=
  (List.range' first (last + 1 - first)).filterMap find

theorem mem_between {first : ℕ} {item : ι} :
    item ∈ between find first last ↔ ∃ n, first ≤ n ∧ n ≤ last ∧ find n = some item := by
  unfold between
  rw [List.mem_filterMap]
  constructor
  · rintro ⟨n, hn, hfind⟩
    obtain ⟨hfirst, hlast⟩ := List.mem_range'_1.mp hn
    exact ⟨n, hfirst, by omega, hfind⟩
  · rintro ⟨n, hfirst, hlast, hfind⟩
    exact ⟨n, List.mem_range'_1.mpr ⟨hfirst, by omega⟩, hfind⟩

theorem pairwise_between (hnumber : ∀ n item, find n = some item → number item = n) (first last : ℕ) :
    (between find first last).Pairwise fun earlier later => number earlier < number later := by
  unfold between
  rw [List.pairwise_filterMap]
  have hsorted : (List.range' first (last + 1 - first)).Pairwise (· < ·) := List.pairwise_lt_range'
  refine hsorted.imp ?_
  intro a b hlt x hx y hy
  rw [hnumber a x hx, hnumber b y hy]
  exact hlt

/-- **Reading on** from the cursor. -/
theorem Covers.advance (h : Covers number find start last items) (hstart : start ≤ last)
    (hnumber : ∀ n item, find n = some item → number item = n) {latest : ℕ} (hlatest : last ≤ latest) :
    Covers number find start latest (items ++ between find (last + 1) latest) where
  ascending := by
    rw [List.pairwise_append]
    refine ⟨h.ascending, pairwise_between hnumber _ _, fun earlier hearlier later hlater => ?_⟩
    obtain ⟨n, hfirst, -, hfind⟩ := mem_between.mp hlater
    have hrange := (h.range earlier hearlier).2
    rw [hnumber n later hfind]
    omega
  range item hitem := by
    rcases List.mem_append.mp hitem with hold | hnew
    · have hrange := h.range item hold
      omega
    · obtain ⟨n, hfirst, hlast, hfind⟩ := mem_between.mp hnew
      rw [hnumber n item hfind]
      omega
  complete n item hn hle hfind := by
    by_cases hold : n ≤ last
    · exact List.mem_append_left _ (h.complete n item hn hold hfind)
    · exact List.mem_append_right _ (mem_between.mpr ⟨n, by omega, hle, hfind⟩)

end Cursor
