import Blq.Word.Bytes
import Mathlib.Data.Nat.Digits.Defs

/-!
# Compact JSON texts

Values are written without blanks: numbers in decimal, strings with the short escapes, byte strings
as arrays of numbers. The lemmas are about lengths, and about texts of printable characters, which
hold no line break and need no decoding.

* `length_array`, `length_object`, `length_string`: the length of a text from those of its parts.
* `plain_array`, `plain_object`: texts of printable parts are printable.
* `utf8Valid_of_ascii`: ASCII text is UTF-8 wherever it is cut.
-/

namespace Blq.Json

open Word

/-! ## Texts -/

/-- A character inside a string. -/
def escape (c : Char) : Bytes :=
  if c = '"' then [92, 34] else if c = '\\' then [92, 92]
  else if c.toNat = 8 then [92, 98] else if c.toNat = 9 then [92, 116]
  else if c.toNat = 10 then [92, 110] else if c.toNat = 12 then [92, 102]
  else if c.toNat = 13 then [92, 114]
  else if c.toNat < 32 then
    [92, 117, 48, 48, UInt8.ofNat (Nat.digitChar (c.toNat / 16)).toNat,
      UInt8.ofNat (Nat.digitChar (c.toNat % 16)).toNat]
  else String.utf8EncodeChar c

def string (text : List Char) : Bytes := 34 :: (text.flatMap escape ++ [34])

def number (n : ℕ) : Bytes := (Nat.toDigits 10 n).map fun c => UInt8.ofNat c.toNat

def bool (b : Bool) : Bytes := if b then [116, 114, 117, 101] else [102, 97, 108, 115, 101]

def null : Bytes := [110, 117, 108, 108]

def array (items : List Bytes) : Bytes := 91 :: ([44].intercalate items ++ [93])

def object (fields : List (String × Bytes)) : Bytes :=
  123 :: ([44].intercalate (fields.map fun field => string field.1.toList ++ 58 :: field.2) ++
    [125])

def bytes (bs : Bytes) : Bytes := array (bs.map fun b => number b.toNat)

/-! ## Lengths -/

/-- The decimal digits of a number. -/
def width (n : ℕ) : ℕ := (Nat.toDigits 10 n).length

@[simp] theorem length_number (n : ℕ) : (number n).length = width n := List.length_map ..

/-- The length of a list in brackets, from those of its items. -/
def listLength (lengths : List ℕ) : ℕ := 2 + lengths.sum + (lengths.length - 1)

theorem length_intercalate (items : List Bytes) :
    ([44].intercalate items).length = (items.map List.length).sum + (items.length - 1) := by
  induction items with
  | nil => rfl
  | cons item items ih =>
    cases items with
    | nil => simp
    | cons next rest =>
      rw [List.intercalate_cons_cons, List.length_append, List.length_append, ih]
      simp only [List.map_cons, List.sum_cons, List.length_cons, List.length_nil]
      omega

theorem length_array (items : List Bytes) :
    (array items).length = listLength (items.map List.length) := by
  unfold array listLength
  rw [List.length_cons, List.length_append, length_intercalate, List.length_singleton,
    List.length_map]
  omega

/-- Of an object with the given names, every field counts its colon and the comma or brace after it. -/
theorem length_object {fields : List (String × Bytes)} (names : ℕ) (hfields : fields ≠ [])
    (hnames : (fields.map fun field => (string field.1.toList).length + 2).sum = names) :
    (object fields).length = 1 + names + (fields.map fun field => field.2.length).sum := by
  have hsum : ∀ fields : List (String × Bytes),
      ((fields.map fun field => string field.1.toList ++ 58 :: field.2).map List.length).sum +
        fields.length = (fields.map fun field => (string field.1.toList).length + 2).sum +
          (fields.map fun field => field.2.length).sum := by
    intro fields
    induction fields with
    | nil => rfl
    | cons field fields ih =>
      simp only [List.map_cons, List.sum_cons, List.length_append, List.length_cons] at ih ⊢
      omega
  have hlength := hsum fields
  have hpos := List.length_pos_iff.mpr hfields
  unfold object
  rw [List.length_cons, List.length_append, length_intercalate, List.length_singleton,
    List.length_map]
  omega

/-- A character that is written as it is. -/
def PlainChar (c : Char) : Prop := 32 ≤ c.toNat ∧ c.toNat < 127 ∧ c ≠ '"' ∧ c ≠ '\\'

instance (c : Char) : Decidable (PlainChar c) := inferInstanceAs (Decidable (_ ∧ _ ∧ _ ∧ _))

instance (text : List Char) : Decidable (∀ c ∈ text, PlainChar c) := List.decidableBAll PlainChar text

theorem escape_of_plainChar {c : Char} (h : PlainChar c) : escape c = [UInt8.ofNat c.toNat] := by
  obtain ⟨hlow, hhigh, hquote, hback⟩ := h
  unfold escape
  rw [if_neg hquote, if_neg hback, if_neg (by omega), if_neg (by omega), if_neg (by omega),
    if_neg (by omega), if_neg (by omega), if_neg (by omega)]
  have hval : c.val.toNat ≤ 127 := by
    show c.toNat ≤ 127
    omega
  exact if_pos hval

variable {text : List Char}

theorem flatMap_escape (h : ∀ c ∈ text, PlainChar c) :
    text.flatMap escape = text.map fun c => UInt8.ofNat c.toNat := by
  induction text with
  | nil => rfl
  | cons c text ih =>
    rw [List.forall_mem_cons] at h
    rw [List.flatMap_cons, ih h.2, escape_of_plainChar h.1]
    rfl

theorem length_string (h : ∀ c ∈ text, PlainChar c) : (string text).length = text.length + 2 := by
  unfold string
  rw [List.length_cons, List.length_append, flatMap_escape h, List.length_map,
    List.length_singleton]

def bytesLength (bs : Bytes) : ℕ := listLength (bs.map fun b => width b.toNat)

@[simp] theorem length_bytes (bs : Bytes) : (bytes bs).length = bytesLength bs := by
  unfold bytes bytesLength
  rw [length_array, List.map_map]
  have hnumber : (List.length ∘ fun b : UInt8 => number b.toNat) = fun b => width b.toNat := by
    funext b
    exact length_number _
  rw [hnumber]

theorem bytesLength_replicate (n : ℕ) (b : UInt8) :
    bytesLength (List.replicate n b) = 2 + n * width b.toNat + (n - 1) := by
  unfold bytesLength listLength
  rw [List.map_replicate, List.sum_replicate, List.length_replicate, smul_eq_mul]

/-! ## Printable texts -/

/-- Only printable ASCII characters. -/
def Plain (bs : Bytes) : Prop := ∀ b ∈ bs, 32 ≤ b.toNat ∧ b.toNat < 127

instance (bs : Bytes) : Decidable (Plain bs) :=
  List.decidableBAll (fun b : UInt8 => 32 ≤ b.toNat ∧ b.toNat < 127) bs

theorem Plain.append {bs bs' : Bytes} (h : Plain bs) (h' : Plain bs') : Plain (bs ++ bs') := by
  intro b hb
  rcases List.mem_append.mp hb with hb | hb
  · exact h b hb
  · exact h' b hb

theorem plainChar_of_mem_toDigits {n : ℕ} {c : Char} (h : c ∈ Nat.toDigits 10 n) : PlainChar c := by
  have hdigit := Nat.isDigit_of_mem_toDigits (by omega) le_rfl h
  obtain ⟨hlow, hhigh⟩ : 48 ≤ c.toNat ∧ c.toNat ≤ 57 := by
    simpa [Char.isDigit, UInt32.le_iff_toNat_le] using hdigit
  -- neither the quotation mark, 34, nor the backslash, 92, is a digit
  refine ⟨by omega, by omega, ?_, ?_⟩
  · rintro rfl
    exact absurd hlow (by decide)
  · rintro rfl
    exact absurd hhigh (by decide)

theorem plain_map (h : ∀ c ∈ text, PlainChar c) :
    Plain (text.map fun c => UInt8.ofNat c.toNat) := by
  intro b hb
  obtain ⟨c, hc, rfl⟩ := List.mem_map.mp hb
  obtain ⟨hlow, hhigh, -⟩ := h c hc
  rw [UInt8.toNat_ofNat', Nat.mod_eq_of_lt (by omega)]
  exact ⟨hlow, hhigh⟩

@[simp] theorem plain_number (n : ℕ) : Plain (number n) := plain_map fun _ hc => plainChar_of_mem_toDigits hc

theorem plain_string (h : ∀ c ∈ text, PlainChar c) : Plain (string text) := by
  unfold string
  rw [flatMap_escape h]
  have hquote : Plain [34] := by decide
  exact hquote.append ((plain_map h).append hquote)

@[simp] theorem plain_bool (b : Bool) : Plain (bool b) := by
  cases b <;> decide

theorem plain_null : Plain null := by decide

theorem plain_intercalate {items : List Bytes} (h : ∀ item ∈ items, Plain item) :
    Plain ([44].intercalate items) := by
  have hcomma : Plain [44] := by decide
  induction items with
  | nil => exact fun b hb => absurd hb List.not_mem_nil
  | cons item items ih =>
    obtain ⟨hitem, hrest⟩ := List.forall_mem_cons.mp h
    cases items with
    | nil => simpa using hitem
    | cons next rest =>
      rw [List.intercalate_cons_cons]
      exact (hitem.append hcomma).append (ih hrest)

theorem plain_array {items : List Bytes} (h : ∀ item ∈ items, Plain item) : Plain (array items) := by
  have hopen : Plain [91] := by decide
  have hclose : Plain [93] := by decide
  exact hopen.append ((plain_intercalate h).append hclose)

/-- A field whose name and value are printable. -/
def PlainField (field : String × Bytes) : Prop :=
  (∀ c ∈ field.1.toList, PlainChar c) ∧ Plain field.2

theorem plain_object {fields : List (String × Bytes)} (h : ∀ field ∈ fields, PlainField field) :
    Plain (object fields) := by
  have hopen : Plain [123] := by decide
  have hclose : Plain [125] := by decide
  have hcolon : Plain [58] := by decide
  refine hopen.append ((plain_intercalate fun item hitem => ?_).append hclose)
  obtain ⟨field, hfield, rfl⟩ := List.mem_map.mp hitem
  obtain ⟨hname, hvalue⟩ := h field hfield
  exact (plain_string hname).append (hcolon.append hvalue)

@[simp] theorem plain_bytes (bs : Bytes) : Plain (bytes bs) := by
  refine plain_array fun item hitem => ?_
  obtain ⟨b, -, rfl⟩ := List.mem_map.mp hitem
  exact plain_number _

/-! ## UTF-8 -/

/-- A continuation byte. -/
def isTail (b : UInt8) : Bool := decide (0x80 ≤ b.toNat ∧ b.toNat ≤ 0xbf)

/-- The second byte that may follow a first one of three or four. -/
def secondAllowed (first second : UInt8) : Bool :=
  if first = 0xe0 then decide (0xa0 ≤ second.toNat ∧ second.toNat ≤ 0xbf)
  else if first = 0xed then decide (0x80 ≤ second.toNat ∧ second.toNat ≤ 0x9f)
  else if first = 0xf0 then decide (0x90 ≤ second.toNat ∧ second.toNat ≤ 0xbf)
  else if first = 0xf4 then decide (0x80 ≤ second.toNat ∧ second.toNat ≤ 0x8f)
  else isTail second

def utf8Valid : Bytes → Bool
  | [] => true
  | first :: rest =>
    if first.toNat < 0x80 then utf8Valid rest
    else if 0xc2 ≤ first.toNat ∧ first.toNat ≤ 0xdf then
      match rest with
      | second :: rest => isTail second && utf8Valid rest
      | _ => false
    else if 0xe0 ≤ first.toNat ∧ first.toNat ≤ 0xef then
      match rest with
      | second :: third :: rest => secondAllowed first second && isTail third && utf8Valid rest
      | _ => false
    else if 0xf0 ≤ first.toNat ∧ first.toNat ≤ 0xf4 then
      match rest with
      | second :: third :: fourth :: rest =>
        secondAllowed first second && isTail third && isTail fourth && utf8Valid rest
      | _ => false
    else false

/-- **ASCII text is UTF-8**, wherever it is cut. -/
theorem utf8Valid_of_ascii {bs : Bytes} (h : ∀ b ∈ bs, b.toNat < 0x80) : utf8Valid bs = true := by
  induction bs with
  | nil => rfl
  | cons b bs ih =>
    obtain ⟨hb, hbs⟩ := List.forall_mem_cons.mp h
    unfold utf8Valid
    rw [if_pos hb]
    exact ih hbs

end Blq.Json
