import Blq.Word.Bytes

/-!
# Recursive length prefix encoding

An item is a byte string or a list of items. `encode` is the canonical encoding: a single
byte below `0x80` stands for itself, every other item starts with a header that carries its
length in the shortest form. An unsigned integer is the string of its bytes without leading
zeros.

* `lengthBytes_length`, `ofBeBytes_lengthBytes`: what a long header carries.
-/

namespace Blq.Rlp

open Word

/-- The bytes of a length in a long header. Lengths are machine words. -/
def lengthBytes (len : ℕ) : Bytes := stripZeros (toBeBytes 8 len)

def header (offset : UInt8) (len : ℕ) : Bytes :=
  if len < 56 then [offset + UInt8.ofNat len]
  else (offset + 55 + UInt8.ofNat (lengthBytes len).length) :: lengthBytes len

def encodeString (bs : Bytes) : Bytes :=
  if bs.length = 1 ∧ bs.headD 0 < 0x80 then bs else header 0x80 bs.length ++ bs

def encodeList (payload : Bytes) : Bytes := header 0xc0 payload.length ++ payload

inductive Item where
  | str (bs : Bytes)
  | list (items : List Item)

mutual

def Item.encode : Item → Bytes
  | .str bs => encodeString bs
  | .list items => encodeList (encodeItems items)

def encodeItems : List Item → Bytes
  | [] => []
  | item :: items => item.encode ++ encodeItems items

end

namespace Item

def isList : Item → Bool
  | str _ => false
  | list _ => true

def payload : Item → Bytes
  | str bs => bs
  | list items => encodeItems items

/-- A string that does not start with a zero byte. -/
def Minimal : Item → Prop
  | str bs => bs.head? ≠ some 0
  | list _ => False

end Item

theorem lengthBytes_length {len : ℕ} (h : 56 ≤ len) (hlt : len < 2 ^ 64) :
    1 ≤ (lengthBytes len).length ∧ (lengthBytes len).length ≤ 8 := by
  constructor
  · by_contra hzero
    have hnil : lengthBytes len = [] := List.length_eq_zero_iff.mp (by omega)
    have hvalue : ofBeBytes (lengthBytes len) = len := by
      rw [lengthBytes, ofBeBytes_stripZeros, ofBeBytes_toBeBytes_of_lt (by omega)]
    rw [hnil, ofBeBytes_nil] at hvalue
    omega
  · have hle := (List.dropWhile_suffix (· == (0 : UInt8)) (l := toBeBytes 8 len)).length_le
    rwa [length_toBeBytes] at hle

theorem ofBeBytes_lengthBytes {len : ℕ} (hlt : len < 2 ^ 64) :
    ofBeBytes (lengthBytes len) = len := by
  rw [lengthBytes, ofBeBytes_stripZeros, ofBeBytes_toBeBytes_of_lt (by omega)]

theorem encode_ne_nil (item : Item) : item.encode ≠ [] := by
  have hheader : ∀ offset len, header offset len ≠ [] := by
    intro offset len
    unfold header
    split <;> simp
  cases item with
  | str bs =>
    rw [Item.encode, encodeString]
    split
    · next h =>
      intro hnil
      rw [hnil] at h
      simp at h
    · simp [hheader]
  | list items =>
    rw [Item.encode, encodeList]
    simp [hheader]

theorem payload_length_le (item : Item) : item.payload.length ≤ item.encode.length := by
  cases item with
  | str bs =>
    rw [Item.encode, encodeString, Item.payload]
    split
    · exact le_rfl
    · simp
  | list items =>
    rw [Item.encode, encodeList, Item.payload]
    simp

theorem encodeItems_map {α : Type} (f : α → Item) (l : List α) :
    encodeItems (l.map f) = (l.map fun a => (f a).encode).flatten := by
  induction l with
  | nil => rw [List.map_nil, encodeItems, List.map_nil, List.flatten_nil]
  | cons a l ih => rw [List.map_cons, encodeItems, ih, List.map_cons, List.flatten_cons]

end Blq.Rlp
