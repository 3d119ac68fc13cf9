import Mathlib.Data.Char
import Mathlib.Data.List.Basic

namespace Sipl

/-! Texts that are in the order of their characters are in the order of the bytes of their UTF-8
encoding, too: the encodings of two characters differ at a byte that both have, and there the later
character has the larger byte. -/

namespace ByteOrder

/-- At the first place where the lists differ, both have a byte and the first one's is smaller. -/
def Below : List UInt8 → List UInt8 → Prop
  | low :: rest, high :: restToo => low < high ∨ low = high ∧ Below rest restToo
  | _, _ => False

theorem Below.append_lt {first second : List UInt8} (below : Below first second)
    (rest restToo : List UInt8) : first ++ rest < second ++ restToo := by
  fun_induction Below first second with
  | case1 low others high othersToo ih =>
      rw [List.cons_append, List.cons_append, List.cons_lt_cons_iff]
      exact below.imp id fun equal => ⟨equal.1, ih equal.2⟩
  | case2 => exact below.elim

variable {low high : Nat}

theorem ofNat_lt_iff (small : low < 256) (smallToo : high < 256) :
    UInt8.ofNat low < UInt8.ofNat high ↔ low < high := by
  rw [UInt8.lt_iff_toNat_lt, UInt8.toNat_ofNat', UInt8.toNat_ofNat', Nat.mod_eq_of_lt small,
    Nat.mod_eq_of_lt smallToo]

theorem ofNat_eq_iff (small : low < 256) (smallToo : high < 256) :
    UInt8.ofNat low = UInt8.ofNat high ↔ low = high := by
  rw [← UInt8.toNat_inj, UInt8.toNat_ofNat', UInt8.toNat_ofNat', Nat.mod_eq_of_lt small,
    Nat.mod_eq_of_lt smallToo]

theorem below_utf8EncodeChar {char other : Char} (before : char < other) :
    Below (String.utf8EncodeChar char) (String.utf8EncodeChar other) := by
  have below : char.val.toNat < other.val.toNat := before
  have bound : other.val.toNat < 0x110000 := by
    have valid := other.valid
    unfold UInt32.isValidChar Nat.isValidChar at valid
    omega
  unfold String.utf8EncodeChar
  dsimp only
  generalize char.val.toNat = code at *
  generalize other.val.toNat = later at *
  -- The digits of a code in base 64, from the last one on; there are at most four of them.
  have digits {code : Nat} (small : code < 0x110000) : code / 64 / 64 = code / 4096 ∧
      code / 4096 / 64 = code / 262144 ∧ code / 262144 % 8 = code / 262144 := by omega
  have own := digits (Nat.lt_trans below bound)
  have others := digits bound
  split_ifs <;>
    simp (disch := omega) only [Below, ofNat_lt_iff, ofNat_eq_iff, and_false, or_false] <;>
    omega

end ByteOrder

/-- The bytes that a text is written as in UTF-8. -/
def bytes (text : String) : List UInt8 := text.toUTF8.data.toList

theorem bytes_eq_flatMap (text : String) :
    bytes text = text.toList.flatMap String.utf8EncodeChar := by
  have encoded := @String.toByteArray_ofList text.toList
  rw [String.ofList_toList] at encoded
  rw [bytes, String.toUTF8, encoded, List.utf8Encode, List.toList_data_toByteArray]

theorem bytes_lt_bytes {text other : String} (before : text < other) :
    bytes text < bytes other := by
  rw [bytes_eq_flatMap, bytes_eq_flatMap]
  rw [String.lt_iff] at before
  generalize text.toList = chars at before ⊢
  generalize other.toList = others at before ⊢
  induction chars generalizing others with
  | nil =>
      cases others with
      | nil => cases before
      | cons char others =>
          obtain ⟨first, rest, encoded⟩ :=
            List.exists_cons_of_ne_nil (@String.utf8EncodeChar_ne_nil char)
          rw [List.flatMap_cons, encoded]
          exact List.nil_lt_cons ..
  | cons char chars ih =>
      cases others with
      | nil => cases before
      | cons next others =>
          rw [List.flatMap_cons, List.flatMap_cons]
          rcases List.cons_lt_cons_iff.mp before with below | ⟨rfl, behind⟩
          · exact (ByteOrder.below_utf8EncodeChar below).append_lt _ _
          · exact List.append_left_lt (ih others behind)

end Sipl
