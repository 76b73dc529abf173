import Mathlib

/-! # The order of texts by their bytes

    Texts are compared character by character, and files hold them byte by byte. Both orders
    agree:

    * **`utf8EncodeChar_append_lt`**: of two characters, the greater one has the greater bytes,
      whatever stands behind them.
    * **`bytes_lt_bytes`**: a text that comes before another one has lesser bytes.

    The bytes of a character are the digits of its number with a mark on each of them. The mark of
    the first byte grows with the number of bytes, so that characters of different lengths are told
    apart there.
-/

namespace TaggedUnion.Text

/-- The bytes of a text in a file. -/
def bytes (text : String) : List UInt8 := text.toUTF8.data.toList

theorem bytes_eq_flatMap (text : String) :
    bytes text = text.toList.flatMap String.utf8EncodeChar := by
  have hencode : text.toUTF8 = (text.toList.flatMap String.utf8EncodeChar).toByteArray := by
    rw [String.toUTF8_eq_toByteArray, ← String.utf8Encode_toList]
    rfl
  rw [bytes, hencode, List.toList_data_toByteArray]

theorem utf8EncodeChar_append_lt {c d : Char} (h : c < d) (xs ys : List UInt8) :
    String.utf8EncodeChar c ++ xs < String.utf8EncodeChar d ++ ys := by
  have hlt : c.val.toNat < d.val.toNat := h
  have hlast : d.val.toNat < 0x110000 := by
    rcases d.valid with hvalid | hvalid <;> omega
  unfold String.utf8EncodeChar
  dsimp only
  -- One case for each pair of lengths; the first bytes that differ decide.
  split_ifs <;>
    simp only [List.cons_append, List.cons_lt_cons_iff, UInt8.lt_iff_toNat_lt, ← UInt8.toNat_inj,
      UInt8.toNat_ofNat'] <;>
    simp (disch := omega) only [Nat.mod_eq_of_lt] <;>
    omega

theorem flatMap_utf8EncodeChar_lt {cs ds : List Char} (h : cs < ds) :
    cs.flatMap String.utf8EncodeChar < ds.flatMap String.utf8EncodeChar := by
  induction cs generalizing ds with
  | nil =>
    cases ds with
    | nil => cases h
    | cons d ds =>
      obtain ⟨b, bs, hbytes⟩ := List.exists_cons_of_ne_nil (String.utf8EncodeChar_ne_nil (c := d))
      rw [List.flatMap_nil, List.flatMap_cons, hbytes]
      exact List.nil_lt_cons _ _
  | cons c cs ih =>
    cases ds with
    | nil => cases h
    | cons d ds =>
      rw [List.flatMap_cons, List.flatMap_cons]
      rcases List.cons_lt_cons_iff.mp h with hlt | ⟨rfl, htail⟩
      · exact utf8EncodeChar_append_lt hlt _ _
      · exact List.append_left_lt (ih htail)

theorem bytes_lt_bytes {a b : String} (h : a < b) : bytes a < bytes b := by
  rw [bytes_eq_flatMap, bytes_eq_flatMap]
  exact flatMap_utf8EncodeChar_lt (String.lt_iff_toList_lt.mp h)

end TaggedUnion.Text
