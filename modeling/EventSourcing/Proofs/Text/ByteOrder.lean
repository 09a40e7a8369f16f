import Mathlib.Tactic.SplitIfs
import EventSourcing.Text.Bytes

/-!
The order of texts.
Texts are ordered by their characters. That is the order of their bytes in UTF-8: the first byte of a
character says how many follow, more for a greater character, and those of one length hold the digits
of the character in base 64, greatest first.
-/
namespace EventSourcing.Text

/-- The bytes of a text in UTF-8. -/
def bytes (s : String) : List UInt8 := s.toUTF8.data.toList

theorem bytes_eq (s : String) : bytes s = s.toList.flatMap String.utf8EncodeChar := by
  rw [bytes, String.toUTF8_eq_toByteArray, ← String.utf8Encode_toList, List.utf8Encode,
    List.toList_data_toByteArray]

/-- Of two characters the lesser has the lesser bytes, whatever follows. -/
theorem encode_lt_encode {c d : Char} (h : c < d) (xs ys : List UInt8) :
    String.utf8EncodeChar c ++ xs < String.utf8EncodeChar d ++ ys := by
  have less : c.val.toNat < d.val.toNat := h
  have bound : d.val.toNat < 0x110000 := by
    obtain low | high := d.valid <;> omega
  unfold String.utf8EncodeChar
  generalize c.val.toNat = v at less ⊢
  generalize d.val.toNat = w at less bound ⊢
  dsimp only
  split_ifs <;>
    simp (disch := omega) only [List.cons_append, List.nil_append, List.cons_lt_cons_iff,
      UInt8.lt_iff_toNat_lt, ← UInt8.toNat_inj, UInt8.toNat_ofNat', Nat.mod_eq_of_lt] <;>
    omega

theorem append_lt_append_iff (init xs ys : List UInt8) : init ++ xs < init ++ ys ↔ xs < ys := by
  induction init with
  | nil => rfl
  | cons b rest ih => rw [List.cons_append, List.cons_append, List.cons_lt_cons_self, ih]

theorem encodes_lt_encodes_iff (cs ds : List Char) :
    cs.flatMap String.utf8EncodeChar < ds.flatMap String.utf8EncodeChar ↔ cs < ds := by
  induction cs generalizing ds with
  | nil =>
      cases ds with
      | nil => simp
      | cons d ds =>
          refine iff_of_true ?_ (List.nil_lt_cons ..)
          rw [List.flatMap_cons, List.flatMap_nil]
          obtain ⟨b, bs, hb⟩ := List.exists_cons_of_ne_nil (String.utf8EncodeChar_ne_nil (c := d))
          rw [hb, List.cons_append]
          exact List.nil_lt_cons ..
  | cons c cs ih =>
      cases ds with
      | nil => simp
      | cons d ds =>
          rw [List.flatMap_cons, List.flatMap_cons, List.cons_lt_cons_iff]
          obtain less | same | more := Nat.lt_trichotomy c.toNat d.toNat
          · exact iff_of_true (encode_lt_encode less _ _) (.inl less)
          · obtain rfl := Char.toNat_inj.1 same
            rw [append_lt_append_iff, ih]
            simp
          · have back := encode_lt_encode (c := d) (d := c) more
              (ds.flatMap String.utf8EncodeChar) (cs.flatMap String.utf8EncodeChar)
            refine iff_of_false (List.lt_asymm back) ?_
            rintro (less | ⟨rfl, _⟩)
            · exact Nat.lt_asymm less more
            · exact Nat.lt_irrefl _ more

/-- A text comes before another where its bytes do. -/
theorem lt_iff_bytes_lt (s t : String) : s < t ↔ bytes s < bytes t := by
  rw [bytes_eq, bytes_eq, encodes_lt_encodes_iff]
  rfl

end EventSourcing.Text
