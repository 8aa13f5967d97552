import Mathlib.Algebra.Order.Ring.Nat

/-!
# Bytes of strings

Go strings are sequences of bytes, and slicing cuts them anywhere.  Texts are Lean strings; what is
made of their bytes is a list of bytes, which may not be valid UTF-8 any more.
-/

namespace Go

open List

def utf8 (s : String) : List UInt8 := s.toByteArray.data.toList

def ValidUtf8 (b : List UInt8) : Prop := b.toByteArray.IsValidUTF8

instance (b : List UInt8) : Decidable (ValidUtf8 b) :=
  decidable_of_iff _ ByteArray.validateUTF8_eq_true_iff

variable {s t : String} {x y : List UInt8} {n : ℕ}

theorem toByteArray_utf8 (s : String) : (utf8 s).toByteArray = s.toByteArray := by
  refine ByteArray.ext ?_
  rw [data_toByteArray, utf8]

theorem utf8_inj : utf8 s = utf8 t ↔ s = t := by
  rw [← toByteArray_inj, toByteArray_utf8, toByteArray_utf8, String.toByteArray_inj]

theorem length_utf8 (s : String) : (utf8 s).length = s.utf8ByteSize := by
  rw [← size_toByteArray, toByteArray_utf8, String.size_toByteArray]

theorem utf8_append (s t : String) : utf8 (s ++ t) = utf8 s ++ utf8 t := by
  rw [← toByteArray_inj, toByteArray_append]
  simp [toByteArray_utf8]

theorem validUtf8_utf8 (s : String) : ValidUtf8 (utf8 s) := by
  rw [ValidUtf8, toByteArray_utf8]
  exact s.isValidUTF8

theorem validUtf8_iff : ValidUtf8 x ↔ ∃ s, x = utf8 s := by
  constructor
  · intro h
    refine ⟨⟨x.toByteArray, h⟩, ?_⟩
    rw [utf8, toList_data_toByteArray]
  · rintro ⟨s, rfl⟩
    exact validUtf8_utf8 s

theorem ValidUtf8.append (hx : ValidUtf8 x) (hy : ValidUtf8 y) : ValidUtf8 (x ++ y) := by
  rw [ValidUtf8, toByteArray_append]
  exact ByteArray.IsValidUTF8.append hx hy

theorem utf8ByteSize_eq_sum (s : String) : s.utf8ByteSize = (s.toList.map Char.utf8Size).sum := by
  have hlist : ∀ l : List Char, (String.ofList l).utf8ByteSize = (l.map Char.utf8Size).sum := by
    intro l
    induction l with
    | nil => rfl
    | cons c l ih =>
      have hcons : String.ofList (c :: l) = String.singleton c ++ String.ofList l := by
        simp
      rw [hcons, String.utf8ByteSize_append, String.utf8ByteSize_singleton, ih, map_cons,
        sum_cons]
  rw [← hlist, String.ofList_toList]

theorem utf8_eq_nil_iff : utf8 s = [] ↔ s = "" := by
  rw [← length_eq_zero_iff, length_utf8, String.utf8ByteSize_eq_zero_iff]

/-! ## Cuts -/

theorem isValid_iff (h : utf8 s = x ++ y) :
    (String.Pos.Raw.IsValid s ⟨x.length⟩ ↔ ValidUtf8 x) ∧
      (String.Pos.Raw.IsValid s ⟨x.length⟩ ↔ ValidUtf8 y) := by
  have hbytes : s.toByteArray = x.toByteArray ++ y.toByteArray := by
    rw [← toByteArray_utf8, h, toByteArray_append]
  have hsize : s.utf8ByteSize = x.toByteArray.size + y.toByteArray.size := by
    rw [← String.size_toByteArray, hbytes, ByteArray.size_append]
  have hle : (⟨x.length⟩ : String.Pos.Raw) ≤ s.rawEndPos := by
    rw [String.Pos.Raw.le_iff, String.byteIdx_rawEndPos, hsize, size_toByteArray]
    exact Nat.le_add_right _ _
  rw [ValidUtf8, ValidUtf8]
  constructor
  · rw [String.Pos.Raw.isValid_iff_isValidUTF8_extract_zero, and_iff_right hle, hbytes,
      ByteArray.extract_append_eq_left size_toByteArray.symm]
  · rw [String.Pos.Raw.isValid_iff_isValidUTF8_extract_utf8ByteSize, and_iff_right hle, hbytes, hsize,
      ByteArray.extract_append_eq_right size_toByteArray.symm rfl]

theorem ValidUtf8.left_iff_right (h : ValidUtf8 (x ++ y)) : ValidUtf8 x ↔ ValidUtf8 y := by
  obtain ⟨s, hs⟩ := validUtf8_iff.1 h
  exact (isValid_iff hs.symm).1.symm.trans (isValid_iff hs.symm).2

theorem validUtf8_append_text (s : String) : ValidUtf8 (x ++ utf8 s) ↔ ValidUtf8 x :=
  ⟨fun h => h.left_iff_right.2 (validUtf8_utf8 s), fun h => h.append (validUtf8_utf8 s)⟩

theorem validUtf8_text_append (s : String) : ValidUtf8 (utf8 s ++ y) ↔ ValidUtf8 y :=
  ⟨fun h => h.left_iff_right.1 (validUtf8_utf8 s), fun h => (validUtf8_utf8 s).append h⟩

theorem validUtf8_append_text_append (ht : t ≠ "") :
    ValidUtf8 (x ++ (utf8 t ++ y)) ↔ ValidUtf8 x ∧ ValidUtf8 y := by
  refine ⟨fun h => ?_, fun h => h.1.append ((validUtf8_text_append t).2 h.2)⟩
  obtain ⟨s, hs⟩ := validUtf8_iff.1 h
  -- the text begins with the first byte of a character, so there is one before and one behind it
  have hpos : String.Pos.Raw.IsValid s ⟨x.length⟩ := by
    have hbytes : s.toByteArray = x.toByteArray ++ (t.toByteArray ++ y.toByteArray) := by
      rw [← toByteArray_utf8, ← hs, toByteArray_append, toByteArray_append, toByteArray_utf8]
    have hpos : 0 < t.toByteArray.size := by
      rw [Nat.pos_iff_ne_zero]
      exact fun hzero => ht (String.utf8ByteSize_eq_zero_iff.1 hzero)
    have hsize : s.utf8ByteSize = x.length + (t.toByteArray.size + y.toByteArray.size) := by
      rw [← String.size_toByteArray, hbytes, ByteArray.size_append, ByteArray.size_append,
        size_toByteArray]
    have hlt : (⟨x.length⟩ : String.Pos.Raw) < s.rawEndPos := by
      rw [String.Pos.Raw.lt_iff, String.byteIdx_rawEndPos]
      show x.length < _
      omega
    rw [String.Pos.Raw.isValid_iff_isUTF8FirstByte]
    refine .inr ⟨hlt, ?_⟩
    have hbyte : s.getUTF8Byte ⟨x.length⟩ hlt = t.toByteArray[0] := by
      simp only [String.getUTF8Byte, hbytes]
      rw [ByteArray.getElem_append_right (by simp)]
      simp [ByteArray.getElem_append_left hpos]
    rw [hbyte]
    exact t.isValidUTF8.isUTF8FirstByte_getElem_zero hpos
  exact ⟨(isValid_iff hs.symm).1.1 hpos, (validUtf8_text_append t).1 ((isValid_iff hs.symm).2.1 hpos)⟩

theorem validUtf8_take_iff (hn : n ≤ s.utf8ByteSize) :
    ValidUtf8 ((utf8 s).take n) ↔ ∃ a b, s = a ++ b ∧ a.utf8ByteSize = n := by
  have hvalid : ValidUtf8 ((utf8 s).take n ++ (utf8 s).drop n) := by
    rw [take_append_drop]
    exact validUtf8_utf8 s
  constructor
  · intro h
    obtain ⟨a, ha⟩ := validUtf8_iff.1 h
    obtain ⟨b, hb⟩ := validUtf8_iff.1 (hvalid.left_iff_right.1 h)
    refine ⟨a, b, ?_, ?_⟩
    · rw [← utf8_inj, utf8_append, ← ha, ← hb, take_append_drop]
    · rw [← length_utf8, ← ha, length_take, length_utf8, Nat.min_eq_left hn]
  · rintro ⟨a, b, rfl, rfl⟩
    rw [utf8_append, ← length_utf8 a, take_left]
    exact validUtf8_utf8 a

theorem not_validUtf8_take {a b c} (hlow : a.utf8ByteSize < n)
    (hhigh : n < a.utf8ByteSize + c.utf8Size) :
    ¬ ValidUtf8 ((utf8 (a ++ (String.singleton c ++ b))).take n) := by
  obtain ⟨m, rfl⟩ := Nat.exists_eq_add_of_le (Nat.le_of_lt hlow)
  have hm : m < (String.singleton c).utf8ByteSize := by
    rw [String.utf8ByteSize_singleton]
    omega
  have htake : (utf8 (a ++ (String.singleton c ++ b))).take (a.utf8ByteSize + m) =
      utf8 a ++ (utf8 (String.singleton c)).take m := by
    rw [utf8_append, utf8_append, ← length_utf8 a, take_length_add_append,
      take_append_of_le_length (by rw [length_utf8]; exact Nat.le_of_lt hm)]
  rw [htake, validUtf8_text_append, validUtf8_take_iff (Nat.le_of_lt hm)]
  rintro ⟨d, e, hsplit, hsize⟩
  -- one of the two parts of a single character is empty
  have hchars : d.toList ++ e.toList = [c] := by
    rw [← String.toList_append, ← hsplit, String.toList_singleton]
  obtain ⟨hd, -⟩ | ⟨hd, he⟩ := append_eq_singleton_iff.1 hchars
  · rw [String.toList_eq_nil_iff.1 hd, String.utf8ByteSize_empty] at hsize
    omega
  · rw [String.toList_eq_nil_iff.1 he, String.append_empty] at hsplit
    rw [hsplit] at hm
    omega

/-! ## Replacing bytes -/

def replaceAllByte (old : UInt8) (new b : List UInt8) : List UInt8 :=
  b.flatMap fun c => if c = old then new else [c]

theorem validUtf8_replaceAllByte {old} (hs : utf8 s = [old]) (ht : t ≠ "") :
    ValidUtf8 (replaceAllByte old (utf8 t) y) ↔ ValidUtf8 y := by
  have hne : s ≠ "" := fun h => by simp [utf8_eq_nil_iff.2 h] at hs
  -- the bytes before the one to be replaced next are not complete, so they are part of the induction
  have hall : ∀ x, ValidUtf8 (x ++ replaceAllByte old (utf8 t) y) ↔ ValidUtf8 (x ++ y) := by
    induction y with
    | nil => simp [replaceAllByte]
    | cons c y ih =>
      intro x
      have hcons : replaceAllByte old (utf8 t) (c :: y) =
          (if c = old then utf8 t else [c]) ++ replaceAllByte old (utf8 t) y := rfl
      rw [hcons]
      split_ifs with hc
      · have hold : c :: y = utf8 s ++ y := by rw [hs, hc, singleton_append]
        rw [hold, validUtf8_append_text_append ht, validUtf8_append_text_append hne]
        exact and_congr_right fun _ => ih []
      · simpa using ih (x ++ [c])
  exact hall []

end Go
