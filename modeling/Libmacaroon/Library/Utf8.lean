import Mathlib.Tactic.Common

/-! Strings and their UTF-8 bytes, as lists of bytes. A string is a byte list that is valid
UTF-8, so decoding is partial and both directions determine each other. -/
namespace Utf8

def asBytes (s : String) : List UInt8 := s.toByteArray.data.toList

def fromUtf8 (b : List UInt8) : Option String := String.fromUTF8? ⟨b.toArray⟩

/-- Decoding accepts exactly the bytes of a string, and gives that string. -/
theorem fromUtf8_eq_some {b : List UInt8} {s : String} : fromUtf8 b = some s ↔ asBytes s = b := by
  constructor
  · intro h
    unfold fromUtf8 String.fromUTF8? at h
    split at h
    · cases h
      simp [asBytes, String.fromUTF8]
    · cases h
  · intro h
    subst h
    have hv : ByteArray.IsValidUTF8 ⟨(asBytes s).toArray⟩ := by
      simpa [asBytes] using s.isValidUTF8
    unfold fromUtf8 String.fromUTF8?
    rw [dif_pos hv]
    simp [asBytes, String.fromUTF8]

@[simp] theorem fromUtf8_asBytes (s : String) : fromUtf8 (asBytes s) = some s :=
  fromUtf8_eq_some.mpr rfl

theorem asBytes_inj {s t : String} : asBytes s = asBytes t ↔ s = t := by
  constructor
  · intro h
    exact Option.some.inj ((fromUtf8_asBytes s).symm.trans (h ▸ fromUtf8_asBytes t))
  · rintro rfl
    rfl

/-- The string of ASCII bytes. -/
def ofAscii (b : List UInt8) : String := String.ofList (b.map fun c => Char.ofNat c.toNat)

theorem utf8EncodeChar_ascii {c : UInt8} (h : c < 128) :
    String.utf8EncodeChar (Char.ofNat c.toNat) = [c] := by
  have hall : ∀ i : Fin 128, String.utf8EncodeChar (Char.ofNat i) = [UInt8.ofNat i] := by
    decide +kernel
  simpa using hall ⟨c.toNat, h⟩

theorem asBytes_ofAscii {b : List UInt8} (h : ∀ c ∈ b, c < 128) : asBytes (ofAscii b) = b := by
  simp only [asBytes, ofAscii, String.toByteArray_ofList, List.utf8Encode,
    List.data_toByteArray, List.flatMap_map]
  induction b with
  | nil => rfl
  | cons c b ih =>
    rw [List.flatMap_cons, utf8EncodeChar_ascii (h c (by simp)),
      ih fun c' hc' => h c' (by simp [hc'])]
    rfl

end Utf8
