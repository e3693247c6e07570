import Libmacaroon.Library.Cursor
import Libmacaroon.Macaroon
import Mathlib.Tactic.Ring

/-! The fields of the V2 binary format (`serialization/v2.rs`): their encoding, and the reader
that steps an index over the token. -/
namespace Libmacaroon.V2
open Checked Utf8

def EOS : UInt8 := 0
def LOCATION : UInt8 := 1
def IDENTIFIER : UInt8 := 2
def VID : UInt8 := 4
def SIGNATURE : UInt8 := 6

def varintPackSize : Nat := 128

def varintSize (size : Nat) : Bytes :=
  if size ≥ varintPackSize then
    UInt8.ofNat ((size &&& (varintPackSize - 1)) ||| varintPackSize) :: varintSize (size >>> 7)
  else [UInt8.ofNat size]
termination_by size
decreasing_by
  rw [Nat.shiftRight_eq_div_pow]
  simp only [varintPackSize] at *
  omega

def serializeField (tag : UInt8) (value : Bytes) : Bytes :=
  tag :: varintSize value.length ++ value

structure Deserializer where
  data : Bytes
  index : Nat

namespace Deserializer

def new (data : Bytes) : Deserializer := ⟨data, 0⟩

variable (w : Width)

def getByte (d : Deserializer) : Result (UInt8 × Deserializer) := do
  rejectIf (d.data = []) "Buffer overrun"
  let last ← sub d.data.length 1
  rejectIf (d.index > last) "Buffer overrun"
  let byte ← indexAt d.data d.index
  let next ← add w d.index 1
  return (byte, { d with index := next })

def getTag (d : Deserializer) : Result (UInt8 × Deserializer) := d.getByte w

def getEos (d : Deserializer) : Result (UInt8 × Deserializer) := do
  let (eos, d) ← d.getByte w
  rejectIf (eos ≠ EOS) "Expected EOS"
  return (eos, d)

/- The loop of `get_field_size`, entered with the `size` read so far and the next `shift`. The sum
   `shift + 7` is checked like every other, and spelled out again for the termination proof. -/
def fieldSizeLoop (d : Deserializer) (size shift : Nat) : Result (Nat × Deserializer) :=
  if shift ≤ w.bits - 8 then do
    let (byte, d) ← d.getByte w
    if byte &&& 128 ≠ 0 then
      let group ← shl w (byte &&& 127).toNat shift
      let _ ← (add w shift 7 : Result Nat)
      fieldSizeLoop d (size ||| group) (shift + 7)
    else
      rejectIf (byte = 0 ∧ shift > 0) "non-canonical field size"
      let group ← shl w byte.toNat shift
      checkFieldSize "v2 field" (size ||| group)
      return (size ||| group, d)
  else deserializationError "Error in field size"
termination_by w.bits - shift
decreasing_by
  have : 8 ≤ w.bits := by cases w <;> simp [Width.bits]
  omega

def getFieldSize (d : Deserializer) : Result (Nat × Deserializer) := d.fieldSizeLoop w 0 0

def getField (d : Deserializer) : Result (Bytes × Deserializer) := do
  let (size, d) ← d.getFieldSize w
  let stop ← add w size d.index
  rejectIf (stop > d.data.length) "Unexpected end of field"
  let stop ← add w d.index size
  let field ← slice d.data d.index stop
  let next ← add w d.index size
  return (field, { d with index := next })

def isExhausted (d : Deserializer) : Bool := d.index ≥ d.data.length

end Deserializer

theorem varintSize_lt {n : Nat} (h : n < 128) : varintSize n = [UInt8.ofNat n] := by
  rw [varintSize, if_neg (by simp only [varintPackSize]; omega)]

/-- A continuation byte carries the low seven bits, the rest follows. -/
theorem varintSize_group {g k : Nat} (hg : g < 128) (hk : 0 < k) :
    varintSize (g + 128 * k) = UInt8.ofNat (g + 128) :: varintSize k := by
  have hlow : (g + 128 * k) &&& 127 = g := by
    rw [Nat.and_two_pow_sub_one_eq_mod _ 7]
    omega
  have hor : g ||| 128 = g + 128 := by
    have := Nat.two_pow_add_eq_or_of_lt (i := 7) hg 1
    rw [Nat.or_comm, ← this]
    omega
  have hshift : (g + 128 * k) >>> 7 = k := by
    rw [Nat.shiftRight_eq_div_pow]
    omega
  rw [varintSize, if_pos (by simp only [varintPackSize]; omega)]
  simp only [varintPackSize, Nat.add_one_sub_one, hlow, hor, hshift]

theorem varintSize_ne_nil (n : Nat) : varintSize n ≠ [] := by
  rw [varintSize]
  split <;> simp

theorem continuation_bit (b : UInt8) : b &&& 128 ≠ 0 ↔ 128 ≤ b.toNat := by
  have h : ∀ i : Fin 256, UInt8.ofFin i &&& 128 ≠ 0 ↔ 128 ≤ (UInt8.ofFin i).toNat := by
    decide +kernel
  exact h b.toFin

theorem low_bits (b : UInt8) : (b &&& 127).toNat = b.toNat % 128 := by
  rw [UInt8.toNat_and]
  exact Nat.and_two_pow_sub_one_eq_mod b.toNat 7

theorem group_lt (b : UInt8) : (b &&& 127).toNat < 128 := by
  rw [low_bits]
  omega

theorem last_group_lt {b : UInt8} (h : ¬ b &&& 128 ≠ 0) : b.toNat < 128 := by
  rw [continuation_bit] at h
  omega

/-- Below the bit `shift`, or-ing a group in is adding it. -/
theorem or_group {size g shift : Nat} (h : size < 2 ^ shift) :
    size ||| (g <<< shift) = size + g * 2 ^ shift := by
  rw [Nat.or_comm, ← Nat.shiftLeft_add_eq_or_of_lt h, Nat.shiftLeft_eq]
  omega

namespace Deserializer

/-- The reader `d` passes the bytes `bytes` and becomes `d'`. -/
def Reads (d : Deserializer) (bytes : Bytes) (d' : Deserializer) : Prop :=
  d'.data = d.data ∧ Cursor.Reads d.data d.index bytes d'.index

theorem Reads.trans {d d' d'' : Deserializer} {xs ys : Bytes} (h : d.Reads xs d')
    (h' : d'.Reads ys d'') : d.Reads (xs ++ ys) d'' :=
  ⟨h'.1.trans h.1, h.2.trans (h.1 ▸ h'.2)⟩

theorem Reads.split {d d'' : Deserializer} {xs ys : Bytes} (h : d.Reads (xs ++ ys) d'') :
    ∃ d' : Deserializer, d.Reads xs d' ∧ d'.Reads ys d'' :=
  ⟨⟨d.data, d.index + xs.length⟩, ⟨rfl, h.2.split.1⟩, h.1, h.2.split.2⟩

theorem Reads.uncons {d d'' : Deserializer} {x : UInt8} {xs : Bytes} (h : d.Reads (x :: xs) d'') :
    ∃ d' : Deserializer, d.Reads [x] d' ∧ d'.Reads xs d'' :=
  Reads.split (show d.Reads ([x] ++ xs) d'' from h)

variable {w : Width} {d d' : Deserializer}

theorem getByte_eq_ok {b : UInt8} : d.getByte w = .ok (b, d') ↔
    d.data[d.index]? = some b ∧ d.index + 1 < 2 ^ w.bits ∧ d' = { d with index := d.index + 1 } := by
  constructor
  · intro h
    simp only [getByte, bind_eq_ok, rejectIf_eq_ok, sub_eq_ok, indexAt_eq_ok, add_eq_ok,
      pure_eq_ok, Prod.mk.injEq] at h
    obtain ⟨_, _, _, _, _, _, _, hb, _, ⟨hlt, rfl⟩, rfl, rfl⟩ := h
    exact ⟨hb, hlt, rfl⟩
  · intro h
    obtain ⟨hb, hlt, hd⟩ := h
    obtain ⟨hi, _⟩ := List.getElem?_eq_some_iff.mp hb
    have hne : d.data ≠ [] := by
      intro he
      simp [he] at hi
    simp only [getByte, bind_eq_ok, rejectIf_eq_ok, sub_eq_ok, indexAt_eq_ok, add_eq_ok,
      pure_eq_ok, Prod.mk.injEq]
    exact ⟨(), hne, _, ⟨by omega, rfl⟩, (), by omega, b, hb, _, ⟨hlt, rfl⟩, rfl, hd.symm⟩

theorem getByte_reads {b : UInt8} (h : d.getByte w = .ok (b, d')) : d.Reads [b] d' := by
  obtain ⟨hb, _, rfl⟩ := getByte_eq_ok.mp h
  exact ⟨rfl, Cursor.Reads.singleton hb⟩

theorem getEos_reads {b : UInt8} (h : d.getEos w = .ok (b, d')) : d.Reads [EOS] d' := by
  simp only [getEos, bind_eq_ok, rejectIf_eq_ok, pure_eq_ok, Prod.exists, Prod.mk.injEq] at h
  obtain ⟨_, _, hb, _, he, rfl, rfl⟩ := h
  rw [Decidable.not_not.mp he] at hb
  exact getByte_reads hb

theorem width_bits (w : Width) : 32 ≤ w.bits := by cases w <;> simp [Width.bits]

/-- The loop of `get_field_size`, pass by pass: what holds after each pass that starts within the bound
holds before it. -/
@[elab_as_elim]
theorem shift_induction (w : Width) {motive : Nat → Prop}
    (pass : ∀ shift, (shift ≤ w.bits - 8 → motive (shift + 7)) → motive shift) (shift : Nat) :
    motive shift := by
  induction hm : w.bits - shift using Nat.strongRecOn generalizing shift with
  | ind m ih =>
    have hbits := width_bits w
    apply pass
    intro hle
    exact ih (w.bits - (shift + 7)) (by omega) (shift + 7) rfl

/-- Within the bound of the loop the next shift fits the word. -/
theorem add_shift {shift : Nat} (hs : shift ≤ w.bits - 8) :
    (add w shift 7 : Result Nat) = .ok (shift + 7) := by
  have hbits := width_bits w
  have hlt : w.bits < 2 ^ w.bits := Nat.lt_two_pow_self
  exact add_eq_ok.mpr ⟨by omega, rfl⟩

/-- A group shifted within the bound of the loop loses no bit. -/
theorem shl_group {g shift : Nat} (hg : g < 128) (hs : shift ≤ w.bits - 8) :
    (shl w g shift : Result Nat) = .ok (g <<< shift) := by
  have hbits := width_bits w
  have hfit : g <<< shift < 2 ^ w.bits := by
    have hp : 2 ^ w.bits = 2 ^ shift * 2 ^ (w.bits - shift) := by
      rw [← Nat.pow_add]
      congr 1
      omega
    have h8 : 2 ^ 8 ≤ 2 ^ (w.bits - shift) := Nat.pow_le_pow_right (by omega) (by omega)
    rw [Nat.shiftLeft_eq, hp, Nat.mul_comm]
    exact Nat.mul_lt_mul_of_pos_left (by omega) (Nat.two_pow_pos shift)
  rw [shl, if_pos (by omega), Nat.mod_eq_of_lt hfit]

theorem or_group_lt {size g shift : Nat} (hs : size < 2 ^ shift) (hg : g < 128) :
    size ||| (g <<< shift) < 2 ^ (shift + 7) := by
  rw [or_group hs, Nat.pow_add]
  have hle : (g + 1) * 2 ^ shift ≤ 128 * 2 ^ shift := Nat.mul_le_mul_right _ hg
  rw [Nat.add_mul] at hle
  omega

/-- What the loop passes is the canonical encoding of the groups it still had to read. -/
theorem fieldSizeLoop_reads {size shift n : Nat} (hs : size < 2 ^ shift)
    (h : d.fieldSizeLoop w size shift = .ok (n, d')) :
    ∃ k, n = size + k * 2 ^ shift ∧ (0 < shift → 0 < k) ∧ n ≤ maxFieldSizeBytes ∧
      d.Reads (varintSize k) d' := by
  induction shift using shift_induction w generalizing d size with
  | pass shift ih =>
    rw [fieldSizeLoop] at h
    by_cases hle : shift ≤ w.bits - 8
    · rw [if_pos hle] at h
      obtain ⟨⟨byte, d₁⟩, hbyte, h⟩ := bind_eq_ok.mp h
      have hread := getByte_reads hbyte
      by_cases hc : byte &&& 128 ≠ 0
      · have hg := group_lt byte
        simp only [if_pos hc, shl_group hg hle, add_shift hle, ok_bind] at h
        obtain ⟨k, hn, hk, hmax, hrest⟩ := ih hle (or_group_lt hs hg) h
        have hk : 0 < k := hk (by omega)
        refine ⟨byte.toNat % 128 + 128 * k, ?_, ?_, hmax, ?_⟩
        · rw [hn, or_group hs, low_bits, Nat.pow_add]
          ring
        · omega
        · have hb : UInt8.ofNat (byte.toNat % 128 + 128) = byte := by
            have := (continuation_bit byte).mp hc
            have := byte.toNat_lt
            rw [show byte.toNat % 128 + 128 = byte.toNat by omega]
            exact UInt8.ofNat_toNat
          rw [varintSize_group (by omega) hk, hb]
          exact hread.trans hrest
      · have hlt := last_group_lt hc
        simp only [if_neg hc, shl_group hlt hle, ok_bind, bind_eq_ok, rejectIf_eq_ok,
          checkFieldSize_eq_ok, pure_eq_ok, Prod.mk.injEq] at h
        obtain ⟨_, hz, _, hmax, rfl, rfl⟩ := h
        refine ⟨byte.toNat, or_group hs, ?_, hmax, ?_⟩
        · intro hpos
          by_contra h0
          exact hz ⟨UInt8.toNat_inj.mp (by simpa using h0), hpos⟩
        · rw [varintSize_lt hlt, UInt8.ofNat_toNat]
          exact hread
    · rw [if_neg hle] at h
      cases h

theorem getFieldSize_reads {n : Nat} (h : d.getFieldSize w = .ok (n, d')) :
    n ≤ maxFieldSizeBytes ∧ d.Reads (varintSize n) d' := by
  obtain ⟨k, hn, _, hmax, hr⟩ := fieldSizeLoop_reads (by simp) h
  have : n = k := by omega
  exact ⟨hmax, this ▸ hr⟩

/-- An accepted field has the size and the bytes that `serialize_field` writes after the tag. -/
theorem getField_reads {field : Bytes} (h : d.getField w = .ok (field, d')) :
    field.length ≤ maxFieldSizeBytes ∧ d.Reads (varintSize field.length ++ field) d' := by
  simp only [getField, bind_eq_ok, add_eq_ok, rejectIf_eq_ok, slice_eq_ok, pure_eq_ok,
    Prod.exists, Prod.mk.injEq] at h
  obtain ⟨size, d₁, hsize, _, ⟨_, rfl⟩, _, hstop, _, ⟨_, rfl⟩, _, ⟨hle, hend, rfl⟩, _,
    ⟨_, rfl⟩, rfl, rfl⟩ := h
  obtain ⟨hmax, hr⟩ := getFieldSize_reads hsize
  have hlen : ((d₁.data.take (d₁.index + size)).drop d₁.index).length = size := by
    simp only [List.length_drop, List.length_take]
    omega
  rw [hlen]
  exact ⟨hmax, hr.trans ⟨rfl, Cursor.Reads.of_slice hle hend⟩⟩

/-- Room for the index arithmetic: a field of the largest size past the end does not overflow. -/
def Fits (w : Width) (data : Bytes) : Prop := data.length + maxFieldSizeBytes < 2 ^ w.bits

theorem getByte_of_reads {b : UInt8} (hf : Fits w d.data) (h : d.Reads [b] d') :
    d.getByte w = .ok (b, d') := by
  obtain ⟨hdata, hr⟩ := h
  obtain ⟨hb, _⟩ := Cursor.Reads.cons hr
  obtain ⟨hi, _⟩ := List.getElem?_eq_some_iff.mp hb
  refine getByte_eq_ok.mpr ⟨hb, ?_, ?_⟩
  · simp only [Fits, maxFieldSizeBytes] at hf
    omega
  · have hindex := hr.1
    cases d'
    simp_all

theorem getEos_of_reads (hf : Fits w d.data) (h : d.Reads [EOS] d') :
    d.getEos w = .ok (EOS, d') := by
  simp [getEos, getByte_of_reads hf h, rejectIf, failIf]

theorem shift_le_of_size_le {k shift : Nat} (hk : 0 < shift → 0 < k)
    (hmax : k * 2 ^ shift ≤ maxFieldSizeBytes) : shift ≤ w.bits - 8 := by
  have hbits := width_bits w
  by_contra hlt
  have hpow : 2 ^ 16 ≤ 2 ^ shift := Nat.pow_le_pow_right (by omega) (by omega)
  have hmul : 1 * 2 ^ shift ≤ k * 2 ^ shift := Nat.mul_le_mul_right _ (hk (by omega))
  simp only [maxFieldSizeBytes] at hmax
  omega

theorem fieldSizeLoop_of_reads {size shift k : Nat} (hf : Fits w d.data) (hs : size < 2 ^ shift)
    (hk : 0 < shift → 0 < k) (hmax : size + k * 2 ^ shift ≤ maxFieldSizeBytes)
    (h : d.Reads (varintSize k) d') :
    d.fieldSizeLoop w size shift = .ok (size + k * 2 ^ shift, d') := by
  induction k using Nat.strongRecOn generalizing d size shift with
  | ind k ih =>
    have hle : shift ≤ w.bits - 8 := shift_le_of_size_le hk (by omega)
    rw [fieldSizeLoop, if_pos hle]
    by_cases hlt : k < 128
    · have hbyte : (UInt8.ofNat k).toNat = k := by
        rw [UInt8.toNat_ofNat']
        omega
      have hc : ¬ (UInt8.ofNat k &&& 128 ≠ 0) := by
        rw [continuation_bit, hbyte]
        omega
      have hz : ¬ (UInt8.ofNat k = 0 ∧ shift > 0) := by
        intro hz
        have := congrArg UInt8.toNat hz.1
        simp only [hbyte, UInt8.toNat_zero] at this
        exact absurd (hk hz.2) (by omega)
      rw [varintSize_lt hlt] at h
      simp only [getByte_of_reads hf h, ok_bind, if_neg hc, rejectIf, failIf, if_neg hz, hbyte,
        shl_group hlt hle, or_group hs, checkFieldSize]
      rw [if_neg (by omega)]
      rfl
    · obtain ⟨hg, hk', hsplit⟩ : k % 128 < 128 ∧ 0 < k / 128 ∧ k = k % 128 + 128 * (k / 128) := by
        omega
      rw [hsplit, varintSize_group hg hk'] at h
      obtain ⟨d₁, hb, hrest⟩ := h.uncons
      have hbyte : (UInt8.ofNat (k % 128 + 128)).toNat = k % 128 + 128 := by
        rw [UInt8.toNat_ofNat']
        omega
      have hc : UInt8.ofNat (k % 128 + 128) &&& 128 ≠ 0 := by
        rw [continuation_bit, hbyte]
        omega
      have hlow : (UInt8.ofNat (k % 128 + 128) &&& 127).toNat = k % 128 := by
        rw [low_bits, hbyte]
        omega
      have hsum : size + k % 128 * 2 ^ shift + k / 128 * 2 ^ (shift + 7) = size + k * 2 ^ shift := by
        conv_rhs => rw [hsplit]
        rw [Nat.pow_add]
        ring
      simp only [getByte_of_reads hf hb, ok_bind, if_pos hc, hlow, shl_group hg hle, add_shift hle]
      rw [ih (k / 128) (by omega) (hb.1 ▸ hf) (or_group_lt hs hg) (fun _ => hk')
        (by rw [or_group hs, hsum]; exact hmax) hrest, or_group hs, hsum]

theorem getFieldSize_of_reads {n : Nat} (hf : Fits w d.data) (hn : n ≤ maxFieldSizeBytes)
    (h : d.Reads (varintSize n) d') : d.getFieldSize w = .ok (n, d') := by
  have hloop : d.fieldSizeLoop w 0 0 = .ok (0 + n * 2 ^ 0, d') :=
    fieldSizeLoop_of_reads hf (by simp) (by simp) (by omega) h
  simpa [getFieldSize] using hloop

theorem getField_of_reads {field : Bytes} (hf : Fits w d.data)
    (hn : field.length ≤ maxFieldSizeBytes)
    (h : d.Reads (varintSize field.length ++ field) d') : d.getField w = .ok (field, d') := by
  obtain ⟨d₁, hsize, hdata, hfield⟩ := h.split
  have hstop : d₁.index + field.length ≤ d₁.data.length := by
    have := hfield.1
    have hsome : d₁.index ≤ d₁.data.length := by
      rw [hsize.1]
      exact hsize.2.le_length (varintSize_ne_nil _)
    have := hfield.le_length_of_le hsome
    omega
  have hlt : d₁.index + field.length < 2 ^ w.bits := by
    rw [hsize.1] at hstop
    simp only [Fits] at hf
    omega
  have hslice := hfield.slice_eq
  rw [hfield.1] at hslice
  simp only [getField, bind_eq_ok, add_eq_ok, rejectIf_eq_ok, slice_eq_ok, pure_eq_ok,
    Prod.exists, Prod.mk.injEq]
  refine ⟨field.length, d₁, getFieldSize_of_reads hf hn hsize, _, ⟨by omega, rfl⟩, (), by omega,
    _, ⟨hlt, rfl⟩, field, ⟨by omega, hstop, hslice.symm⟩, _, ⟨hlt, rfl⟩, rfl, ?_⟩
  have hindex := hfield.1
  cases d'
  simp_all

end Deserializer

end Libmacaroon.V2
