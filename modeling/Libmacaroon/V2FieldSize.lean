import Libmacaroon.DecodeSafety
import Libmacaroon.Library.Traced

/-! The size of a V2 field has one encoding. The loop that reads it once more, with a record of its
shifts and ors: none of them loses a bit. -/
namespace Libmacaroon.V2
open Checked

/-- An operation on machine words. -/
inductive WordOp where
  | shl (x shift : Nat)
  | or (x y : Nat)
deriving DecidableEq

/-- No bit is lost: the shift is the whole product, and the or merges no two bits, so that it is the
sum. -/
def WordOp.Lossless (w : Width) : WordOp → Prop
  | .shl x shift => (Checked.shl w x shift : Result Nat) = .ok (x * 2 ^ shift)
  | .or x y => x ||| y = x + y ∧ x + y < 2 ^ w.bits

abbrev Logged := Traced WordOp Unit MacaroonError

namespace Logged
variable (w : Width)

def shl (x shift : Nat) : Logged Nat := do
  Traced.record (.shl x shift)
  (Checked.shl w x shift : Result Nat)

def or (x y : Nat) : Logged Nat := do
  Traced.record (.or x y)
  return x ||| y

def fieldSizeLoop (d : Deserializer) (size shift : Nat) : Logged (Nat × Deserializer) :=
  if shift ≤ w.bits - 8 then do
    let (byte, d) ← d.getByte w
    if byte &&& 128 ≠ 0 then
      let group ← shl w (byte &&& 127).toNat shift
      let size ← or size group
      let _ ← (add w shift 7 : Result Nat)
      fieldSizeLoop d size (shift + 7)
    else
      rejectIf (byte = 0 ∧ shift > 0) "non-canonical field size"
      let group ← shl w byte.toNat shift
      let size ← or size group
      checkFieldSize "v2 field" size
      return (size, d)
  else liftM (deserializationError "Error in field size" : Result (Nat × Deserializer))
termination_by w.bits - shift
decreasing_by
  have : 8 ≤ w.bits := by cases w <;> simp [Width.bits]
  omega

def getFieldSize (d : Deserializer) : Logged (Nat × Deserializer) := fieldSizeLoop w d 0 0

variable {w} {d : Deserializer}

@[simp] theorem erase_shl (x shift : Nat) :
    (shl w x shift).erase = liftM (Checked.shl w x shift : Result Nat) := by
  simp [shl]

@[simp] theorem erase_or (x y : Nat) : (or x y).erase = pure (x ||| y) := by
  simp [or]

/-- Recording changes nothing. -/
theorem erase_fieldSizeLoop (size shift : Nat) :
    (fieldSizeLoop w d size shift).erase = liftM (d.fieldSizeLoop w size shift) := by
  induction shift using Deserializer.shift_induction w generalizing d size with
  | pass shift ih =>
    rw [fieldSizeLoop, Deserializer.fieldSizeLoop]
    by_cases hle : shift ≤ w.bits - 8
    · rw [if_pos hle, if_pos hle, Traced.erase_bind, Traced.erase_liftOutcome, Stateful.lift_bind]
      congr 1
      funext r
      obtain ⟨byte, d'⟩ := r
      have hrest (size' : Nat) : (fieldSizeLoop w d' size' (shift + 7)).erase =
          liftM (d'.fieldSizeLoop w size' (shift + 7)) := ih hle size'
      by_cases hc : byte &&& 128 ≠ 0
      · simp only [if_pos hc, Traced.erase_bind, Traced.erase_liftOutcome, erase_shl, erase_or,
          Stateful.pure_bind, Stateful.lift_bind, hrest]
      · simp only [if_neg hc, Traced.erase_bind, Traced.erase_liftOutcome, Traced.erase_pure,
          erase_shl, erase_or, Stateful.pure_bind, Stateful.lift_bind]
        rfl
    · rw [if_neg hle, if_neg hle]
      rfl

variable {g shift size : Nat}

theorem lossless_shl (hg : g < 128) (hs : shift ≤ w.bits - 8) :
    Traced.Records (WordOp.Lossless w) (shl w g shift) := by
  have hop : (WordOp.shl g shift).Lossless w := by
    rw [WordOp.Lossless, Deserializer.shl_group hg hs, Nat.shiftLeft_eq]
  exact Traced.Records.bind (.record hop) fun _ _ _ _ => .liftOutcome _

theorem lossless_or (hsize : size < 2 ^ shift) (hg : g < 128) (hs : shift ≤ w.bits - 8) :
    Traced.Records (WordOp.Lossless w) (or size (g <<< shift)) := by
  have hbits := Deserializer.width_bits w
  have hlt := Deserializer.or_group_lt hsize hg
  have hword : 2 ^ (shift + 7) ≤ 2 ^ w.bits := Nat.pow_le_pow_right (by omega) (by omega)
  have hsum : size ||| g <<< shift = size + g <<< shift := by
    rw [or_group hsize, Nat.shiftLeft_eq]
  have hop : (WordOp.or size (g <<< shift)).Lossless w := ⟨hsum, by omega⟩
  exact Traced.Records.bind (.record hop) fun _ _ _ _ => .pure _

/-- One pass of the loop: the group is shifted into place and or-ed into the size. -/
theorem lossless_group {α : Type} {f : Nat → Logged α} (hsize : size < 2 ^ shift) (hg : g < 128)
    (hs : shift ≤ w.bits - 8)
    (hf : Traced.Records (WordOp.Lossless w) (f (size ||| g <<< shift))) :
    Traced.Records (WordOp.Lossless w) (shl w g shift >>= fun group => or size group >>= f) := by
  refine Traced.Records.bind (lossless_shl hg hs) ?_
  intro s group s' hgroup
  rw [erase_shl, Deserializer.shl_group hg hs] at hgroup
  cases hgroup
  refine Traced.Records.bind (lossless_or hsize hg hs) ?_
  intro t result t' hresult
  rw [erase_or] at hresult
  cases hresult
  exact hf

/-- Below the bit `shift` is all that has been read, so that the next group has its bits to itself. -/
theorem lossless_fieldSizeLoop (hsize : size < 2 ^ shift) :
    Traced.Records (WordOp.Lossless w) (fieldSizeLoop w d size shift) := by
  induction shift using Deserializer.shift_induction w generalizing d size with
  | pass shift ih =>
    rw [fieldSizeLoop]
    by_cases hle : shift ≤ w.bits - 8
    · rw [if_pos hle]
      refine Traced.Records.bind (.liftOutcome _) ?_
      intro _ r _ _
      obtain ⟨byte, d'⟩ := r
      dsimp only
      by_cases hc : byte &&& 128 ≠ 0
      · have hg := group_lt byte
        rw [if_pos hc]
        apply lossless_group hsize hg hle
        refine Traced.Records.bind (.liftOutcome _) ?_
        intro _ _ _ _
        exact ih hle (Deserializer.or_group_lt hsize hg)
      · have hg := last_group_lt hc
        rw [if_neg hc]
        refine Traced.Records.bind (.liftOutcome _) ?_
        intro _ _ _ _
        apply lossless_group hsize hg hle
        refine Traced.Records.bind (.liftOutcome _) ?_
        intro _ _ _ _
        exact .pure _
    · rw [if_neg hle]
      exact .liftOutcome _

end Logged

/-- The bytes of `data` from `start` to `j` are the ones `varint_size` writes for `n`, and `n` is within
the limit of a field. -/
def SizeAt (data : Bytes) (start n j : Nat) : Prop :=
  n ≤ 65535 ∧ (slice data start j : Result Bytes) = .ok (varintSize n)

namespace Deserializer
variable {w : Width} {d d' : Deserializer} {n : Nat}

theorem sizeAt_iff_reads : SizeAt d.data d.index n d'.index ∧ d'.data = d.data ↔
    n ≤ maxFieldSizeBytes ∧ d.Reads (varintSize n) d' := by
  rw [SizeAt, slice_eq_ok, ← Cursor.Reads.iff_slice (varintSize_ne_nil n), Reads, and_assoc,
    and_comm (b := d'.data = d.data)]
  exact Iff.rfl

theorem getFieldSize_eq_ok (hf : Fits w d.data) : d.getFieldSize w = .ok (n, d') ↔
    SizeAt d.data d.index n d'.index ∧ d'.data = d.data := by
  rw [sizeAt_iff_reads]
  constructor
  · exact getFieldSize_reads
  · intro h
    exact getFieldSize_of_reads hf h.1 h.2

theorem getFieldSize_eq_err (hf : Fits w d.data) : (∃ e, d.getFieldSize w = .err e) ↔
    ¬ ∃ n j, SizeAt d.data d.index n j := by
  have hcompletes : Completes (d.getFieldSize w) := fieldSizeLoop_completes hf
  rw [hcompletes.err_iff]
  apply not_congr
  constructor
  · intro h
    obtain ⟨⟨n, d'⟩, hok⟩ := h
    exact ⟨n, d'.index, ((getFieldSize_eq_ok hf).mp hok).1⟩
  · intro h
    obtain ⟨n, j, hsize⟩ := h
    exact ⟨(n, { d with index := j }), (getFieldSize_eq_ok hf).mpr ⟨hsize, rfl⟩⟩

end Deserializer

/-- A field size has exactly one encoding: `get_field_size` gives `n` and stops at `j` exactly when the
bytes up to `j` are the ones `varint_size` writes for `n`, and it fails on all other bytes. No shift and
no or of a run, also of one that fails, loses a bit. -/
theorem field_size_canonical (w : Width) (buffer : ByteSlice w) (start : Nat) :
    let d : Deserializer := ⟨buffer.bytes, start⟩
    (∀ n j, d.getFieldSize w = .ok (n, { d with index := j }) ↔ SizeAt buffer.bytes start n j) ∧
    ((∃ e, d.getFieldSize w = .err e) ↔ ¬ ∃ n j, SizeAt buffer.bytes start n j) ∧
    (Logged.getFieldSize w d).erase.call () = (d.getFieldSize w, ()) ∧
    ∀ op ∈ (Logged.getFieldSize w d).trace (), op.Lossless w := by
  intro d
  have hfits : Deserializer.Fits w d.data := buffer.fits
  refine ⟨?_, Deserializer.getFieldSize_eq_err hfits, ?_, ?_⟩
  · intro n j
    rw [Deserializer.getFieldSize_eq_ok hfits]
    exact and_iff_left rfl
  · rw [Logged.getFieldSize, Logged.erase_fieldSizeLoop]
    rfl
  · have hzero : (0 : Nat) < 2 ^ 0 := by omega
    exact Logged.lossless_fieldSizeLoop hzero ()

end Libmacaroon.V2
