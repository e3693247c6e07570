import Libmacaroon.TokenLanguage

/-! Decoding on machines of different word sizes. The sizes that are read stay far below 32 bits, so
every machine accepts the same tokens. -/
namespace Libmacaroon
open Checked Utf8
variable {w w' : Width}

namespace V1

theorem digitsValue_width {cs : Bytes} {acc : Nat} (h : (acc + 1) * 16 ^ cs.length ≤ 2 ^ 32) :
    digitsValue w cs acc = digitsValue w' cs acc := by
  induction cs generalizing acc with
  | nil => rfl
  | cons c cs ih =>
    cases hd : digitValue c with
    | none => simp only [digitsValue, hd]
    | some d =>
      have hlt := digitValue_lt hd
      have hpow : 1 ≤ 16 ^ cs.length := Nat.one_le_two_pow.trans (Nat.pow_le_pow_left (by omega) _)
      rw [List.length_cons, Nat.pow_succ, Nat.mul_comm (16 ^ cs.length), ← Nat.mul_assoc] at h
      have hnext : (acc * 16 + d + 1) * 16 ^ cs.length ≤ 2 ^ 32 :=
        (Nat.mul_le_mul_right _ (by omega)).trans h
      have hfits (v : Width) : acc * 16 + d < 2 ^ v.bits := by
        have hbits : 2 ^ 32 ≤ 2 ^ v.bits :=
          Nat.pow_le_pow_right (by omega) (by cases v <;> simp [Width.bits])
        have hle := Nat.le_mul_of_pos_right (acc * 16 + d + 1) hpow
        omega
      simp only [digitsValue, hd, if_pos (hfits w), if_pos (hfits w'), ih hnext]

/-- Four header bytes are read alike by every machine. -/
theorem parseHex_width {header : Bytes} {hex : String} (hlen : header.length = 4)
    (hhex : strFromUtf8 header = .ok hex) : parseHex w hex = parseHex w' hex := by
  have hdigits (cs : Bytes) (hcs : cs.length ≤ 4) : digitsValue w cs 0 = digitsValue w' cs 0 := by
    apply digitsValue_width
    have hpow : 16 ^ cs.length ≤ 16 ^ 4 := Nat.pow_le_pow_right (by omega) hcs
    omega
  rw [parseHex, parseHex, strFromUtf8_eq_ok.mp hhex]
  obtain _ | ⟨a, _ | ⟨b, _ | ⟨c, _ | ⟨d, _ | ⟨e, rest⟩⟩⟩⟩⟩ := header
  all_goals simp at hlen
  simp only [fromStrRadix16, hdigits [b, c, d] (by simp), hdigits [a, b, c, d] (by simp)]

theorem IsFrame.width {frame : Bytes} {p : Packet} (h : IsFrame w frame p) :
    IsFrame w' frame p := by
  obtain ⟨header, hex, last, hspell, hheader, hhex, hparse, hspace⟩ := h
  refine ⟨header, hex, last, hspell, hheader, hhex, ?_, hspace⟩
  rw [← hparse]
  exact parseHex_width hheader hhex

theorem deserialize_width {data : Bytes} {m : Macaroon} (h : deserialize w data = .ok m) :
    deserialize w' data = .ok m := by
  simp only [deserialize, bind_eq_ok] at h ⊢
  obtain ⟨ps, hps, hrest⟩ := h
  obtain ⟨frames, hdata, hframes⟩ := deserializeAsPackets_eq_ok.mp hps
  refine ⟨ps, deserializeAsPackets_eq_ok.mpr ⟨frames, hdata, ?_⟩, hrest⟩
  exact hframes.imp fun _ _ hframe => hframe.width

end V1

namespace Macaroon
variable {E : Base64Crate} {J : V2Json.SerdeJson} {m : Macaroon} {token : Bytes}

theorem deserializeBinary_width (h : deserializeBinary w token = .ok m) :
    deserializeBinary w' token = .ok m := by
  rw [deserializeBinary_iff] at h ⊢
  obtain hv2 | ⟨hhex, hv1⟩ := h
  · exact .inl hv2
  · exact .inr ⟨hhex, V1.deserialize_width hv1⟩

theorem deserialize_width (h : deserialize E J w token = .ok m) :
    deserialize E J w' token = .ok m := by
  simp only [deserialize, bind_eq_ok] at h ⊢
  obtain ⟨_, hne, first, hfirst, mac, hmatch, hvalid⟩ := h
  refine ⟨(), hne, first, hfirst, mac, ?_, hvalid⟩
  unfold matchToken at hmatch ⊢
  split_ifs at hmatch ⊢
  · exact hmatch
  · obtain ⟨binary, hdecode, hbinary⟩ := bind_eq_ok.mp hmatch
    exact bind_eq_ok.mpr ⟨binary, hdecode, deserializeBinary_width hbinary⟩

end Macaroon

/-- A token is accepted on a machine of one word size exactly when it is on the other, and as the
same macaroon. -/
theorem word_size_irrelevant (E : Base64Crate) (J : V2Json.SerdeJson) (w w' : Width)
    (token : Bytes) (m : Macaroon) :
    (Macaroon.deserialize E J w token = .ok m ↔ Macaroon.deserialize E J w' token = .ok m) ∧
      (Macaroon.deserializeBinary w token = .ok m ↔
        Macaroon.deserializeBinary w' token = .ok m) :=
  ⟨⟨Macaroon.deserialize_width, Macaroon.deserialize_width⟩,
    ⟨Macaroon.deserializeBinary_width, Macaroon.deserializeBinary_width⟩⟩

end Libmacaroon
