import Libmacaroon.V1Accounting
import Libmacaroon.V2Canonical
import Libmacaroon.V2RoundTrip

/-! No accepted binary token goes on into another one. In V1 the packets of the longer token begin
with those of the shorter, whose signature has to be the last; in V2 the decoder passes the shorter
token and finds trailing data. -/
namespace Libmacaroon
open Checked Utf8
variable {w : Width}

namespace V1

/-- The packets of a token come first, whatever follows the token. -/
theorem deserializeAsPackets_append {b : Bytes} {ps : List Packet} (s : Bytes)
    (h : deserializeAsPackets w b = .ok ps) : deserializeAsPackets w (b ++ s) = (do
      let qs ← deserializeAsPackets w s
      return ps ++ qs) := by
  induction ps generalizing b with
  | nil =>
    rw [deserializeAsPackets_eq_nil.mp h, List.nil_append]
    cases deserializeAsPackets w s <;> rfl
  | cons p ps ih =>
    obtain ⟨frame, rest, rfl, hframe, hrest⟩ := deserializeAsPackets_eq_cons.mp h
    rw [List.append_assoc, deserializeAsPackets_cons (readPacket_of_isFrame hframe), ih hrest]
    cases deserializeAsPackets w s <;> rfl

/-- After the signature the assembly loop takes no packet. -/
theorem Assembly.step_after_signature {a : Assembly} (h : a.seenSignature = true) (p : Packet) :
    a.step p = deserializationError "packet found after signature" := by
  simp [step, h, rejectIf, failIf]

theorem deserialize_append {b s : Bytes} {m m' : Macaroon} (hs : s ≠ [])
    (h : deserialize w b = .ok m) : deserialize w (b ++ s) ≠ .ok m' := by
  intro h'
  simp only [deserialize, bind_eq_ok] at h
  obtain ⟨ps, hps, a, hrun, hbuild⟩ := h
  have haccounts : a.Accounts ps := Assembly.accounts_new.run hrun
  obtain ⟨_, signature, hsome, _⟩ := MacaroonBuilder.build_eq_ok.mp hbuild
  have hsig : a.seenSignature = true := by rw [haccounts.signature, hsome]; rfl
  rw [deserialize, deserializeAsPackets_append s hps] at h'
  obtain ⟨packets, hpackets, h'⟩ := bind_eq_ok.mp h'
  obtain ⟨qs, hqs, hpackets⟩ := bind_eq_ok.mp hpackets
  cases hpackets
  cases qs with
  | nil => exact hs (deserializeAsPackets_eq_nil.mp hqs)
  | cons q qs =>
    rw [List.foldlM_append, hrun, ok_bind, List.foldlM_cons, Assembly.step_after_signature hsig] at h'
    cases h'

end V1

theorem V2.deserialize_append_ne_ok {b s : Bytes} {m m' : Macaroon} (hs : s ≠ [])
    (h : V2.deserialize w b = .ok m) : V2.deserialize w (b ++ s) ≠ .ok m' := by
  intro h'
  obtain ⟨hm, hb⟩ := V2.deserialize_reads h
  obtain ⟨hm', hb'⟩ := V2.deserialize_reads h'
  rw [V2.deserialize_append hm hb (V2.serializeBinary_fits hm' hb'), if_neg hs] at h'
  cases h'

/-- The accepted binary tokens are prefix-free: no token and proper extension of it are both
accepted, in any format. -/
theorem accepted_prefix_free (w : Width) (b s : Bytes) (hs : s ≠ []) :
    ¬ ((∃ m, Macaroon.deserializeBinary w b = .ok m) ∧
      ∃ m', Macaroon.deserializeBinary w (b ++ s) = .ok m') := by
  intro hboth
  obtain ⟨⟨m, h⟩, m', h'⟩ := hboth
  simp only [Macaroon.deserializeBinary, bind_eq_ok, rejectIf_eq_ok, indexAt_eq_ok] at h h'
  obtain ⟨_, hne, first, hfirst, mac, hmatch, _⟩ := h
  obtain ⟨_, _, first', hfirst', mac', hmatch', _⟩ := h'
  -- Both tokens begin with the same byte, so both go to the same decoder.
  rw [List.getElem?_append_left (List.length_pos_iff.mpr hne), hfirst] at hfirst'
  cases hfirst'
  unfold Macaroon.matchBinary at hmatch hmatch'
  split_ifs at hmatch hmatch'
  · exact V2.deserialize_append_ne_ok hs hmatch hmatch'
  · exact V1.deserialize_append hs hmatch hmatch'

/- A V2 token with one byte behind it. -/
theorem accepted_prefix_free_trailing :
    ¬ ((∃ m, Macaroon.deserializeBinary .w32
        ([2, 2, 1, 65, 0, 0, 6, 32] ++ zeroKey.bytes) = .ok m) ∧
      ∃ m', Macaroon.deserializeBinary .w32
        ([2, 2, 1, 65, 0, 0, 6, 32] ++ zeroKey.bytes ++ [0]) = .ok m') :=
  accepted_prefix_free .w32 _ [0] (by decide)

end Libmacaroon
