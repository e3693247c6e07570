import Libmacaroon.Instances
import Libmacaroon.Limits
import Libmacaroon.Token

/-! Decoding what the V2 serializer wrote. -/
namespace Libmacaroon.V2
open Checked Utf8
variable {w : Width} {d d' : Deserializer}

theorem readLocatedIdentifier_of_reads {missing : String} {tag : UInt8} {location : Option String}
    {id bytes : Bytes} (hf : Deserializer.Fits w d.data) (hid : id.length ≤ maxFieldSizeBytes)
    (hloc : ∀ l ∈ location, (asBytes l).length ≤ maxFieldSizeBytes)
    (htag : tag :: bytes = serializeLocation location ++ serializeField IDENTIFIER id)
    (h : d.Reads bytes d') :
    readLocatedIdentifier w missing tag d = .ok (location, id, d') := by
  cases location with
  | none =>
    obtain ⟨rfl, rfl⟩ := List.cons.inj htag
    have hfield := Deserializer.getField_of_reads hf hid h
    have hne : IDENTIFIER ≠ LOCATION := by decide
    rw [readLocatedIdentifier, if_neg hne, if_pos rfl, hfield]
    rfl
  | some l =>
    obtain ⟨rfl, hbytes⟩ := List.cons.inj htag
    rw [hbytes] at h
    obtain ⟨d₁, hl, h⟩ := h.split
    obtain ⟨d₂, hi, h⟩ := h.uncons
    have hf₁ : Deserializer.Fits w d₁.data := hl.1 ▸ hf
    have hf₂ : Deserializer.Fits w d₂.data := hi.1 ▸ hf₁
    have hfield := Deserializer.getField_of_reads hf (hloc l rfl) hl
    have hitag := Deserializer.getByte_of_reads hf₁ hi
    have hifield := Deserializer.getField_of_reads hf₂ hid h
    rw [readLocatedIdentifier, if_pos rfl]
    simp [hfield, strFromUtf8, Deserializer.getTag, hitag, hifield, rejectIf, failIf]

theorem located_cons (location : Option String) (id : Bytes) : ∃ tag bytes,
    tag ≠ EOS ∧ tag :: bytes = serializeLocation location ++ serializeField IDENTIFIER id := by
  cases location with
  | none => exact ⟨IDENTIFIER, _, by decide, rfl⟩
  | some l => exact ⟨LOCATION, _, by decide, rfl⟩

theorem serializeCaveat_cons (c : Caveat) : ∃ tag bytes,
    tag ≠ EOS ∧ tag :: bytes = serializeCaveat c := by
  cases c with
  | firstParty fp => exact ⟨IDENTIFIER, _, by decide, rfl⟩
  | thirdParty tp => exact ⟨LOCATION, _, by decide, rfl⟩

theorem readCaveat_of_reads {tag next : UInt8} {builder : MacaroonBuilder} {c : Caveat}
    {bytes : Bytes} (hf : Deserializer.Fits w d.data) (hc : c.WithinLimits)
    (hlt : builder.caveats.length < maxCaveats)
    (htag : tag :: bytes = serializeCaveat c ++ [next]) (h : d.Reads bytes d') :
    readCaveat w tag builder d =
      .ok (next, { builder with caveats := builder.caveats ++ [c] }, d') := by
  have hadd (c' : Caveat) : builder.addCaveat c' =
      .ok { builder with caveats := builder.caveats ++ [c'] } :=
    MacaroonBuilder.addCaveat_eq_ok.mpr ⟨hlt, rfl⟩
  cases c with
  | firstParty fp =>
    obtain ⟨tag', head, _, hhead⟩ := located_cons none fp.predicate
    have hspell : tag :: bytes = tag' :: (head ++ ([EOS] ++ [next])) := by
      rw [htag, ← List.cons_append, hhead]
      simp [serializeCaveat, serializeLocation]
    obtain ⟨rfl, rfl⟩ := List.cons.inj hspell
    obtain ⟨d₁, hstart, h⟩ := h.split
    obtain ⟨d₂, heos, hnext⟩ := h.split
    have hf₁ : Deserializer.Fits w d₁.data := hstart.1 ▸ hf
    have hf₂ : Deserializer.Fits w d₂.data := heos.1 ▸ hf₁
    have hne : EOS ≠ VID := by decide
    simp only [readCaveat, readLocatedIdentifier_of_reads hf hc (by simp) hhead hstart, ok_bind,
      Deserializer.getTag, Deserializer.getByte_of_reads hf₁ heos,
      Deserializer.getByte_of_reads hf₂ hnext, if_neg hne, if_true, CaveatBuilder.build,
      CaveatBuilder.new, hadd]
    rfl
  | thirdParty tp =>
    obtain ⟨hid, hvid, hloc⟩ := hc
    obtain ⟨tag', head, _, hhead⟩ := located_cons (some tp.location) tp.id
    have hspell : tag :: bytes = tag' ::
        (head ++ ([VID] ++ (varintSize tp.verifierId.length ++ tp.verifierId ++
          ([EOS] ++ [next])))) := by
      rw [htag, ← List.cons_append, hhead]
      simp [serializeCaveat, serializeLocation, serializeField]
    obtain ⟨rfl, rfl⟩ := List.cons.inj hspell
    obtain ⟨d₁, hstart, h⟩ := h.split
    obtain ⟨d₂, hv, h⟩ := h.split
    obtain ⟨d₃, hvfield, h⟩ := h.split
    obtain ⟨d₄, heos, hnext⟩ := h.split
    have hf₁ : Deserializer.Fits w d₁.data := hstart.1 ▸ hf
    have hf₂ : Deserializer.Fits w d₂.data := hv.1 ▸ hf₁
    have hf₃ : Deserializer.Fits w d₃.data := hvfield.1 ▸ hf₂
    have hf₄ : Deserializer.Fits w d₄.data := heos.1 ▸ hf₃
    simp only [readCaveat,
      readLocatedIdentifier_of_reads hf hid (by simpa using hloc) hhead hstart, ok_bind,
      Deserializer.getTag, Deserializer.getByte_of_reads hf₁ hv, if_true,
      Deserializer.getField_of_reads hf₂ hvid hvfield, CaveatBuilder.build,
      CaveatBuilder.addVerifierId, CaveatBuilder.new, hadd,
      Deserializer.getEos_of_reads hf₃ heos, Deserializer.getByte_of_reads hf₄ hnext]
    rfl

theorem caveatLoop_of_reads {tag : UInt8} {builder : MacaroonBuilder} {cs : List Caveat}
    {bytes : Bytes} (hf : Deserializer.Fits w d.data) (hcs : ∀ c ∈ cs, c.WithinLimits)
    (hlen : builder.caveats.length + cs.length ≤ maxCaveats)
    (htag : tag :: bytes = cs.flatMap serializeCaveat ++ [EOS]) (h : d.Reads bytes d') :
    caveatLoop w tag builder d =
      .ok ({ builder with caveats := builder.caveats ++ cs }, d') := by
  induction cs generalizing tag builder bytes d with
  | nil =>
    obtain ⟨rfl, rfl⟩ := List.cons.inj htag
    obtain ⟨hdata, hindex, _⟩ := h
    have hd : d' = d := by
      cases d'
      simp_all
    rw [caveatLoop, if_pos rfl, hd, List.append_nil]
  | cons c cs ih =>
    obtain ⟨tag', head, hne, hhead⟩ := serializeCaveat_cons c
    obtain ⟨next, rest, hrest⟩ : ∃ next rest,
        next :: rest = cs.flatMap serializeCaveat ++ [EOS] := by
      cases hcs' : cs.flatMap serializeCaveat ++ [EOS] with
      | nil => simp at hcs'
      | cons next rest => exact ⟨next, rest, rfl⟩
    have hspell : tag :: bytes = tag' :: (head ++ [next] ++ rest) := by
      rw [htag, List.flatMap_cons, List.append_assoc, ← hrest, ← hhead]
      simp
    obtain ⟨rfl, rfl⟩ := List.cons.inj hspell
    obtain ⟨d₁, hcaveat, h⟩ := h.split
    simp only [List.length_cons] at hlen
    have hlt : builder.caveats.length < maxCaveats := by omega
    have hstep := readCaveat_of_reads hf (hcs c (by simp)) hlt
      (show tag :: (head ++ [next]) = serializeCaveat c ++ [next] by rw [← hhead]; rfl) hcaveat
    rw [caveatLoop, if_neg hne]
    split
    next e he => cases he.symm.trans hstep
    next next' builder' d'' hok =>
      cases hok.symm.trans hstep
      rw [ih (hcaveat.1 ▸ hf) (fun c' hc' => hcs c' (by simp [hc']))
        (by simp only [List.length_append, List.length_singleton]; omega) hrest h]
      simp

theorem readHeader_of_reads {location : Option String} {identifier : Bytes}
    (hf : Deserializer.Fits w d.data) (hid : identifier.length ≤ maxFieldSizeBytes)
    (hloc : ∀ l ∈ location, (asBytes l).length ≤ maxFieldSizeBytes)
    (h : d.Reads ([2] ++ serializeLocation location ++ serializeField IDENTIFIER identifier ++
      [EOS]) d') :
    readHeader w d = .ok (⟨identifier, location, none, []⟩, d') := by
  obtain ⟨tag, bytes, _, hhead⟩ := located_cons location identifier
  rw [List.append_assoc [2], ← hhead, List.append_assoc] at h
  obtain ⟨d₁, hversion, h⟩ := h.split
  obtain ⟨d₂, htag, h⟩ := Deserializer.Reads.uncons h
  obtain ⟨d₃, hstart, heos⟩ := h.split
  have hf₁ : Deserializer.Fits w d₁.data := hversion.1 ▸ hf
  have hf₂ : Deserializer.Fits w d₂.data := htag.1 ▸ hf₁
  have hf₃ : Deserializer.Fits w d₃.data := hstart.1 ▸ hf₂
  simp [readHeader, Deserializer.getByte_of_reads hf hversion, Deserializer.getTag,
    Deserializer.getByte_of_reads hf₁ htag,
    readLocatedIdentifier_of_reads hf₂ hid hloc hhead hstart,
    Deserializer.getEos_of_reads hf₃ heos, rejectIf, failIf, MacaroonBuilder.new]

theorem readSignature_of_reads {builder : MacaroonBuilder} {signature : MacaroonKey}
    (hf : Deserializer.Fits w d.data)
    (h : d.Reads (serializeField SIGNATURE signature.bytes) d') :
    readSignature w builder d = .ok ({ builder with signature := some signature }, d') := by
  have hlen : signature.bytes.length ≤ maxFieldSizeBytes := by
    rw [signature.length_eq]
    decide
  obtain ⟨d₁, htag, hfield⟩ := Deserializer.Reads.uncons h
  have hf₁ : Deserializer.Fits w d₁.data := htag.1 ▸ hf
  simp [readSignature, Deserializer.getTag, Deserializer.getByte_of_reads hf htag,
    Deserializer.getField_of_reads hf₁ hlen hfield, rejectIf, failIf, signature.length_eq,
    MacaroonBuilder.setSignature_bytes]

theorem varintSize_length_le {n : Nat} (h : n ≤ maxFieldSizeBytes) : (varintSize n).length ≤ 3 := by
  simp only [maxFieldSizeBytes] at h
  by_cases h₁ : n < 128
  · simp [varintSize_lt h₁]
  · rw [show n = n % 128 + 128 * (n / 128) by omega, varintSize_group (by omega) (by omega)]
    by_cases h₂ : n / 128 < 128
    · simp [varintSize_lt h₂]
    · rw [show n / 128 = n / 128 % 128 + 128 * (n / 128 / 128) by omega,
        varintSize_group (by omega) (by omega), varintSize_lt (by omega)]
      simp

theorem serializeField_length_le {tag : UInt8} {value : Bytes}
    (h : value.length ≤ maxFieldSizeBytes) : (serializeField tag value).length ≤ 65539 := by
  have hsize := varintSize_length_le h
  simp only [serializeField, List.length_append, List.length_cons]
  simp only [maxFieldSizeBytes] at h
  omega

theorem serializeCaveat_length_le {c : Caveat} (hc : c.WithinLimits) :
    (serializeCaveat c).length ≤ 200000 := by
  cases c with
  | firstParty fp =>
    have hid : (serializeField IDENTIFIER fp.predicate).length ≤ 65539 :=
      serializeField_length_le hc
    simp only [serializeCaveat, List.length_append, List.length_singleton]
    omega
  | thirdParty tp =>
    have hid : (serializeField IDENTIFIER tp.id).length ≤ 65539 :=
      serializeField_length_le hc.1
    have hvid : (serializeField VID tp.verifierId).length ≤ 65539 :=
      serializeField_length_le hc.2.1
    have hloc : (serializeField LOCATION (asBytes tp.location)).length ≤ 65539 :=
      serializeField_length_le hc.2.2
    simp only [serializeCaveat, List.length_append, List.length_singleton]
    omega

theorem serializeCaveats_length_le {cs : List Caveat} (hcs : ∀ c ∈ cs, c.WithinLimits) :
    (cs.flatMap serializeCaveat).length ≤ cs.length * 200000 := by
  induction cs with
  | nil => simp
  | cons c cs ih =>
    have hc := serializeCaveat_length_le (hcs c (by simp))
    have htail := ih fun c' hc' => hcs c' (by simp [hc'])
    simp only [List.flatMap_cons, List.length_append, List.length_cons]
    omega

/-- A serialized macaroon stays far below the word size, on 32 bits too. -/
theorem serializeBinary_fits {m : Macaroon} {data : Bytes} (hm : m.WithinLimits)
    (h : serializeBinary m = .ok data) : Deserializer.Fits w data := by
  have hloc : (serializeLocation m.location).length ≤ 65539 := by
    cases hl : m.location with
    | none => simp [serializeLocation]
    | some l => exact serializeField_length_le (hm.location_le l hl)
  have hid : (serializeField IDENTIFIER m.identifier).length ≤ 65539 :=
    serializeField_length_le hm.identifier_le
  have hcs := serializeCaveats_length_le hm.caveat_le
  have hsig : (serializeField SIGNATURE m.signature.bytes).length ≤ 65539 :=
    serializeField_length_le (by rw [m.signature.length_eq]; decide)
  have hmax := hm.caveats_le
  have hbits : 2 ^ 32 ≤ 2 ^ w.bits := Nat.pow_le_pow_right (by omega) (Deserializer.width_bits w)
  obtain rfl := Except.ok.inj h
  simp only [Deserializer.Fits, List.length_append, List.length_singleton, maxFieldSizeBytes]
  simp only [maxCaveats] at hmax
  omega

/-- The decoder passes a serialized macaroon and then looks whether anything follows. -/
theorem deserialize_append {m : Macaroon} {buf s : Bytes} (hm : m.WithinLimits)
    (h : serializeBinary m = .ok buf) (hf : Deserializer.Fits w (buf ++ s)) :
    deserialize w (buf ++ s) =
      if s = [] then .ok m else deserializationError "trailing data after signature" := by
  obtain ⟨tag, bytes, htag⟩ : ∃ tag bytes,
      tag :: bytes = m.caveats.flatMap serializeCaveat ++ [EOS] := by
    cases hcs : m.caveats.flatMap serializeCaveat ++ [EOS] with
    | nil => simp at hcs
    | cons tag bytes => exact ⟨tag, bytes, rfl⟩
  have hspell : buf = ([2] ++ serializeLocation m.location ++
      serializeField IDENTIFIER m.identifier ++ [EOS]) ++
      (tag :: (bytes ++ serializeField SIGNATURE m.signature.bytes)) := by
    rw [← Except.ok.inj h, ← List.cons_append, htag]
    simp only [List.append_assoc]
  have hall : (Deserializer.new (buf ++ s)).Reads (buf ++ s) ⟨buf ++ s, (buf ++ s).length⟩ :=
    ⟨rfl, Cursor.Reads.whole (buf ++ s)⟩
  obtain ⟨d, hall, hrest⟩ := hall.split
  conv at hall => arg 2; rw [hspell]
  obtain ⟨d₁, hheader, hall⟩ := hall.split
  obtain ⟨d₂, hbyte, hall⟩ := hall.uncons
  obtain ⟨d₃, hloop, hsig⟩ := hall.split
  have hf₁ : Deserializer.Fits w d₁.data := hheader.1 ▸ hf
  have hf₂ : Deserializer.Fits w d₂.data := hbyte.1 ▸ hf₁
  have hf₃ : Deserializer.Fits w d₃.data := hloop.1 ▸ hf₂
  have hne : m.identifier ≠ [] := List.length_pos_iff.mp hm.identifier_pos
  have hcs : caveatLoop w tag ⟨m.identifier, m.location, none, []⟩ d₂ =
      .ok (⟨m.identifier, m.location, none, [] ++ m.caveats⟩, d₃) :=
    caveatLoop_of_reads hf₂ hm.caveat_le (by simpa using hm.caveats_le) htag hloop
  have hlast : d.isExhausted = decide (s = []) := by
    have hdata : d.data = buf ++ s := hrest.1.symm
    have hend : (buf ++ s).length = d.index + s.length := hrest.2.1
    simp only [Deserializer.isExhausted, hdata, hend, ← List.length_eq_zero_iff, decide_eq_decide]
    omega
  simp only [deserialize, readHeader_of_reads hf hm.identifier_le hm.location_le hheader, ok_bind,
    Deserializer.getTag, Deserializer.getByte_of_reads hf₁ hbyte, hcs,
    readSignature_of_reads hf₃ hsig]
  by_cases hs : s = []
  · simp [rejectIf, failIf, hlast, hs, MacaroonBuilder.build, hne]
  · simp [rejectIf, failIf, hlast, hs]

theorem deserialize_serializeBinary {m : Macaroon} {data : Bytes} (hm : m.WithinLimits)
    (h : serializeBinary m = .ok data) : deserialize w data = .ok m := by
  have hrun := deserialize_append (w := w) (s := []) hm h (by
    rw [List.append_nil]
    exact serializeBinary_fits hm h)
  rwa [List.append_nil, if_pos rfl] at hrun

theorem deserializeBinary_serializeBinary {m : Macaroon} {data : Bytes} (hm : m.WithinLimits)
    (h : serializeBinary m = .ok data) : Macaroon.deserializeBinary w data = .ok m := by
  have hne : m.identifier ≠ [] := List.length_pos_iff.mp hm.identifier_pos
  obtain ⟨rest, hdata⟩ : ∃ rest, data = 2 :: rest := ⟨_, (Except.ok.inj h).symm⟩
  have hmatch : Macaroon.matchBinary w 2 data = .ok m := by
    rw [Macaroon.matchBinary, if_pos rfl, deserialize_serializeBinary hm h]
  simp only [Macaroon.deserializeBinary, bind_eq_ok, rejectIf_eq_ok, indexAt_eq_ok,
    Macaroon.validate_eq_ok]
  exact ⟨(), by simp [hdata], 2, by simp [hdata], m, hmatch, hne, rfl⟩

/-- A V2 token of any macaroon within the limits decodes to that macaroon. -/
theorem v2_round_trip (E : Base64Crate) (J : V2Json.SerdeJson) (w : Width) (m : Macaroon)
    (hE : E.Lawful) (hm : m.WithinLimits) :
    ∃ t, m.serialize E J .V2 = .ok t ∧ Macaroon.deserialize E J w (asBytes t) = .ok m := by
  obtain ⟨buf, hbuf⟩ : ∃ buf, serializeBinary m = .ok buf := ⟨_, rfl⟩
  have hne : buf ≠ [] := by
    obtain rfl := Except.ok.inj hbuf
    simp
  refine ⟨E.URL_SAFE.encode buf, ?_, ?_⟩
  · simp only [Macaroon.serialize, hbuf, ok_bind]
    rfl
  · rw [Macaroon.deserialize_encode hE hne, deserializeBinary_serializeBinary hm hbuf, ok_bind]
    exact Macaroon.validate_eq_ok.mpr ⟨List.length_pos_iff.mp hm.identifier_pos, rfl⟩

theorem v2_round_trip_mixed :
    ∃ t, Macaroon.serialize Instances.base64 ⟨fun _ => .error "", fun _ => .error ""⟩
        ⟨[0], some "", zeroKey, [.thirdParty ⟨[], [1, 0], "å"⟩, .firstParty ⟨[]⟩]⟩ .V2 = .ok t ∧
      Macaroon.deserialize Instances.base64 ⟨fun _ => .error "", fun _ => .error ""⟩ .w32
        (asBytes t) =
          .ok ⟨[0], some "", zeroKey, [.thirdParty ⟨[], [1, 0], "å"⟩, .firstParty ⟨[]⟩]⟩ :=
  v2_round_trip _ _ _ _ Instances.base64_lawful (by decide +kernel)

end Libmacaroon.V2
