import Libmacaroon.Serialization.V2

/-! An accepted V2 token is the token `serialize_binary` writes. -/
namespace Libmacaroon.V2
open Checked Utf8
variable {w : Width} {d d' : Deserializer}

theorem readHeader_reads {builder : MacaroonBuilder}
    (h : readHeader w d = .ok (builder, d')) :
    builder.signature = none ∧ builder.caveats = [] ∧
      builder.identifier.length ≤ maxFieldSizeBytes ∧
      (∀ l ∈ builder.location, (asBytes l).length ≤ maxFieldSizeBytes) ∧
      d.Reads ([2] ++ serializeLocation builder.location ++
        serializeField IDENTIFIER builder.identifier ++ [EOS]) d' := by
  simp only [readHeader, bind_eq_ok, Prod.exists, rejectIf_eq_ok, pure_eq_ok, Prod.mk.injEq] at h
  obtain ⟨version, d₁, hversion, _, heq, tag, d₂, htag, location, id, d₃, hstart, _, d₄, heos,
    rfl, rfl⟩ := h
  rw [Decidable.not_not.mp heq] at hversion
  obtain ⟨hidmax, hlocmax, bytes, hbytes, hread⟩ := readLocatedIdentifier_reads hstart
  refine ⟨rfl, rfl, hidmax, hlocmax, ?_⟩
  have hfields := (Deserializer.getByte_reads htag).trans hread
  rw [List.singleton_append, hbytes] at hfields
  have hall := ((Deserializer.getByte_reads hversion).trans hfields).trans
    (Deserializer.getEos_reads heos)
  simpa only [List.append_assoc] using hall

/-- The loop passes the spellings of the caveats it adds, up to the section end. -/
theorem caveatLoop_reads {tag : UInt8} {builder builder' : MacaroonBuilder}
    (h : caveatLoop w tag builder d = .ok (builder', d'))
    (hlen : builder.caveats.length ≤ maxCaveats) :
    ∃ cs bytes, builder' = { builder with caveats := builder.caveats ++ cs } ∧
      builder'.caveats.length ≤ maxCaveats ∧ (∀ c ∈ cs, c.WithinLimits) ∧
      tag :: bytes = cs.flatMap serializeCaveat ++ [EOS] ∧ d.Reads bytes d' := by
  fun_induction caveatLoop w tag builder d with
  | case1 builder d =>
    cases h
    exact ⟨[], [], by simp, hlen, by simp, by simp, rfl, Cursor.Reads.refl _ _⟩
  | case2 tag builder d htag e he => cases h
  | case3 tag builder d htag next builder₁ d₁ hstep ih =>
    obtain ⟨c, bytes, rfl, hlt, hc, hbytes, hread⟩ := readCaveat_reads hstep
    obtain ⟨cs, bytes', rfl, hlen', hcs, hbytes', hread'⟩ :=
      ih h (by simp only [List.length_append, List.length_singleton]; omega)
    refine ⟨c :: cs, bytes ++ bytes', by simp, hlen', ?_, ?_, hread.trans hread'⟩
    · intro c' hc'
      obtain rfl | hmem := List.mem_cons.mp hc'
      · exact hc
      · exact hcs c' hmem
    · rw [← List.cons_append, hbytes, List.append_assoc, List.singleton_append, hbytes',
        List.flatMap_cons, List.append_assoc]

theorem readSignature_reads {builder builder' : MacaroonBuilder}
    (h : readSignature w builder d = .ok (builder', d')) :
    ∃ signature : MacaroonKey, builder' = { builder with signature := some signature } ∧
      d.Reads (serializeField SIGNATURE signature.bytes) d' := by
  simp only [readSignature, bind_eq_ok, Prod.exists] at h
  obtain ⟨tag, d₁, htag, h⟩ := h
  by_cases ht : tag = SIGNATURE
  · simp only [if_pos ht, bind_eq_ok, Prod.exists, rejectIf_eq_ok, pure_eq_ok, Prod.mk.injEq] at h
    obtain ⟨sig, d₂, hsig, _, hlen, _, hset, rfl, rfl⟩ := h
    rw [MacaroonBuilder.setSignature, dif_pos (Decidable.not_not.mp hlen)] at hset
    obtain rfl := Except.ok.inj hset
    rw [ht] at htag
    exact ⟨_, rfl, (Deserializer.getByte_reads htag).trans (Deserializer.getField_reads hsig).2⟩
  · rw [if_neg ht] at h
    cases h

theorem deserialize_reads {data : Bytes} {m : Macaroon} (h : deserialize w data = .ok m) :
    m.WithinLimits ∧ serializeBinary m = .ok data := by
  simp only [deserialize, bind_eq_ok, Prod.exists, rejectIf_eq_ok] at h
  obtain ⟨builder, d₁, hheader, tag, d₂, htag, builder₂, d₃, hloop, builder₃, d₄, hsig, _, hend,
    hbuild⟩ := h
  obtain ⟨_, hcaveats, hidmax, hlocmax, hread₁⟩ := readHeader_reads hheader
  obtain ⟨cs, bytes, rfl, hlen, hcs, hbytes, hread₂⟩ := caveatLoop_reads hloop (by simp [hcaveats])
  obtain ⟨signature, rfl, hread₃⟩ := readSignature_reads hsig
  obtain ⟨hne, _, ⟨⟩, rfl⟩ := MacaroonBuilder.build_eq_ok.mp hbuild
  simp only [hcaveats, List.nil_append] at *
  refine ⟨⟨List.length_pos_iff.mpr hne, hidmax, hlocmax, hlen, hcs⟩, ?_⟩
  have hcaveatsRead := (Deserializer.getByte_reads htag).trans hread₂
  rw [List.singleton_append, hbytes] at hcaveatsRead
  have hall := (hread₁.trans hcaveatsRead).trans hread₃
  have hend : d₄.data.length ≤ d₄.index := by
    simpa [Deserializer.isExhausted] using hend
  have hdata := hall.2.eq_of_exhausted (hall.1 ▸ hend)
  rw [serializeBinary]
  simp only [Deserializer.new] at hdata
  rw [hdata]
  simp only [List.append_assoc]

/-- V2 is canonical: what is accepted as `m` is exactly the serialization of `m`, so that no two
tokens decode to the same macaroon and no byte of an accepted token is ignored. -/
theorem v2_canonical (w : Width) (b : Bytes) (m : Macaroon) (h : deserialize w b = .ok m) :
    serializeBinary m = .ok b ∧
      ∀ (w' : Width) (b' : Bytes), deserialize w' b' = .ok m → b' = b := by
  have hb := (deserialize_reads h).2
  refine ⟨hb, ?_⟩
  intro w' b' h'
  have hb' := (deserialize_reads h').2
  exact Except.ok.inj (hb'.symm.trans hb)

theorem v2_canonical_third_party :
    serializeBinary ⟨[65], some "", zeroKey, [.thirdParty ⟨[66], [], "c"⟩, .firstParty ⟨[]⟩]⟩ =
      .ok ([2, 1, 0, 2, 1, 65, 0, 1, 1, 99, 2, 1, 66, 4, 0, 0, 2, 0, 0, 0, 6, 32] ++
        List.replicate 32 0) ∧
    ∀ (w' : Width) (b' : Bytes), deserialize w' b' =
        .ok ⟨[65], some "", zeroKey, [.thirdParty ⟨[66], [], "c"⟩, .firstParty ⟨[]⟩]⟩ →
      b' = [2, 1, 0, 2, 1, 65, 0, 1, 1, 99, 2, 1, 66, 4, 0, 0, 2, 0, 0, 0, 6, 32] ++
        List.replicate 32 0 :=
  v2_canonical .w32 _ _ (by decide +kernel)

end Libmacaroon.V2
