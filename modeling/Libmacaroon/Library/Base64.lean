import Mathlib.Tactic.Common

/-! Base64 (RFC 4648) over any alphabet: bytes regrouped into sextets, one symbol a sextet, and
padding that a decoder may find or not. -/
namespace Base64

/-- The padding sign `=`. -/
def pad : UInt8 := 61

structure Alphabet where
  symbol : Fin 64 → UInt8
  injective : Function.Injective symbol
  ne_pad : ∀ s, symbol s ≠ pad

def first (a : UInt8) : Fin 64 := ⟨a.toNat / 4, by have := a.toNat_lt; omega⟩

def second (a b : UInt8) : Fin 64 :=
  ⟨a.toNat % 4 * 16 + b.toNat / 16, by have := b.toNat_lt; omega⟩

def third (b c : UInt8) : Fin 64 :=
  ⟨b.toNat % 16 * 4 + c.toNat / 64, by have := c.toNat_lt; omega⟩

def fourth (c : UInt8) : Fin 64 := ⟨c.toNat % 64, by omega⟩

/- The last group is filled up with zero bits. -/
def sextets : List UInt8 → List (Fin 64)
  | [] => []
  | [a] => [first a, second a 0]
  | [a, b] => [first a, second a b, third b 0]
  | a :: b :: c :: rest => first a :: second a b :: third b c :: fourth c :: sextets rest

def padding (padded : Bool) (b : List UInt8) : List UInt8 :=
  if padded then List.replicate ((3 - b.length % 3) % 3) pad else []

variable (A : Alphabet)

def encode (padded : Bool) (b : List UInt8) : List UInt8 :=
  (sextets b).map A.symbol ++ padding padded b

def value (c : UInt8) : Option (Fin 64) := (List.finRange 64).find? fun s => A.symbol s = c

def firstByte (s t : Fin 64) : UInt8 := UInt8.ofNat (s.val * 4 + t.val / 16)

def secondByte (t u : Fin 64) : UInt8 := UInt8.ofNat (t.val % 16 * 16 + u.val / 4)

def thirdByte (u v : Fin 64) : UInt8 := UInt8.ofNat (u.val % 4 * 64 + v.val)

/-- The bytes of complete sextets; filled-up bits must be zero. -/
def joinSextets : List (Fin 64) → Option (List UInt8)
  | [] => some []
  | [_] => none
  | [s, t] => if t.val % 16 = 0 then some [firstByte s t] else none
  | [s, t, u] => if u.val % 4 = 0 then some [firstByte s t, secondByte t u] else none
  | s :: t :: u :: v :: rest => do
    let bytes ← joinSextets rest
    return firstByte s t :: secondByte t u :: thirdByte u v :: bytes

/-- Decoding, with the right padding or with none. -/
def decode (text : List UInt8) : Option (List UInt8) := do
  let body := text.takeWhile (· ≠ pad)
  let signs := text.dropWhile (· ≠ pad)
  let s ← body.mapM (value A)
  let bytes ← joinSextets s
  if signs = [] ∨ signs = padding true bytes then some bytes else none

/-- Decoding that is indifferent to padding: any part of the right padding will do. -/
def decodeLenient (text : List UInt8) : Option (List UInt8) := do
  let body := text.takeWhile (· ≠ pad)
  let signs := text.dropWhile (· ≠ pad)
  let s ← body.mapM (value A)
  let bytes ← joinSextets s
  if signs.isPrefixOf (padding true bytes) then some bytes else none

variable {A}

theorem value_symbol (s : Fin 64) : value A (A.symbol s) = some s := by
  have hfound : (value A (A.symbol s)).isSome := by
    simp [value, List.find?_isSome]
  obtain ⟨t, ht⟩ := Option.isSome_iff_exists.mp hfound
  have heq := List.find?_some ht
  have : t = s := A.injective (by simpa using heq)
  rw [ht, this]

theorem firstByte_sextets (a b : UInt8) : firstByte (first a) (second a b) = a := by
  have ha := a.toNat_lt
  have hb := b.toNat_lt
  have hsum : a.toNat / 4 * 4 + (a.toNat % 4 * 16 + b.toNat / 16) / 16 = a.toNat := by omega
  simp only [firstByte, first, second, hsum, UInt8.ofNat_toNat]

theorem secondByte_sextets (a b c : UInt8) : secondByte (second a b) (third b c) = b := by
  have hb := b.toNat_lt
  have hc := c.toNat_lt
  have hsum : (a.toNat % 4 * 16 + b.toNat / 16) % 16 * 16 +
      (b.toNat % 16 * 4 + c.toNat / 64) / 4 = b.toNat := by omega
  simp only [secondByte, second, third, hsum, UInt8.ofNat_toNat]

theorem thirdByte_sextets (b c : UInt8) : thirdByte (third b c) (fourth c) = c := by
  have hc := c.toNat_lt
  have hsum : (b.toNat % 16 * 4 + c.toNat / 64) % 4 * 64 + c.toNat % 64 = c.toNat := by omega
  simp only [thirdByte, third, fourth, hsum, UInt8.ofNat_toNat]

theorem joinSextets_sextets (b : List UInt8) : joinSextets (sextets b) = some b := by
  induction b using sextets.induct with
  | case1 => rfl
  | case2 a =>
    have hzero : (second a 0).val % 16 = 0 := by simp [second]
    rw [sextets, joinSextets, if_pos hzero, firstByte_sextets]
  | case3 a b =>
    have hzero : (third b 0).val % 4 = 0 := by simp [third]
    rw [sextets, joinSextets, if_pos hzero, firstByte_sextets, secondByte_sextets]
  | case4 a b c rest ih =>
    simp [sextets, joinSextets, ih, firstByte_sextets, secondByte_sextets, thirdByte_sextets]

theorem mapM_value_symbols (s : List (Fin 64)) : (s.map A.symbol).mapM (value A) = some s := by
  induction s with
  | nil => rfl
  | cons x s ih => simp [value_symbol, ih]

theorem symbols_ne_pad (s : List (Fin 64)) : ∀ c ∈ s.map A.symbol, c ≠ pad := by
  intro c hc
  obtain ⟨x, _, rfl⟩ := List.mem_map.mp hc
  exact A.ne_pad x

/- Where the symbols end and the padding begins. -/
theorem takeWhile_body {body signs : List UInt8} (hbody : ∀ c ∈ body, c ≠ pad)
    (hsigns : ∀ c ∈ signs, c = pad) : (body ++ signs).takeWhile (· ≠ pad) = body := by
  have hall : ∀ c ∈ body, decide (c ≠ pad) = true := by simpa using hbody
  rw [List.takeWhile_append_of_pos hall]
  cases signs with
  | nil => simp
  | cons c cs => simp [hsigns c (by simp)]

theorem dropWhile_body {body signs : List UInt8} (hbody : ∀ c ∈ body, c ≠ pad)
    (hsigns : ∀ c ∈ signs, c = pad) : (body ++ signs).dropWhile (· ≠ pad) = signs := by
  have hall : ∀ c ∈ body, decide (c ≠ pad) = true := by simpa using hbody
  rw [List.dropWhile_append_of_pos hall]
  cases signs with
  | nil => rfl
  | cons c cs => simp [hsigns c (by simp)]

theorem padding_eq_pad {padded : Bool} {b : List UInt8} : ∀ c ∈ padding padded b, c = pad := by
  intro c hc
  cases padded with
  | false => simp [padding] at hc
  | true => exact (List.mem_replicate.mp hc).2

/-- Decoding takes back encoding, padded or not. -/
theorem decode_encode (padded : Bool) (b : List UInt8) :
    decode A (encode A padded b) = some b := by
  have hfits : padding padded b = [] ∨ padding padded b = padding true b := by
    cases padded with
    | false => exact .inl rfl
    | true => exact .inr rfl
  simp only [decode, encode, takeWhile_body (symbols_ne_pad _) padding_eq_pad,
    dropWhile_body (symbols_ne_pad _) padding_eq_pad, mapM_value_symbols, joinSextets_sextets,
    Option.bind_eq_bind, Option.bind_some, if_pos hfits]

theorem value_eq_some {c : UInt8} {s : Fin 64} : value A c = some s ↔ A.symbol s = c := by
  constructor
  · intro h
    simpa using List.find?_some h
  · intro h
    rw [← h, value_symbol]

theorem mapM_value_eq_some {text : List UInt8} {s : List (Fin 64)} :
    text.mapM (value A) = some s ↔ text = s.map A.symbol := by
  constructor
  · intro h
    induction text generalizing s with
    | nil =>
      cases h
      rfl
    | cons c text ih =>
      simp only [List.mapM_cons, Option.bind_eq_bind, Option.bind_eq_some_iff, Option.pure_def,
        Option.some.injEq] at h
      obtain ⟨x, hx, xs, hxs, rfl⟩ := h
      rw [List.map_cons, ← ih hxs, value_eq_some.mp hx]
  · intro h
    rw [h, mapM_value_symbols]

theorem first_firstByte (s t : Fin 64) : first (firstByte s t) = s := by
  apply Fin.ext
  simp only [first, firstByte, UInt8.toNat_ofNat']
  omega

theorem second_bytes (s t u : Fin 64) : second (firstByte s t) (secondByte t u) = t := by
  apply Fin.ext
  simp only [second, firstByte, secondByte, UInt8.toNat_ofNat']
  omega

theorem second_last {s t : Fin 64} (h : t.val % 16 = 0) : second (firstByte s t) 0 = t := by
  apply Fin.ext
  simp only [second, firstByte, UInt8.toNat_ofNat', UInt8.toNat_zero]
  omega

theorem third_bytes (t u v : Fin 64) : third (secondByte t u) (thirdByte u v) = u := by
  apply Fin.ext
  simp only [third, secondByte, thirdByte, UInt8.toNat_ofNat']
  omega

theorem third_last {t u : Fin 64} (h : u.val % 4 = 0) : third (secondByte t u) 0 = u := by
  apply Fin.ext
  simp only [third, secondByte, UInt8.toNat_ofNat', UInt8.toNat_zero]
  omega

theorem fourth_thirdByte (u v : Fin 64) : fourth (thirdByte u v) = v := by
  apply Fin.ext
  simp only [fourth, thirdByte, UInt8.toNat_ofNat']
  omega

/-- Bytes are joined from one list of sextets only: filled-up bits are zero. -/
theorem sextets_of_joinSextets {s : List (Fin 64)} {b : List UInt8} (h : joinSextets s = some b) :
    sextets b = s := by
  induction s using joinSextets.induct generalizing b with
  | case1 =>
    cases h
    rfl
  | case2 => cases h
  | case3 s t hzero =>
    rw [joinSextets, if_pos hzero] at h
    cases h
    rw [sextets, first_firstByte, second_last hzero]
  | case4 s t hzero =>
    rw [joinSextets, if_neg hzero] at h
    cases h
  | case5 s t u hzero =>
    rw [joinSextets, if_pos hzero] at h
    cases h
    rw [sextets, first_firstByte, second_bytes, third_last hzero]
  | case6 s t u hzero =>
    rw [joinSextets, if_neg hzero] at h
    cases h
  | case7 s t u v rest ih =>
    simp only [joinSextets, Option.bind_eq_bind, Option.bind_eq_some_iff, Option.pure_def,
      Option.some.injEq] at h
    obtain ⟨bytes, hbytes, rfl⟩ := h
    rw [sextets, first_firstByte, second_bytes, third_bytes, fourth_thirdByte, ih hbytes]

theorem length_le_sextets (b : List UInt8) : b.length ≤ (sextets b).length := by
  induction b using sextets.induct with
  | case1 => simp
  | case2 a => simp [sextets]
  | case3 a b => simp [sextets]
  | case4 a b c rest ih =>
    simp only [sextets, List.length_cons]
    omega

/-- Three bytes take four symbols. -/
theorem four_mul_length_le (b : List UInt8) : 4 * b.length ≤ 3 * (sextets b).length := by
  induction b using sextets.induct with
  | case1 => simp
  | case2 a => simp [sextets]
  | case3 a b => simp [sextets]
  | case4 a b c rest ih =>
    simp only [sextets, List.length_cons]
    omega

/-- Decoded bytes take no more room than their text. -/
theorem decode_length_le {text b : List UInt8} (h : decode A text = some b) :
    b.length ≤ text.length := by
  simp only [decode, Option.bind_eq_bind, Option.bind_eq_some_iff] at h
  obtain ⟨s, hs, bytes, hbytes, hpad⟩ := h
  split at hpad
  · cases hpad
    have hbody := congrArg List.length (mapM_value_eq_some.mp hs)
    have hle := (List.takeWhile_sublist (l := text) (· ≠ pad)).length_le
    have hsextets := length_le_sextets b
    rw [sextets_of_joinSextets hbytes] at hsextets
    rw [List.length_map] at hbody
    omega
  · cases hpad

theorem encode_unpadded (b : List UInt8) : encode A false b = (sextets b).map A.symbol := by
  simp [encode, padding]

/-- A text decodes to `b` exactly when it is the encoding of `b` with no more padding than is due. -/
theorem decodeLenient_eq_some {text b : List UInt8} : decodeLenient A text = some b ↔
    ∃ signs, signs <+: padding true b ∧ text = encode A false b ++ signs := by
  constructor
  · intro h
    simp only [decodeLenient, Option.bind_eq_bind, Option.bind_eq_some_iff] at h
    obtain ⟨s, hs, bytes, hbytes, hpad⟩ := h
    split at hpad
    next hprefix =>
      cases hpad
      refine ⟨text.dropWhile (· ≠ pad), List.isPrefixOf_iff_prefix.mp hprefix, ?_⟩
      rw [encode_unpadded, sextets_of_joinSextets hbytes, ← mapM_value_eq_some.mp hs,
        List.takeWhile_append_dropWhile]
    next => cases hpad
  · intro h
    obtain ⟨signs, hsigns, rfl⟩ := h
    have hall : ∀ c ∈ signs, c = pad := fun c hc => padding_eq_pad c (hsigns.subset hc)
    have hprefix := List.isPrefixOf_iff_prefix.mpr hsigns
    simp only [decodeLenient, encode_unpadded, takeWhile_body (symbols_ne_pad _) hall,
      dropWhile_body (symbols_ne_pad _) hall, mapM_value_symbols, joinSextets_sextets,
      Option.bind_eq_bind, Option.bind_some, if_pos hprefix]

theorem encode_ne_nil {padded : Bool} {b : List UInt8} (hb : b ≠ []) : encode A padded b ≠ [] := by
  have hs : sextets b ≠ [] := by
    fun_cases sextets b with
    | case1 => exact absurd rfl hb
    | case2 a => simp
    | case3 a b => simp
    | case4 a b c rest => simp
  simp [encode, hs]

@[simp] theorem encode_nil (padded : Bool) : encode A padded [] = [] := by
  cases padded <;> rfl

/-- What occurs in an encoding. -/
theorem mem_encode {padded : Bool} {b : List UInt8} {c : UInt8} (hc : c ∈ encode A padded b) :
    c = pad ∨ ∃ s, A.symbol s = c := by
  obtain hs | hp := List.mem_append.mp hc
  · obtain ⟨s, _, hs⟩ := List.mem_map.mp hs
    exact .inr ⟨s, hs⟩
  · cases padded with
    | false => simp [padding] at hp
    | true => exact .inl (List.mem_replicate.mp hp).2

/-- Two alphabets write the same text when they agree on the symbols that occur. -/
theorem encode_congr {A' : Alphabet} {padded : Bool} {b : List UInt8}
    (h : ∀ s, A.symbol s ∈ encode A padded b → A.symbol s = A'.symbol s) :
    encode A padded b = encode A' padded b := by
  have hmap : (sextets b).map A.symbol = (sextets b).map A'.symbol := by
    refine List.map_congr_left fun s hs => h s ?_
    exact List.mem_append_left _ (List.mem_map_of_mem hs)
  rw [encode, encode, hmap]

/- The usual alphabets differ in the last two symbols only. -/
def usualSymbol (s62 s63 : UInt8) (s : Fin 64) : UInt8 :=
  if s.val < 26 then UInt8.ofNat (65 + s.val)
  else if s.val < 52 then UInt8.ofNat (71 + s.val)
  else if s.val < 62 then UInt8.ofNat (s.val - 4)
  else if s.val = 62 then s62
  else s63

/-- The standard alphabet, which ends with `+` and `/`. -/
def standard : Alphabet where
  symbol := usualSymbol 43 47
  injective := fun s t => by revert s t; decide +kernel
  ne_pad := by decide +kernel

/-- The URL-safe alphabet, which ends with `-` and `_`. -/
def urlSafe : Alphabet where
  symbol := usualSymbol 45 95
  injective := fun s t => by revert s t; decide +kernel
  ne_pad := by decide +kernel

theorem urlSafe_symbol (s : Fin 64) :
    urlSafe.symbol s = 45 ∨ urlSafe.symbol s = 95 ∨ urlSafe.symbol s = standard.symbol s := by
  revert s
  decide +kernel

theorem standard_ne (s : Fin 64) : standard.symbol s ≠ 95 ∧ standard.symbol s ≠ 45 := by
  revert s
  decide +kernel

theorem standard_lt (s : Fin 64) : standard.symbol s < 123 := by
  revert s
  decide +kernel

theorem urlSafe_lt (s : Fin 64) : urlSafe.symbol s < 123 := by
  revert s
  decide +kernel

end Base64
