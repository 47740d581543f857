import EncFS.NameIO.BufferCoders

set_option autoImplicit false

namespace EncFS

structure Statvfs where
  f_namemax : UInt32
  deriving DecidableEq, Repr

def encfsStatfs (res errno : ℤ) (st : Statvfs) : ℤ × Statvfs :=
  -- adjust maximum name length, approximately
  let st := if res = 0 then { st with f_namemax := 6 * (st.f_namemax - 2) / 8 } else st
  let res := if res = -1 then -errno else res
  (res, st)

def nameMax (N : ℕ) : ℕ :=
  6 * (N - 2) / 8

lemma encfsStatfs_nameMax (errno : ℤ) {st : Statvfs} (hst : 2 ≤ st.f_namemax.toNat) :
    (encfsStatfs 0 errno st).2.f_namemax.toNat ≤ nameMax st.f_namemax.toNat ∧
      (6 * st.f_namemax.toNat < 2 ^ 32 →
        (encfsStatfs 0 errno st).2.f_namemax.toNat = nameMax st.f_namemax.toNat) := by
  have hlt := st.f_namemax.toNat_lt
  have hreported : (encfsStatfs 0 errno st).2.f_namemax.toNat =
      6 * ((2 ^ 32 - 2 + st.f_namemax.toNat) % 2 ^ 32) % 2 ^ 32 / 8 := by
    simp only [encfsStatfs, if_true, UInt32.toNat_div, UInt32.toNat_mul, UInt32.toNat_sub]
    rfl
  rw [hreported, nameMax]
  omega

namespace NameCoder

variable {K : NameCoder}

def margin : NameCoder → ℕ
  | stream _ => 1
  | block B => B.bs + 1

open StreamNameIO in
lemma encodeName_total (chainedNameIV : Bool) {name : Bytes} (hne : name ≠ []) (iv : Option UInt64) :
    ∃ encoded iv', (K.naming chainedNameIV).encodeName name iv = .ok (encoded, iv') := by
  cases K with
  | stream S =>
    change ∃ encoded iv', S.encodeName name iv = .ok (encoded, iv')
    rw [encodeName, if_neg fun h => hne h.2]
    exact ⟨_, _, rfl⟩
  | block B => exact ⟨_, _, rfl⟩

lemma encodedStreamLen_le (length : ℕ) : K.encodedStreamLen length ≤ length + K.margin + 1 := by
  cases K with
  | stream S => exact Nat.le_refl _
  | block B =>
    obtain ⟨-, hle, -⟩ := padding_spec B length
    change length + 2 + B.padding length ≤ length + (B.bs + 1) + 1
    omega

lemma encodedStreamLen_inPlace (length : ℕ) :
    K.inPlace.encodedStreamLen length = K.encodedStreamLen length := by
  cases K <;> rfl

lemma symbols_le {n N : ℕ} : B256ToB64Bytes n ≤ N ↔ n ≤ B64ToB256Bytes N := by
  rw [B256ToB64Bytes, B64ToB256Bytes]
  omega

/-- The reported length is approximate: the names of that length need at most a block too much. -/
theorem nameMax_approximate (K : NameCoder) (chainedNameIV : Bool) (iv : Option UInt64) (N : ℕ)
    {name : Bytes} (hne : name ≠ []) :
    (∀ errno st, st.f_namemax.toNat = N → 2 ≤ N →
      (encfsStatfs 0 errno st).2.f_namemax.toNat ≤ nameMax N ∧
        (6 * N < 2 ^ 32 → (encfsStatfs 0 errno st).2.f_namemax.toNat = nameMax N)) ∧
    ∃ encoded iv', (K.inPlace.naming chainedNameIV).encodeName name iv = .ok (encoded, iv') ∧
      (encoded.length ≤ N ↔ K.encodedStreamLen name.length ≤ B64ToB256Bytes N) ∧
      (name.length + K.margin ≤ nameMax N → encoded.length ≤ N) ∧
      (name.length ≤ nameMax N → encoded.length ≤ N + B256ToB64Bytes K.margin) := by
  obtain ⟨encoded, iv', hcode⟩ := encodeName_total (K := K.inPlace) chainedNameIV hne iv
  have hlen := K.keepsLength_inPlace.encodeName_length hcode
  rw [encodedStreamLen_inPlace] at hlen
  have hpos := List.length_pos_iff.mpr hne
  have hle := K.encodedStreamLen_le name.length
  refine ⟨?_, encoded, iv', hcode, ?_, ?_, ?_⟩
  · rintro errno st rfl hN
    exact encfsStatfs_nameMax errno hN
  · rw [hlen, symbols_le]
  · intro hshort
    rw [hlen, symbols_le]
    rw [nameMax] at hshort
    rw [B64ToB256Bytes]
    omega
  · intro hreported
    rw [nameMax] at hreported
    rw [hlen, B256ToB64Bytes, B256ToB64Bytes]
    omega

theorem not_nameMax_usable :
    ¬ ∀ (K : NameCoder) (chainedNameIV : Bool) (iv : Option UInt64) (N : ℕ) (name encoded : Bytes)
      (iv' : Option UInt64), 32 ≤ N → name ≠ [] → name.length ≤ nameMax N →
      (K.inPlace.naming chainedNameIV).encodeName name iv = .ok (encoded, iv') →
      encoded.length ≤ N := by
  intro h
  let K : NameCoder := .block ⟨3, 8, maskCipher, by decide, by decide⟩
  have hname : (List.replicate 189 (97 : UInt8)).length = 189 := List.length_replicate
  have hne : List.replicate 189 (97 : UInt8) ≠ [] := List.ne_nil_of_length_pos (by omega)
  obtain ⟨encoded, iv', hcode⟩ := encodeName_total (K := K.inPlace) true hne none
  have hlen := K.keepsLength_inPlace.encodeName_length hcode
  rw [hname] at hlen
  have hlong : B256ToB64Bytes (K.inPlace.encodedStreamLen 189) = 259 := by decide
  have hshort := h K true none 255 _ encoded iv' (by decide) hne (Nat.le_of_eq hname) hcode
  omega

theorem nameMax_approximate_block :
    ∃ encoded iv', ((block ⟨3, 8, maskCipher, by decide, by decide⟩).inPlace.naming true).encodeName
        (List.replicate 180 97) none = .ok (encoded, iv') ∧ encoded.length ≤ 255 := by
  have hname : (List.replicate 180 (97 : UInt8)).length = 180 := List.length_replicate
  have hne : List.replicate 180 (97 : UInt8) ≠ [] := List.ne_nil_of_length_pos (by omega)
  obtain ⟨-, encoded, iv', hcode, -, hfits, -⟩ :=
    nameMax_approximate (block ⟨3, 8, maskCipher, by decide, by decide⟩) true none 255 hne
  exact ⟨encoded, iv', hcode, hfits (by rw [hname]; decide)⟩

end NameCoder

end EncFS
