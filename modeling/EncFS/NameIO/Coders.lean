import EncFS.NameIO

set_option autoImplicit false

namespace EncFS

structure ValidName (name : Bytes) : Prop where
  ne_nil : name ≠ []
  no_slash : slash ∉ name
  no_null : (0 : UInt8) ∉ name
  not_dots : isDots name = false

def PlainChars (name : Bytes) : Prop :=
  ∀ ch ∈ name, ch ≠ 0 ∧ ch ≠ dot ∧ ch ≠ slash

/-- A name and its encoding in a directory with the IV `iv`, with the IV that either leaves. -/
structure NameIO.Codes (N : NameIO) (iv : Option UInt64) (name encoded : Bytes)
    (iv' : Option UInt64) : Prop where
  encode : N.encodeName name iv = .ok (encoded, iv')
  decode : N.decodeName encoded iv = .ok (name, iv')
  iv_isSome : iv'.isSome = iv.isSome
  ne_nil : encoded ≠ []
  plain : PlainChars encoded
  encoded_fits : (encoded.length : ℤ) ≤ N.maxEncodedNameLen name.length
  name_fits : (name.length : ℤ) ≤ N.maxDecodedNameLen encoded.length

def NameIO.Lawful (N : NameIO) : Prop :=
  ∀ iv name, ValidName name → ∃ encoded iv', N.Codes iv name encoded iv'

structure Cipher.NamesLawful (C : Cipher) (bs : ℕ) : Prop where
  streamEncode_length (iv : UInt64) (d : Bytes) : (C.streamEncode iv d).length = d.length
  streamDecode_streamEncode (iv : UInt64) (d : Bytes) : C.streamDecode iv (C.streamEncode iv d) = d
  blockEncode_length (iv : UInt64) {d : Bytes} : bs ∣ d.length →
    (C.blockEncode iv d).length = d.length
  blockDecode_blockEncode (iv : UInt64) {d : Bytes} : bs ∣ d.length →
    C.blockDecode iv (C.blockEncode iv d) = d

section Checksums

lemma mac16_lt (C : Cipher) (src : Bytes) (iv : Option UInt64) :
    (C.mac16 src iv).1.toNat < 2 ^ 16 := by
  simp only [Cipher.mac16, UInt64.toNat_xor, UInt64.toNat_and]
  exact Nat.xor_lt_two_pow (Nat.and_lt_two_pow _ (by decide)) (Nat.and_lt_two_pow _ (by decide))

lemma mac16_isSome (C : Cipher) (src : Bytes) (iv : Option UInt64) :
    (C.mac16 src iv).2.isSome = iv.isSome :=
  Option.isSome_map

lemma macOfBytes_macBytesOf {mac : UInt64} (h : mac.toNat < 2 ^ 16) :
    macOfBytes (mac >>> 8 &&& 0xff).toUInt8 (mac &&& 0xff).toUInt8 = mac := by
  apply UInt64.toNat_inj.mp
  have hhi : ((mac >>> 8 &&& 0xff).toUInt8).toNat = mac.toNat / 256 := by
    simp only [UInt64.toNat_toUInt8, UInt64.toNat_and, UInt64.toNat_shiftRight,
      Nat.shiftRight_eq_div_pow]
    rw [show (0xff : UInt64).toNat = 2 ^ 8 - 1 from rfl, Nat.and_two_pow_sub_one_eq_mod,
      show (8 : UInt64).toNat % 64 = 8 from rfl]
    omega
  have hlo : ((mac &&& 0xff).toUInt8).toNat = mac.toNat % 256 := by
    simp only [UInt64.toNat_toUInt8, UInt64.toNat_and]
    rw [show (0xff : UInt64).toNat = 2 ^ 8 - 1 from rfl, Nat.and_two_pow_sub_one_eq_mod]
    omega
  rw [macOfBytes, UInt64.toNat_or, UInt64.toNat_shiftLeft, UInt8.toNat_toUInt64,
    UInt8.toNat_toUInt64, hhi, hlo, show (8 : UInt64).toNat % 64 = 8 from rfl, Nat.shiftLeft_eq,
    Nat.mod_eq_of_lt (by omega), Nat.mul_comm,
    ← Nat.two_pow_add_eq_or_of_lt (Nat.mod_lt _ (by decide))]
  omega

end Checksums

lemma asciiToBytes_eq {src : Bytes} (hne : src ≠ []) :
    ∃ junk, asciiToBytes (bytesToAscii src) = src ++ junk := by
  have htake := asciiToBytes_bytesToAscii hne
  refine ⟨(asciiToBytes (bytesToAscii src)).drop src.length, ?_⟩
  calc asciiToBytes (bytesToAscii src)
      = (asciiToBytes (bytesToAscii src)).take src.length ++
          (asciiToBytes (bytesToAscii src)).drop src.length := (List.take_append_drop _ _).symm
    _ = src ++ (asciiToBytes (bytesToAscii src)).drop src.length := by rw [htake]

lemma ascii_codes {N : NameIO} {iv iv' : Option UInt64} {name src : Bytes} (hne : src ≠ [])
    (hiv : iv'.isSome = iv.isSome) (hencode : N.encodeName name iv = .ok (bytesToAscii src, iv'))
    (hdecode : N.decodeName (bytesToAscii src) iv = .ok (name, iv'))
    (hmax : N.maxEncodedNameLen name.length = B256ToB64Bytes src.length)
    (hmax' : N.maxDecodedNameLen (bytesToAscii src).length =
      (B64ToB256Bytes (bytesToAscii src).length : ℤ) - 2)
    (hlen : name.length + 2 ≤ src.length) :
    N.Codes iv name (bytesToAscii src) iv' where
  encode := hencode
  decode := hdecode
  iv_isSome := hiv
  ne_nil := by
    have hpos := List.length_pos_iff.mpr hne
    apply List.length_pos_iff.mp
    rw [bytesToAscii_length hne, B256ToB64Bytes]
    omega
  plain ch hch := bytesToAscii_plain hne hch
  encoded_fits := by rw [hmax, bytesToAscii_length hne]
  name_fits := by
    rw [hmax', bytesToAscii_length hne, b64ToB256_b256ToB64]
    omega

section Stream

variable (S : StreamNameIO)

lemma stream_codes {bs : ℕ} (hC : S.cipher.NamesLawful bs) (chainedNameIV reverse : Bool)
    (iv : Option UInt64) {name : Bytes} (hname : name ≠ []) :
    ∃ encoded iv', (S.nameIO chainedNameIV reverse).Codes iv name encoded iv' := by
  have hpos := List.length_pos_iff.mpr hname
  have hmac := macOfBytes_macBytesOf (mac16_lt S.cipher name iv)
  obtain ⟨mac, iv', hm⟩ : ∃ mac iv', S.cipher.mac16 name iv = (mac, iv') := ⟨_, _, rfl⟩
  have hiv := mac16_isSome S.cipher name iv
  rw [hm] at hmac hiv
  obtain ⟨tmpIV, htmp⟩ : ∃ tmpIV, chainedPart (2 ≤ S.interface) iv = tmpIV := ⟨_, rfl⟩
  have hlen := hC.streamEncode_length (mac ^^^ tmpIV) name
  have hback := hC.streamDecode_streamEncode (mac ^^^ tmpIV) name
  generalize henc : S.cipher.streamEncode (mac ^^^ tmpIV) name = encoded at hlen hback
  have hcount : ¬B256ToB64Bytes (name.length + 2) ≤ 2 := by
    rw [B256ToB64Bytes]
    omega
  by_cases hface : 1 ≤ S.interface
  · have hne : macBytesOf mac ++ encoded ≠ [] := by simp [macBytesOf]
    have hsrc : (macBytesOf mac ++ encoded).length = name.length + 2 := by
      rw [List.length_append, hlen]
      exact Nat.add_comm 2 _
    obtain ⟨junk, hjunk⟩ := asciiToBytes_eq hne
    have hhi : (macBytesOf mac ++ encoded ++ junk).getD 0 0 = (mac >>> 8 &&& 0xff).toUInt8 := rfl
    have hlo : (macBytesOf mac ++ encoded ++ junk).getD 1 0 = (mac &&& 0xff).toUInt8 := rfl
    have hbody : ((macBytesOf mac ++ encoded ++ junk).drop 2).take name.length = encoded := by
      rw [← hlen]
      exact List.take_left
    refine ⟨_, iv', ascii_codes hne hiv ?_ ?_ ?_ rfl (Nat.le_of_eq hsrc.symm)⟩
    · simp only [hname, StreamNameIO.nameIO, StreamNameIO.encodeName, and_false, if_false, hm, htmp,
        henc, if_pos hface]
    · simp only [bytesToAscii_length hne, StreamNameIO.nameIO, StreamNameIO.decodeName, hsrc,
        b64ToB256_b256ToB64, if_neg hcount, if_pos hface, hjunk]
      rw [if_neg (by omega), htmp, hhi, hlo, Nat.add_sub_cancel, hbody, hmac, hback, hm]
      exact if_pos rfl
    · change ((B256ToB64Bytes (2 + name.length) : ℕ) : ℤ) = _
      rw [hsrc, Nat.add_comm]
  · have hzero : tmpIV = 0 := by
      rw [← htmp, chainedPart, if_neg]
      simp only [decide_eq_true_eq]
      omega
    have hne : encoded ++ macBytesOf mac ≠ [] := by simp [macBytesOf]
    have hsrc : (encoded ++ macBytesOf mac).length = name.length + 2 := by
      rw [List.length_append, hlen]
      rfl
    obtain ⟨junk, hjunk⟩ := asciiToBytes_eq hne
    have hhi : (encoded ++ macBytesOf mac ++ junk).getD name.length 0 =
        (mac >>> 8 &&& 0xff).toUInt8 := by
      rw [← hlen]
      simp [macBytesOf]
    have hlo : (encoded ++ macBytesOf mac ++ junk).getD (name.length + 1) 0 =
        (mac &&& 0xff).toUInt8 := by
      rw [← hlen]
      simp [macBytesOf]
    have hbody : (encoded ++ macBytesOf mac ++ junk).take name.length = encoded := by
      rw [← hlen, List.append_assoc]
      exact List.take_left
    refine ⟨_, iv', ascii_codes hne hiv ?_ ?_ ?_ rfl (Nat.le_of_eq hsrc.symm)⟩
    · simp only [hname, StreamNameIO.nameIO, StreamNameIO.encodeName, and_false, if_false, hm, htmp,
        henc, if_neg hface]
    · simp only [bytesToAscii_length hne, StreamNameIO.nameIO, StreamNameIO.decodeName, hsrc,
        b64ToB256_b256ToB64, if_neg hcount, if_neg hface, hjunk]
      rw [if_neg (by omega), Nat.add_sub_cancel, hhi, hlo, hbody, hmac, ← hzero, hback, hm]
      exact if_pos rfl
    · change ((B256ToB64Bytes (2 + name.length) : ℕ) : ℤ) = _
      rw [hsrc, Nat.add_comm]

lemma stream_lawful {bs : ℕ} (hC : S.cipher.NamesLawful bs) (chainedNameIV reverse : Bool) :
    (S.nameIO chainedNameIV reverse).Lawful :=
  fun iv _ hname => stream_codes S hC chainedNameIV reverse iv hname.ne_nil

end Stream

section Block

variable (B : BlockNameIO)

open BlockNameIO in
lemma padding_spec (length : ℕ) :
    0 < B.padding length ∧ B.padding length ≤ B.bs ∧ (length + B.padding length) % B.bs = 0 ∧
      length + B.padding length = (length + B.bs) / B.bs * B.bs := by
  have hlt := Nat.mod_lt length B.bs_pos
  have hdiv := Nat.div_add_mod' length B.bs
  have hpad : B.padding length = B.bs - length % B.bs := by
    rw [padding]
    exact if_neg (by omega)
  have hsum : length + B.padding length = (length / B.bs + 1) * B.bs := by
    rw [hpad, Nat.succ_mul]
    omega
  rw [Nat.add_div_right _ B.bs_pos]
  refine ⟨by omega, by omega, ?_, hsum⟩
  rw [hsum]
  exact Nat.mul_mod_left _ _

lemma block_codes (hC : B.cipher.NamesLawful B.bs) (chainedNameIV reverse : Bool)
    (iv : Option UInt64) (name : Bytes) :
    ∃ encoded iv', (B.nameIO chainedNameIV reverse).Codes iv name encoded iv' := by
  obtain ⟨hpos, hle, hmod, hblocks⟩ := padding_spec B name.length
  have hbs := B.bs_lt
  generalize hpad : B.padding name.length = padding at hpos hle hmod hblocks
  generalize hpadded : name ++ List.replicate padding (UInt8.ofNat padding) = padded
  have hlen : padded.length = name.length + padding := by
    rw [← hpadded, List.length_append, List.length_replicate]
  have hdvd : B.bs ∣ padded.length := by
    rw [hlen]
    exact Nat.dvd_of_mod_eq_zero hmod
  have hmac := macOfBytes_macBytesOf (mac16_lt B.cipher padded iv)
  obtain ⟨mac, iv', hm⟩ : ∃ mac iv', B.cipher.mac16 padded iv = (mac, iv') := ⟨_, _, rfl⟩
  have hiv := mac16_isSome B.cipher padded iv
  rw [hm] at hmac hiv
  obtain ⟨tmpIV, htmp⟩ : ∃ tmpIV, chainedPart (3 ≤ B.interface) iv = tmpIV := ⟨_, rfl⟩
  have hlenc := hC.blockEncode_length (mac ^^^ tmpIV) hdvd
  have hback := hC.blockDecode_blockEncode (mac ^^^ tmpIV) hdvd
  generalize henc : B.cipher.blockEncode (mac ^^^ tmpIV) padded = encoded at hlenc hback
  have hne : macBytesOf mac ++ encoded ≠ [] := by simp [macBytesOf]
  have hsrc : (macBytesOf mac ++ encoded).length = name.length + padding + 2 := by
    rw [List.length_append, hlenc, hlen]
    exact Nat.add_comm 2 _
  obtain ⟨junk, hjunk⟩ := asciiToBytes_eq hne
  have hhi : (macBytesOf mac ++ encoded ++ junk).getD 0 0 = (mac >>> 8 &&& 0xff).toUInt8 := rfl
  have hlo : (macBytesOf mac ++ encoded ++ junk).getD 1 0 = (mac &&& 0xff).toUInt8 := rfl
  have hbody : ((macBytesOf mac ++ encoded ++ junk).drop 2).take (name.length + padding) =
      encoded := by
    rw [← hlen, ← hlenc]
    exact List.take_left
  have hlast : (padded.getD (name.length + padding - 1) 0).toNat = padding := by
    rw [← hpadded, List.getD_eq_getElem?_getD, List.getElem?_append_right (by omega),
      List.getElem?_replicate, if_pos (by omega), Option.getD_some, UInt8.toNat_ofNat']
    omega
  have hname : padded.take name.length = name := by
    rw [← hpadded]
    exact List.take_left
  refine ⟨_, iv', ascii_codes hne hiv ?_ ?_ ?_ rfl (by omega)⟩
  · simp only [hpad, BlockNameIO.nameIO, BlockNameIO.encodeName, hpadded, hm, htmp, henc]
  · simp only [bytesToAscii_length hne, BlockNameIO.nameIO, BlockNameIO.decodeName, hsrc,
      b64ToB256_b256ToB64, hjunk, Nat.add_sub_cancel, hhi, hlo, hmac, htmp, hbody, hback, hlast,
      hm, hname]
    have hfull : B.bs ≤ name.length + padding := by
      have hdvd' : B.bs ∣ name.length + padding := Nat.dvd_of_mod_eq_zero hmod
      exact Nat.le_of_dvd (by omega) hdvd'
    rw [if_neg (by omega), if_neg (not_not_intro hmod), if_neg (by omega)]
    simp
  · change ((B256ToB64Bytes _ : ℕ) : ℤ) = _
    rw [hsrc, hblocks]

lemma block_lawful (hC : B.cipher.NamesLawful B.bs) (chainedNameIV reverse : Bool) :
    (B.nameIO chainedNameIV reverse).Lawful :=
  fun iv name _ => block_codes B hC chainedNameIV reverse iv name

end Block

end EncFS
