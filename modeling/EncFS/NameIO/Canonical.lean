import EncFS.NameIO.PathCoding
import Mathlib.Data.Set.Finite.List

set_option autoImplicit false

namespace EncFS

lemma finite_bytes (n : ℕ) : Finite {d : Bytes // d.length = n} := by
  have hbyte : Finite UInt8 := Finite.of_injective UInt8.toFin fun _ _ h => UInt8.toFin_inj.mp h
  exact (List.finite_length_eq UInt8 n).to_subtype

lemma inverse_of_length {n : ℕ} {f g : Bytes → Bytes} (hf : ∀ d, d.length = n → (f d).length = n)
    (hg : ∀ d, d.length = n → g (f d) = d) {d : Bytes} (hd : d.length = n) :
    f (g d) = d ∧ (g d).length = n := by
  have := finite_bytes n
  let F : {d : Bytes // d.length = n} → {d : Bytes // d.length = n} := fun x => ⟨f x, hf x x.2⟩
  have hinj : Function.Injective F := by
    intro x y h
    apply Subtype.ext
    have hval : f x = f y := congrArg Subtype.val h
    rw [← hg x x.2, ← hg y y.2, hval]
  obtain ⟨x, hx⟩ := (Finite.injective_iff_surjective.mp hinj) ⟨d, hd⟩
  have hfx : f x = d := congrArg Subtype.val hx
  rw [← hfx, hg x x.2]
  exact ⟨rfl, x.2⟩

namespace Cipher.NamesLawful

variable {C : Cipher} {bs : ℕ} (hC : C.NamesLawful bs)
include hC

lemma streamEncode_streamDecode (iv : UInt64) (d : Bytes) :
    C.streamEncode iv (C.streamDecode iv d) = d :=
  (inverse_of_length (fun x hx => (hC.streamEncode_length iv x).trans hx)
    (fun x _ => hC.streamDecode_streamEncode iv x) rfl).1

lemma blockEncode_blockDecode (iv : UInt64) {d : Bytes} (h : bs ∣ d.length) :
    C.blockEncode iv (C.blockDecode iv d) = d ∧ (C.blockDecode iv d).length = d.length :=
  inverse_of_length (fun _ hx => (hC.blockEncode_length iv (hx ▸ h)).trans hx)
    (fun _ hx => hC.blockDecode_blockEncode iv (hx ▸ h)) rfl

end Cipher.NamesLawful

lemma macBytesOf_macOfBytes (hi lo : UInt8) : macBytesOf (macOfBytes hi lo) = [hi, lo] := by
  have hhi := hi.toNat_lt
  have hlo := lo.toNat_lt
  have hmac : (macOfBytes hi lo).toNat = hi.toNat * 256 + lo.toNat := by
    rw [macOfBytes, UInt64.toNat_or, UInt64.toNat_shiftLeft, UInt8.toNat_toUInt64,
      UInt8.toNat_toUInt64, show (8 : UInt64).toNat % 64 = 8 from rfl, Nat.shiftLeft_eq,
      Nat.mod_eq_of_lt (by omega), Nat.mul_comm,
      ← Nat.two_pow_add_eq_or_of_lt (by omega)]
  have hfirst : (macOfBytes hi lo >>> 8 &&& 0xff).toUInt8 = hi := by
    apply UInt8.toNat_inj.mp
    simp only [UInt64.toNat_toUInt8, UInt64.toNat_and, UInt64.toNat_shiftRight, hmac,
      Nat.shiftRight_eq_div_pow]
    rw [show (0xff : UInt64).toNat = 2 ^ 8 - 1 from rfl, Nat.and_two_pow_sub_one_eq_mod,
      show (8 : UInt64).toNat % 64 = 8 from rfl]
    omega
  have hsecond : (macOfBytes hi lo &&& 0xff).toUInt8 = lo := by
    apply UInt8.toNat_inj.mp
    simp only [UInt64.toNat_toUInt8, UInt64.toNat_and, hmac]
    rw [show (0xff : UInt64).toNat = 2 ^ 8 - 1 from rfl, Nat.and_two_pow_sub_one_eq_mod]
    omega
  rw [macBytesOf, hfirst, hsecond]

/-- What the base 64 conversion makes of some bytes: only characters of the alphabet, no more of
them than are needed, and no bits set after the last byte. -/
def IsBase64 (encodedName : Bytes) : Prop :=
  ∃ src, encodedName = bytesToAscii src

lemma IsBase64.parts {s : Bytes} (h : IsBase64 s) (hlong : 2 < B64ToB256Bytes s.length) :
    ∃ hi lo body, s = bytesToAscii (hi :: lo :: body) ∧
      B64ToB256Bytes s.length = body.length + 2 ∧
      ∃ junk, asciiToBytes s = hi :: lo :: (body ++ junk) := by
  obtain ⟨src, rfl⟩ := h
  have hne : src ≠ [] := by
    rintro rfl
    exact absurd hlong (by decide)
  rw [bytesToAscii_length hne, b64ToB256_b256ToB64] at hlong ⊢
  obtain ⟨junk, hjunk⟩ := asciiToBytes_eq hne
  rcases src with _ | ⟨hi, _ | ⟨lo, body⟩⟩
  · exact absurd rfl hne
  · exact absurd hlong (by simp)
  · exact ⟨hi, lo, body, rfl, rfl, junk, hjunk⟩

section Stream

variable (S : StreamNameIO)

open StreamNameIO in
lemma stream_encode_decode {bs : ℕ} (hC : S.cipher.NamesLawful bs) (hface : 1 ≤ S.interface)
    {iv iv' : Option UInt64} {s n : Bytes} (h : S.decodeName s iv = .ok (n, iv')) :
    S.encodeName n iv = .ok (s, iv') ↔ IsBase64 s := by
  constructor
  · intro hencode
    rw [encodeName] at hencode
    split at hencode
    · cases hencode
    · simp only [Except.ok.injEq, Prod.mk.injEq] at hencode
      exact ⟨_, hencode.1.symm⟩
  · intro hbase
    have hlong : 2 < B64ToB256Bytes s.length := by
      by_contra hshort
      rw [decodeName] at h
      split at h
      · cases h
      · simp only [if_pos (Nat.not_lt.mp hshort)] at h
        cases h
    obtain ⟨hi, lo, body, rfl, hcount, junk, hjunk⟩ := hbase.parts hlong
    have hbody : (body ++ junk).take body.length = body := List.take_left
    have hlen : ¬(bytesToAscii (hi :: lo :: body)).length ≤ 2 := by
      rw [B64ToB256Bytes] at hlong
      omega
    rw [decodeName, if_neg hlen] at h
    rw [hcount] at hlong h
    simp only [if_neg (Nat.not_le.mpr hlong), if_pos hface, hjunk, Nat.add_sub_cancel,
      List.getD_cons_zero, List.getD_cons_succ, List.drop_succ_cons, List.drop_zero, hbody] at h
    split at h
    case isFalse => cases h
    case isTrue hmac =>
      obtain ⟨rfl, hiv⟩ := Prod.mk.inj (Except.ok.inj h)
      have hname : ¬(S.cipher.streamDecode
          (macOfBytes hi lo ^^^ chainedPart (2 ≤ S.interface) iv) body) = [] := by
        intro hnil
        have hback := hC.streamEncode_streamDecode
          (macOfBytes hi lo ^^^ chainedPart (2 ≤ S.interface) iv) body
        have hsame := hC.streamEncode_length
          (macOfBytes hi lo ^^^ chainedPart (2 ≤ S.interface) iv) []
        rw [hnil] at hback
        rw [hback, List.length_nil] at hsame
        omega
      simp only [hname, StreamNameIO.encodeName, and_false, if_false, if_pos hface, hmac, hiv,
        hC.streamEncode_streamDecode, macBytesOf_macOfBytes]
      rfl

end Stream

namespace BlockNameIO

variable (B : BlockNameIO)

def decodedBlocks (encodedName : Bytes) (iv : Option UInt64) : Bytes :=
  let tmpBuf := asciiToBytes encodedName
  let mac := macOfBytes (tmpBuf.getD 0 0) (tmpBuf.getD 1 0)
  B.cipher.blockDecode (mac ^^^ chainedPart (3 ≤ B.interface) iv)
    ((tmpBuf.drop 2).take (B64ToB256Bytes encodedName.length - 2))

def padded (name : Bytes) : Bytes :=
  name ++ List.replicate (B.padding name.length) (UInt8.ofNat (B.padding name.length))

def WellPadded (blocks : Bytes) : Prop :=
  ∃ name, blocks = B.padded name

end BlockNameIO

section Block

variable (B : BlockNameIO)

open BlockNameIO in
lemma padded_length (name : Bytes) : (B.padded name).length = name.length + B.padding name.length := by
  rw [padded, List.length_append, List.length_replicate]

lemma padded_last (name : Bytes) :
    ((B.padded name).getD ((B.padded name).length - 1) 0).toNat = B.padding name.length := by
  obtain ⟨hpos, hle, -, -⟩ := padding_spec B name.length
  have hbs := B.bs_lt
  rw [padded_length, BlockNameIO.padded, List.getD_eq_getElem?_getD,
    List.getElem?_append_right (by omega), List.getElem?_replicate, if_pos (by omega),
    Option.getD_some, UInt8.toNat_ofNat']
  omega

open BlockNameIO in
lemma block_decoded {s n : Bytes} {iv iv' : Option UInt64} (h : B.decodeName s iv = .ok (n, iv')) :
    B.bs + 2 ≤ B64ToB256Bytes s.length ∧ B.bs ∣ B64ToB256Bytes s.length - 2 ∧
      n = (B.decodedBlocks s iv).take (B64ToB256Bytes s.length - 2 -
        ((B.decodedBlocks s iv).getD (B64ToB256Bytes s.length - 2 - 1) 0).toNat) ∧
      B.cipher.mac16 (B.decodedBlocks s iv) iv =
        (macOfBytes ((asciiToBytes s).getD 0 0) ((asciiToBytes s).getD 1 0), iv') := by
  rw [decodeName] at h
  split at h
  case isTrue => cases h
  case isFalse hlong =>
    dsimp only at h
    split at h
    case isTrue => cases h
    case isFalse hblocks =>
      split at h
      case isTrue => cases h
      case isFalse hpad =>
        split at h
        case isFalse => cases h
        case isTrue hmac =>
          obtain ⟨hn, hiv⟩ := Prod.mk.inj (Except.ok.inj h)
          exact ⟨Nat.not_lt.mp hlong, Nat.dvd_of_mod_eq_zero (not_not.mp hblocks), hn.symm,
            Prod.ext hmac hiv⟩

open BlockNameIO in
lemma decodedBlocks_eq {hi lo : UInt8} {body : Bytes} (iv : Option UInt64) :
    B.decodedBlocks (bytesToAscii (hi :: lo :: body)) iv =
      B.cipher.blockDecode (macOfBytes hi lo ^^^ chainedPart (3 ≤ B.interface) iv) body := by
  have hne : hi :: lo :: body ≠ [] := List.cons_ne_nil _ _
  obtain ⟨junk, hjunk⟩ := asciiToBytes_eq hne
  have hbody : (body ++ junk).take body.length = body := List.take_left
  rw [decodedBlocks, hjunk, bytesToAscii_length hne, b64ToB256_b256ToB64]
  simp only [List.cons_append, List.getD_cons_zero, List.getD_cons_succ, List.drop_succ_cons,
    List.drop_zero, List.length_cons]
  rw [show body.length + 1 + 1 - 2 = body.length from rfl, hbody]

lemma block_encode_decode (hC : B.cipher.NamesLawful B.bs) {iv iv' : Option UInt64} {s n : Bytes}
    (h : B.decodeName s iv = .ok (n, iv')) :
    B.encodeName n iv = .ok (s, iv') ↔ IsBase64 s ∧ B.WellPadded (B.decodedBlocks s iv) := by
  obtain ⟨hlong, hdvd, hn, hmac⟩ := block_decoded B h
  constructor
  · intro hencode
    obtain ⟨mac, iv₁, hm⟩ : ∃ mac iv₁, B.cipher.mac16 (B.padded n) iv = (mac, iv₁) := ⟨_, _, rfl⟩
    obtain ⟨rfl, -⟩ := Prod.mk.inj (Except.ok.inj hencode)
    refine ⟨⟨_, rfl⟩, n, ?_⟩
    change B.decodedBlocks (bytesToAscii (macBytesOf (B.cipher.mac16 (B.padded n) iv).1 ++
      B.cipher.blockEncode ((B.cipher.mac16 (B.padded n) iv).1 ^^^
        chainedPart (3 ≤ B.interface) iv) (B.padded n))) iv = B.padded n
    have hback := macOfBytes_macBytesOf (mac16_lt B.cipher (B.padded n) iv)
    have hblocks : B.bs ∣ (B.padded n).length := by
      rw [padded_length]
      exact Nat.dvd_of_mod_eq_zero (padding_spec B n.length).2.2.1
    rw [macBytesOf, List.cons_append, List.cons_append, List.nil_append, decodedBlocks_eq, hback,
      hC.blockDecode_blockEncode _ hblocks]
  · rintro ⟨hbase, name, hname⟩
    obtain ⟨hi, lo, body, rfl, hcount, junk, hjunk⟩ := hbase.parts (by have := B.bs_pos; omega)
    rw [hcount, Nat.add_sub_cancel] at hdvd hn
    rw [hname, hjunk] at hmac
    rw [decodedBlocks_eq] at hname
    obtain ⟨hencode, hlen⟩ := hC.blockEncode_blockDecode
      (macOfBytes hi lo ^^^ chainedPart (3 ≤ B.interface) iv) hdvd
    rw [hname] at hencode hlen
    have htake : n = name := by
      rw [decodedBlocks_eq, hname, ← hlen, padded_last, padded_length, Nat.add_sub_cancel,
        BlockNameIO.padded] at hn
      exact hn.trans List.take_left
    subst htake
    change Except.ok (bytesToAscii (macBytesOf (B.cipher.mac16 (B.padded n) iv).1 ++
      B.cipher.blockEncode ((B.cipher.mac16 (B.padded n) iv).1 ^^^
        chainedPart (3 ≤ B.interface) iv) (B.padded n)), (B.cipher.mac16 (B.padded n) iv).2) = _
    rw [hmac]
    simp only [List.getD_cons_zero, List.getD_cons_succ, macBytesOf_macOfBytes, hencode]
    rfl

end Block

inductive NameCoder
  | stream (S : StreamNameIO)
  | block (B : BlockNameIO)

namespace NameCoder

def naming (chainedNameIV : Bool) : NameCoder → NameIO
  | stream S => S.nameIO chainedNameIV false
  | block B => B.nameIO chainedNameIV false

def Checked : NameCoder → Prop
  | stream S => 1 ≤ S.interface ∧ ∃ bs, S.cipher.NamesLawful bs
  | block B => B.cipher.NamesLawful B.bs

/-- An encoded name as `encodeName` writes them. -/
def Canonical (iv : Option UInt64) (encodedName : Bytes) : NameCoder → Prop
  | stream _ => IsBase64 encodedName
  | block B => IsBase64 encodedName ∧ B.WellPadded (B.decodedBlocks encodedName iv)

variable {K : NameCoder} {chainedNameIV : Bool}

lemma forward (K : NameCoder) : (K.naming chainedNameIV).reverseEncryption = false := by
  cases K <;> rfl

lemma Checked.lawful (h : K.Checked) : (K.naming chainedNameIV).Lawful := by
  cases K with
  | stream S =>
    obtain ⟨-, bs, hC⟩ := h
    exact stream_lawful S hC chainedNameIV false
  | block B => exact block_lawful B h chainedNameIV false

lemma encode_decode (h : K.Checked) {iv iv' : Option UInt64} {s n : Bytes}
    (hs : (K.naming chainedNameIV).decodeName s iv = .ok (n, iv')) :
    (K.naming chainedNameIV).encodeName n iv = .ok (s, iv') ↔ K.Canonical iv s := by
  cases K with
  | stream S =>
    obtain ⟨hface, bs, hC⟩ := h
    exact stream_encode_decode S hC hface hs
  | block B => exact block_encode_decode B h hs

/-- A name that decodes is encoded as it was just when it is in the form that the coder writes. So
entries in that form have different names, and the name that is listed for one of them leads to it. -/
theorem decoded_names (K : NameCoder) (h : K.Checked) (chainedNameIV : Bool) :
    (∀ iv s n iv', (K.naming chainedNameIV).decodeName s iv = .ok (n, iv') →
      ((K.naming chainedNameIV).encodeName n iv = .ok (s, iv') ↔ K.Canonical iv s)) ∧
    (∀ iv s t n iv₁ iv₂, K.Canonical iv s → K.Canonical iv t →
      (K.naming chainedNameIV).decodeName s iv = .ok (n, iv₁) →
      (K.naming chainedNameIV).decodeName t iv = .ok (n, iv₂) → s = t) ∧
    ∀ (D : DirNode) (d q e n : Bytes) (iv : UInt64) (iv' : Option UInt64),
      D.naming = K.naming chainedNameIV → (0 : UInt8) ∉ d → D.naming.encodePathIV d 0 = .ok (q, iv) →
      K.Canonical (D.naming.chained iv) e →
      D.naming.decodeName e (D.naming.chained iv) = .ok (n, iv') → ValidName n →
      (∃ iv₁, D.naming.decodePathIV e iv = .ok (n, iv₁)) ∧
        D.cipherPath (d ++ slash :: n) = .ok (D.rootDir ++ NameIO.childPath q e) := by
  refine ⟨fun iv s n iv' hs => encode_decode h hs, ?_, ?_⟩
  · intro iv s t n iv₁ iv₂ hs ht hdec hdec'
    have henc := (encode_decode h hdec).mpr hs
    have henc' := (encode_decode h hdec').mpr ht
    rw [henc] at henc'
    exact (Prod.mk.inj (Except.ok.inj henc')).1
  · intro D d q e n iv iv' hD hnull hd hcanon hdec hvalid
    rw [hD] at hd hcanon hdec ⊢
    have henc := (encode_decode h hdec).mpr hcanon
    have hentry : (K.naming chainedNameIV).Entry iv n e := .name hvalid henc
    exact ⟨hentry.decode h.lawful (forward K),
      NameIO.cipherPath_entry h.lawful (forward K) hD hnull hd hentry⟩

theorem not_decoded_names :
    ((stream NameIO.maskStreamNames).naming true).decodeName [45, 99, 49, 74, 44] (some 0) =
        .ok ([97], some 314) ∧
      ((stream NameIO.maskStreamNames).naming true).decodeName [45, 99, 49, 74] (some 0) =
        .ok ([97], some 314) ∧
      ((stream NameIO.maskStreamNames).naming true).encodeName [97] (some 0) ≠
        .ok ([45, 99, 49, 74, 44], some 314) := by
  refine ⟨by decide +kernel, by decide +kernel, by decide +kernel⟩

theorem decoded_names_maskStreamNames :
    ((stream NameIO.maskStreamNames).naming true).encodeName [98, 99] (some 314) =
        .ok ([45, 80, 73, 50, 69, 44], some 311618) ∧
      (∀ t iv', (stream NameIO.maskStreamNames).Canonical (some 314) t →
        ((stream NameIO.maskStreamNames).naming true).decodeName t (some 314) =
          .ok ([98, 99], iv') → [45, 80, 73, 50, 69, 44] = t) ∧
      (DirNode.mk [47, 114, 47] <| NameIO.maskStreamNames.nameIO true false).cipherPath
          ([47, 97] ++ slash :: [98, 99]) =
        .ok ([47, 114, 47] ++ NameIO.childPath [45, 99, 49, 74] [45, 80, 73, 50, 69, 44]) := by
  have hchecked : (stream NameIO.maskStreamNames).Checked :=
    ⟨by decide, 8, NameIO.maskCipher_namesLawful 8⟩
  have hbase : IsBase64 [45, 80, 73, 50, 69, 44] := ⟨[193, 70, 17, 16], by decide +kernel⟩
  have hdec : ((stream NameIO.maskStreamNames).naming true).decodeName [45, 80, 73, 50, 69, 44]
      (some 314) = .ok ([98, 99], some 311618) := by decide +kernel
  obtain ⟨hcode, hinj, hpath⟩ := decoded_names (stream NameIO.maskStreamNames) hchecked true
  refine ⟨(hcode _ _ _ _ hdec).mpr hbase, fun t iv' ht h => hinj _ _ _ _ _ _ hbase ht hdec h, ?_⟩
  exact (hpath (DirNode.mk [47, 114, 47] <| NameIO.maskStreamNames.nameIO true false) [47, 97]
    [45, 99, 49, 74] _ _ 314 (some 311618) rfl (by decide) NameIO.maskStreamNames_dir hbase hdec
    ⟨by decide, by decide, by decide, by decide⟩).2

end NameCoder

end EncFS
