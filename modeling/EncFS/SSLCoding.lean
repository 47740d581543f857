import EncFS.Cipher
import Mathlib.Data.UInt

/-! The codings of the SSL ciphers, over the transforms of the cipher library. -/

set_option autoImplicit false

namespace EncFS

section Passes

def xorByte (dst src : ℕ) (buf : Bytes) : Bytes :=
  buf.set dst (buf.getD dst 0 ^^^ buf.getD src 0)

def shuffleBytes (buf : Bytes) : Bytes :=
  (List.range (buf.length - 1)).foldl (fun buf i => xorByte (i + 1) i buf) buf

def unshuffleBytes (buf : Bytes) : Bytes :=
  ((List.range (buf.length - 1)).map (· + 1)).reverse.foldl (fun buf i => xorByte i (i - 1) buf) buf

def flipChunks : (fuel : ℕ) → (buf : Bytes) → Bytes
  | 0, buf => buf
  | fuel + 1, buf =>
    if buf = [] then []
    else
      let toFlip := min 64 buf.length
      (buf.take toFlip).reverse ++ flipChunks fuel (buf.drop toFlip)

def flipBytes (buf : Bytes) : Bytes :=
  flipChunks buf.length buf

lemma xorByte_length (dst src : ℕ) (buf : Bytes) : (xorByte dst src buf).length = buf.length :=
  List.length_set

lemma xorByte_xorByte {dst src : ℕ} (h : dst ≠ src) (buf : Bytes) :
    xorByte dst src (xorByte dst src buf) = buf := by
  by_cases hdst : dst < buf.length
  · have hself : (xorByte dst src buf).getD dst 0 = buf.getD dst 0 ^^^ buf.getD src 0 := by
      simp [xorByte, List.getD_eq_getElem?_getD, hdst]
    have hother : (xorByte dst src buf).getD src 0 = buf.getD src 0 := by
      simp [xorByte, List.getD_eq_getElem?_getD, h]
    rw [xorByte, hself, hother, UInt8.xor_assoc, UInt8.xor_self, UInt8.xor_zero, xorByte,
      List.set_set, List.getD_eq_getElem?_getD, List.getElem?_eq_getElem hdst, Option.getD_some,
      List.set_getElem_self]
  · have hlen := Nat.not_lt.mp hdst
    rw [xorByte, xorByte, List.set_eq_of_length_le hlen, List.set_eq_of_length_le hlen]

lemma foldl_reverse_foldl {α β : Type} {f : β → α → β} (hf : ∀ b a, f (f b a) a = b) (l : List α)
    (b : β) : l.reverse.foldl f (l.foldl f b) = b := by
  induction l generalizing b with
  | nil => rfl
  | cons a l ih =>
    rw [List.reverse_cons, List.foldl_append, List.foldl_cons, List.foldl_cons, List.foldl_nil, ih]
    exact hf b a

def shuffleStep (buf : Bytes) (i : ℕ) : Bytes := xorByte (i + 1) i buf

lemma shuffleStep_shuffleStep (buf : Bytes) (i : ℕ) : shuffleStep (shuffleStep buf i) i = buf :=
  xorByte_xorByte (Nat.succ_ne_self i) buf

lemma foldl_shuffleStep_length (l : List ℕ) (buf : Bytes) :
    (l.foldl shuffleStep buf).length = buf.length := by
  induction l generalizing buf with
  | nil => rfl
  | cons i l ih => rw [List.foldl_cons, ih, shuffleStep, xorByte_length]

lemma unshuffleBytes_eq (buf : Bytes) : unshuffleBytes buf =
    (List.range (buf.length - 1)).reverse.foldl shuffleStep buf := by
  rw [unshuffleBytes, ← List.map_reverse, List.foldl_map]
  rfl

@[simp] lemma shuffleBytes_length (buf : Bytes) : (shuffleBytes buf).length = buf.length :=
  foldl_shuffleStep_length _ buf

@[simp] lemma unshuffleBytes_length (buf : Bytes) : (unshuffleBytes buf).length = buf.length := by
  rw [unshuffleBytes_eq, foldl_shuffleStep_length]

@[simp] lemma unshuffleBytes_shuffleBytes (buf : Bytes) :
    unshuffleBytes (shuffleBytes buf) = buf := by
  rw [unshuffleBytes_eq, shuffleBytes_length]
  exact foldl_reverse_foldl shuffleStep_shuffleStep _ buf

@[simp] lemma shuffleBytes_unshuffleBytes (buf : Bytes) :
    shuffleBytes (unshuffleBytes buf) = buf := by
  have h := foldl_reverse_foldl shuffleStep_shuffleStep
    (List.range (buf.length - 1)).reverse buf
  rw [List.reverse_reverse] at h
  rw [shuffleBytes, unshuffleBytes_length, unshuffleBytes_eq]
  exact h

lemma flipChunks_spec (fuel : ℕ) (buf : Bytes) :
    (flipChunks fuel buf).length = buf.length ∧ flipChunks fuel (flipChunks fuel buf) = buf := by
  induction fuel generalizing buf with
  | zero => exact ⟨rfl, rfl⟩
  | succ fuel ih =>
    by_cases hnil : buf = []
    · subst hnil
      exact ⟨rfl, rfl⟩
    obtain ⟨hlen, hback⟩ := ih (buf.drop (min 64 buf.length))
    have hflip : flipChunks (fuel + 1) buf = (buf.take (min 64 buf.length)).reverse ++
        flipChunks fuel (buf.drop (min 64 buf.length)) := by
      rw [flipChunks, if_neg hnil]
    have hfirst : (buf.take (min 64 buf.length)).reverse.length = min 64 buf.length := by
      simp
    have hsame : (flipChunks (fuel + 1) buf).length = buf.length := by
      rw [hflip, List.length_append, hfirst, hlen, List.length_drop]
      omega
    refine ⟨hsame, ?_⟩
    have hne : flipChunks (fuel + 1) buf ≠ [] := by
      rw [← List.length_pos_iff, hsame]
      exact List.length_pos_iff.mpr hnil
    rw [flipChunks, if_neg hne, hsame]
    dsimp only
    rw [hflip, List.take_left' hfirst, List.drop_left' hfirst, List.reverse_reverse, hback,
      List.take_append_drop]

@[simp] lemma flipBytes_length (buf : Bytes) : (flipBytes buf).length = buf.length :=
  (flipChunks_spec _ buf).1

@[simp] lemma flipBytes_flipBytes (buf : Bytes) : flipBytes (flipBytes buf) = buf := by
  rw [flipBytes, flipBytes_length]
  exact (flipChunks_spec _ buf).2

end Passes

/-- What is used of the cipher library: the stream and block transforms of a key and an initial
vector, and the keyed hash. -/
structure EVP where
  streamEnc : (key ivec : Bytes) → Bytes → Bytes
  streamDec : (key ivec : Bytes) → Bytes → Bytes
  blockEnc : (key ivec : Bytes) → Bytes → Bytes
  blockDec : (key ivec : Bytes) → Bytes → Bytes
  blockSize : ℕ
  hmac : (key : Bytes) → Bytes → Bytes

namespace EVP

structure StreamLaws (E : EVP) : Prop where
  enc_length (key ivec d : Bytes) : (E.streamEnc key ivec d).length = d.length
  dec_length (key ivec d : Bytes) : (E.streamDec key ivec d).length = d.length
  dec_enc (key ivec d : Bytes) : E.streamDec key ivec (E.streamEnc key ivec d) = d
  enc_dec (key ivec d : Bytes) : E.streamEnc key ivec (E.streamDec key ivec d) = d

structure BlockLaws (E : EVP) : Prop where
  enc_length (key ivec : Bytes) {d : Bytes} : d.length % E.blockSize = 0 →
    (E.blockEnc key ivec d).length = d.length
  dec_length (key ivec : Bytes) {d : Bytes} : d.length % E.blockSize = 0 →
    (E.blockDec key ivec d).length = d.length
  dec_enc (key ivec : Bytes) {d : Bytes} : d.length % E.blockSize = 0 →
    E.blockDec key ivec (E.blockEnc key ivec d) = d
  enc_dec (key ivec : Bytes) {d : Bytes} : d.length % E.blockSize = 0 →
    E.blockEnc key ivec (E.blockDec key ivec d) = d

def HashLaw (E : EVP) : Prop := ∀ key d : Bytes, (E.hmac key d).length = 20

structure Laws (E : EVP) : Prop where
  hash : E.HashLaw
  stream : E.StreamLaws
  block : E.BlockLaws

end EVP

structure SSLCodings where
  evp : EVP
  current : ℤ
  keySize : ℕ
  ivLength : ℕ
  ivLength_eq : ivLength = 8 ∨ ivLength = 16

def seedBytes (seed : UInt64) : Bytes :=
  (List.range 8).map fun i => (seed >>> (8 * i).toUInt64).toUInt8

namespace SSLCodings

variable (S : SSLCodings)

def KeyData (key : Bytes) : Bytes := key.take S.keySize

def IVData (key : Bytes) : Bytes := key.drop S.keySize

def setIVecOld (seed : UInt32) (key : Bytes) : Bytes :=
  let var1 : UInt32 := 0x060a4011 * seed
  let var2 : UInt32 := 0x0221040d * (seed ^^^ 0xD3FEA11C)
  let mask := [(var1 >>> 24).toUInt8, (var2 >>> 16).toUInt8, (var1 >>> 8).toUInt8, var2.toUInt8,
    (var2 >>> 24).toUInt8, (var1 >>> 16).toUInt8, (var2 >>> 8).toUInt8, var1.toUInt8]
  let mask' := [var1.toUInt8, (var2 >>> 8).toUInt8, (var1 >>> 16).toUInt8, (var2 >>> 24).toUInt8,
    (var1 >>> 24).toUInt8, (var2 >>> 16).toUInt8, (var1 >>> 8).toUInt8, var2.toUInt8]
  ((S.IVData key).take S.ivLength).zipWith (· ^^^ ·)
    (if 8 < S.ivLength then mask ++ mask' else mask)

def setIVec (seed : UInt64) (key : Bytes) : Except RlogError Bytes :=
  if 3 ≤ S.current then
    let ivec := (S.IVData key).take S.ivLength
    let md := S.evp.hmac (S.KeyData key) (ivec ++ seedBytes seed)
    if S.ivLength ≤ md.length then .ok (md.take S.ivLength) else .error .assertFailed
  else
    .ok (S.setIVecOld seed.toUInt32 key)

def checkKey (key : Bytes) : Except RlogError Unit :=
  if key.length = S.keySize + S.ivLength then .ok () else .error .assertFailed

def streamEncode (key : Bytes) (iv64 : UInt64) (buf : Bytes) : Except RlogError Bytes :=
  if 0 < buf.length then do
    S.checkKey key
    let buf := shuffleBytes buf
    let ivec ← S.setIVec iv64 key
    let buf := S.evp.streamEnc (S.KeyData key) ivec buf
    let buf := flipBytes buf
    let buf := shuffleBytes buf
    let ivec ← S.setIVec (iv64 + 1) key
    return S.evp.streamEnc (S.KeyData key) ivec buf
  else .error .assertFailed

def streamDecode (key : Bytes) (iv64 : UInt64) (buf : Bytes) : Except RlogError Bytes :=
  if 0 < buf.length then do
    S.checkKey key
    let ivec ← S.setIVec (iv64 + 1) key
    let buf := S.evp.streamDec (S.KeyData key) ivec buf
    let buf := unshuffleBytes buf
    let buf := flipBytes buf
    let ivec ← S.setIVec iv64 key
    let buf := S.evp.streamDec (S.KeyData key) ivec buf
    return unshuffleBytes buf
  else .error .assertFailed

def blockEncode (key : Bytes) (iv64 : UInt64) (buf : Bytes) : Except RlogError Bytes :=
  if 0 < buf.length then do
    S.checkKey key
    if buf.length % S.evp.blockSize ≠ 0 then .error .invalidBlockSize else do
    let ivec ← S.setIVec iv64 key
    return S.evp.blockEnc (S.KeyData key) ivec buf
  else .error .assertFailed

def blockDecode (key : Bytes) (iv64 : UInt64) (buf : Bytes) : Except RlogError Bytes :=
  if 0 < buf.length then do
    S.checkKey key
    if buf.length % S.evp.blockSize ≠ 0 then .error .invalidBlockSize else do
    let ivec ← S.setIVec iv64 key
    return S.evp.blockDec (S.KeyData key) ivec buf
  else .error .assertFailed

def checksum64 (key data : Bytes) (chainedIV : Option UInt64) : Except RlogError UInt64 :=
  if 0 < data.length then
    let md := S.evp.hmac (S.KeyData key) (data ++ chainedIV.elim [] seedBytes)
    if 8 ≤ md.length then
      let h := (List.range (md.length - 1)).foldl
        (fun h i => h.set (i % 8) (h.getD (i % 8) 0 ^^^ md.getD i 0)) (List.replicate 8 0)
      .ok (ivOfBytes h)
    else .error .assertFailed
  else .error .assertFailed

section Stream

variable {S} {key buf : Bytes}

lemma setIVec_ok (hhash : S.evp.HashLaw) (seed : UInt64) (key : Bytes) :
    ∃ ivec, S.setIVec seed key = .ok ivec := by
  rw [setIVec]
  split
  · refine ⟨_, if_pos ?_⟩
    have := S.ivLength_eq
    rw [hhash]
    omega
  · exact ⟨_, rfl⟩

lemma checkKey_ok (hkey : key.length = S.keySize + S.ivLength) : S.checkKey key = .ok () :=
  if_pos hkey

variable (hhash : S.evp.HashLaw) (hlaws : S.evp.StreamLaws)
  (hkey : key.length = S.keySize + S.ivLength) (hpos : 0 < buf.length)

include hhash hlaws hkey hpos

lemma streamEncode_spec (iv64 : UInt64) :
    ∃ coded, S.streamEncode key iv64 buf = .ok coded ∧ coded.length = buf.length ∧
      S.streamDecode key iv64 coded = .ok buf := by
  obtain ⟨ivec, hivec⟩ := setIVec_ok hhash iv64 key
  obtain ⟨ivec', hivec'⟩ := setIVec_ok hhash (iv64 + 1) key
  let middle := S.evp.streamEnc (S.KeyData key) ivec (shuffleBytes buf)
  let coded := S.evp.streamEnc (S.KeyData key) ivec' (shuffleBytes (flipBytes middle))
  have hencode : S.streamEncode key iv64 buf = .ok coded := by
    rw [streamEncode, if_pos hpos, checkKey_ok hkey, hivec, hivec']
    rfl
  have hlen : coded.length = buf.length := by
    simp [coded, middle, hlaws.enc_length]
  refine ⟨coded, hencode, hlen, ?_⟩
  rw [streamDecode, if_pos (hlen ▸ hpos), checkKey_ok hkey, hivec, hivec']
  -- each pass of the decoding undoes the pass of the encoding that is still the outermost
  have hmiddle : flipBytes (unshuffleBytes (S.evp.streamDec (S.KeyData key) ivec' coded)) =
      middle := by
    rw [hlaws.dec_enc, unshuffleBytes_shuffleBytes, flipBytes_flipBytes]
  change Except.ok (unshuffleBytes (S.evp.streamDec (S.KeyData key) ivec
    (flipBytes (unshuffleBytes (S.evp.streamDec (S.KeyData key) ivec' coded))))) = _
  rw [hmiddle, hlaws.dec_enc, unshuffleBytes_shuffleBytes]

lemma streamDecode_spec (iv64 : UInt64) :
    ∃ plain, S.streamDecode key iv64 buf = .ok plain ∧ plain.length = buf.length ∧
      S.streamEncode key iv64 plain = .ok buf := by
  obtain ⟨ivec, hivec⟩ := setIVec_ok hhash iv64 key
  obtain ⟨ivec', hivec'⟩ := setIVec_ok hhash (iv64 + 1) key
  let middle := flipBytes (unshuffleBytes (S.evp.streamDec (S.KeyData key) ivec' buf))
  let plain := unshuffleBytes (S.evp.streamDec (S.KeyData key) ivec middle)
  have hdecode : S.streamDecode key iv64 buf = .ok plain := by
    rw [streamDecode, if_pos hpos, checkKey_ok hkey, hivec, hivec']
    rfl
  have hlen : plain.length = buf.length := by
    simp [plain, middle, hlaws.dec_length]
  refine ⟨plain, hdecode, hlen, ?_⟩
  rw [streamEncode, if_pos (hlen ▸ hpos), checkKey_ok hkey, hivec, hivec']
  have hmiddle : S.evp.streamEnc (S.KeyData key) ivec (shuffleBytes plain) = middle := by
    rw [shuffleBytes_unshuffleBytes, hlaws.enc_dec]
  change Except.ok (S.evp.streamEnc (S.KeyData key) ivec' (shuffleBytes (flipBytes
    (S.evp.streamEnc (S.KeyData key) ivec (shuffleBytes plain))))) = _
  rw [hmiddle, flipBytes_flipBytes, shuffleBytes_unshuffleBytes, hlaws.enc_dec]

/-- The stream coding and its decoding undo each other in either order, on every length. -/
theorem streamCoding_inverse (iv64 : UInt64) :
    (∃ coded, S.streamEncode key iv64 buf = .ok coded ∧ coded.length = buf.length ∧
      S.streamDecode key iv64 coded = .ok buf) ∧
    ∃ plain, S.streamDecode key iv64 buf = .ok plain ∧ plain.length = buf.length ∧
      S.streamEncode key iv64 plain = .ok buf :=
  ⟨streamEncode_spec hhash hlaws hkey hpos iv64, streamDecode_spec hhash hlaws hkey hpos iv64⟩

end Stream

def cipher (key : Bytes) : Cipher where
  blockEncode iv d := (S.blockEncode key iv d).toOption.getD d
  blockDecode iv d := (S.blockDecode key iv d).toOption.getD d
  streamEncode iv d := (S.streamEncode key iv d).toOption.getD d
  streamDecode iv d := (S.streamDecode key iv d).toOption.getD d
  mac64 d iv := (S.checksum64 key d iv).toOption.getD 0
  checksSize := true

section Block

variable {S} {key buf : Bytes} (hhash : S.evp.HashLaw) (hlaws : S.evp.BlockLaws)
  (hkey : key.length = S.keySize + S.ivLength) (hpos : 0 < buf.length)
  (hblock : buf.length % S.evp.blockSize = 0)

include hhash hlaws hkey hpos hblock

lemma blockEncode_spec (iv64 : UInt64) :
    ∃ coded, S.blockEncode key iv64 buf = .ok coded ∧ coded.length = buf.length ∧
      S.blockDecode key iv64 coded = .ok buf := by
  obtain ⟨ivec, hivec⟩ := setIVec_ok hhash iv64 key
  have hlen := hlaws.enc_length (S.KeyData key) ivec hblock
  refine ⟨S.evp.blockEnc (S.KeyData key) ivec buf, ?_, hlen, ?_⟩
  · rw [blockEncode, if_pos hpos, checkKey_ok hkey, hivec]
    exact if_neg (not_not.mpr hblock)
  · rw [blockDecode, if_pos (hlen ▸ hpos), checkKey_ok hkey, hivec]
    refine (if_neg (not_not.mpr (hlen ▸ hblock))).trans ?_
    exact congrArg Except.ok (hlaws.dec_enc (S.KeyData key) ivec hblock)

lemma blockDecode_spec (iv64 : UInt64) :
    ∃ plain, S.blockDecode key iv64 buf = .ok plain ∧ plain.length = buf.length ∧
      S.blockEncode key iv64 plain = .ok buf := by
  obtain ⟨ivec, hivec⟩ := setIVec_ok hhash iv64 key
  have hlen := hlaws.dec_length (S.KeyData key) ivec hblock
  refine ⟨S.evp.blockDec (S.KeyData key) ivec buf, ?_, hlen, ?_⟩
  · rw [blockDecode, if_pos hpos, checkKey_ok hkey, hivec]
    exact if_neg (not_not.mpr hblock)
  · rw [blockEncode, if_pos (hlen ▸ hpos), checkKey_ok hkey, hivec]
    refine (if_neg (not_not.mpr (hlen ▸ hblock))).trans ?_
    exact congrArg Except.ok (hlaws.enc_dec (S.KeyData key) ivec hblock)

end Block

section Lawful

variable {code decode : Bytes → Except RlogError Bytes} {d : Bytes}

lemma coded_of_spec (h : ∃ coded, code d = .ok coded ∧ coded.length = d.length ∧
    decode coded = .ok d) :
    ((code d).toOption.getD d).length = d.length ∧
      (decode ((code d).toOption.getD d)).toOption.getD ((code d).toOption.getD d) = d := by
  obtain ⟨coded, hcoded, hlen, hback⟩ := h
  rw [hcoded]
  change coded.length = d.length ∧ (decode coded).toOption.getD coded = d
  exact ⟨hlen, by rw [hback]; rfl⟩

variable {S} {key : Bytes}

lemma getD_error {x : Except RlogError Bytes} (h : x = .error .assertFailed) :
    x.toOption.getD d = d := by
  rw [h]
  rfl

lemma cipher_isNull (hkey : key.length ≠ S.keySize + S.ivLength) : (S.cipher key).IsNull := by
  have hcheck : S.checkKey key = .error .assertFailed := if_neg hkey
  constructor <;> intro iv d <;> refine getD_error ?_
  case blockEncode =>
    rw [SSLCodings.blockEncode, hcheck]
    exact ite_self _
  case blockDecode =>
    rw [SSLCodings.blockDecode, hcheck]
    exact ite_self _
  case streamEncode =>
    rw [SSLCodings.streamEncode, hcheck]
    exact ite_self _
  case streamDecode =>
    rw [SSLCodings.streamDecode, hcheck]
    exact ite_self _

lemma cipher_lawful (h : S.evp.Laws) (key : Bytes) {bs : ℕ} (hbs : bs % S.evp.blockSize = 0) :
    (S.cipher key).Lawful bs := by
  by_cases hkey : key.length = S.keySize + S.ivLength
  swap
  · exact (cipher_isNull hkey).lawful bs
  have hsplit (d : Bytes) : d = [] ∨ 0 < d.length := by
    rw [List.length_pos_iff]
    exact eq_or_ne d []
  have hstreamEnc (iv : UInt64) (d : Bytes) := (hsplit d).imp_right fun hd =>
    coded_of_spec (streamEncode_spec h.hash h.stream hkey hd iv)
  have hstreamDec (iv : UInt64) (d : Bytes) := (hsplit d).imp_right fun hd =>
    coded_of_spec (streamDecode_spec h.hash h.stream hkey hd iv)
  have hblockEnc (iv : UInt64) {d : Bytes} (hd : d.length = bs) := (hsplit d).imp_right fun hpos =>
    coded_of_spec (blockEncode_spec h.hash h.block hkey hpos (hd ▸ hbs) iv)
  have hblockDec (iv : UInt64) {d : Bytes} (hd : d.length = bs) := (hsplit d).imp_right fun hpos =>
    coded_of_spec (blockDecode_spec h.hash h.block hkey hpos (hd ▸ hbs) iv)
  constructor
  case blockEncode_length =>
    intro iv d hd
    rcases hblockEnc iv hd with rfl | h
    · exact hd
    · exact h.1.trans hd
  case blockDecode_length =>
    intro iv d hd
    rcases hblockDec iv hd with rfl | h
    · exact hd
    · exact h.1.trans hd
  case blockDecode_blockEncode =>
    intro iv d hd
    rcases hblockEnc iv hd with rfl | h
    · rfl
    · exact h.2
  case blockEncode_blockDecode =>
    intro iv d hd
    rcases hblockDec iv hd with rfl | h
    · rfl
    · exact h.2
  case streamEncode_length =>
    intro iv d
    rcases hstreamEnc iv d with rfl | h
    · rfl
    · exact h.1
  case streamDecode_length =>
    intro iv d
    rcases hstreamDec iv d with rfl | h
    · rfl
    · exact h.1
  case streamDecode_streamEncode =>
    intro iv d
    rcases hstreamEnc iv d with rfl | h
    · rfl
    · exact h.2
  case streamEncode_streamDecode =>
    intro iv d
    rcases hstreamDec iv d with rfl | h
    · rfl
    · exact h.2

end Lawful

end SSLCodings

def maskEVP : EVP where
  streamEnc key ivec d := d.map (· ^^^ (key.headD 0 ^^^ ivec.headD 0))
  streamDec key ivec d := d.map (· ^^^ (key.headD 0 ^^^ ivec.headD 0))
  blockEnc key ivec d := d.map (· ^^^ (key.headD 0 ^^^ ivec.headD 0))
  blockDec key ivec d := d.map (· ^^^ (key.headD 0 ^^^ ivec.headD 0))
  blockSize := 8
  hmac key d := (List.range 20).map fun i => key.sum + d.sum * 31 + i.toUInt8

def maskCodings : SSLCodings where
  evp := maskEVP
  current := 3
  keySize := 2
  ivLength := 8
  ivLength_eq := .inl rfl

lemma maskEVP_hashLaw : maskEVP.HashLaw := fun _ _ => by simp [maskEVP]

lemma maskEVP_streamLaws : maskEVP.StreamLaws where
  enc_length _ _ _ := List.length_map _
  dec_length _ _ _ := List.length_map _
  dec_enc _ _ d := mask_mask _ d
  enc_dec _ _ d := mask_mask _ d

lemma maskEVP_laws (blockSize : ℕ) : { maskEVP with blockSize }.Laws where
  hash := maskEVP_hashLaw
  stream :=
    { enc_length := maskEVP_streamLaws.enc_length
      dec_length := maskEVP_streamLaws.dec_length
      dec_enc := maskEVP_streamLaws.dec_enc
      enc_dec := maskEVP_streamLaws.enc_dec }
  block :=
    { enc_length := fun _ _ _ _ => List.length_map _
      dec_length := fun _ _ _ _ => List.length_map _
      dec_enc := fun _ _ d _ => mask_mask _ d
      enc_dec := fun _ _ d _ => mask_mask _ d }

theorem SSLCodings.streamCoding_inverse_mask :
    (∃ coded, maskCodings.streamEncode (List.replicate 10 5) 0xffffffffffffffff
        (List.replicate 65 7) = .ok coded ∧ coded.length = 65 ∧
      maskCodings.streamDecode (List.replicate 10 5) 0xffffffffffffffff coded =
        .ok (List.replicate 65 7)) ∧
    ∃ plain, maskCodings.streamDecode (List.replicate 10 5) 0xffffffffffffffff
        (List.replicate 65 7) = .ok plain ∧ plain.length = 65 ∧
      maskCodings.streamEncode (List.replicate 10 5) 0xffffffffffffffff plain =
        .ok (List.replicate 65 7) :=
  SSLCodings.streamCoding_inverse (S := maskCodings) maskEVP_hashLaw maskEVP_streamLaws rfl
    (by decide) 0xffffffffffffffff

end EncFS
