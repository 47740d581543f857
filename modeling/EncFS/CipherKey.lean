import EncFS.ConfigReader
import EncFS.SSLCoding

/-! The keys of a cipher, derived from passwords, and the coding of the volume key. -/

set_option autoImplicit false

namespace EncFS

def KEY_CHECKSUM_BYTES : ℕ := 4

def Cipher.mac32 (C : Cipher) (src : Bytes) (iv : Option UInt64) : UInt32 :=
  let mac64 := C.mac64 src iv
  ((mac64 >>> 32 &&& 0xffffffff) ^^^ (mac64 &&& 0xffffffff)).toUInt32

structure SSL_Cipher where
  keySize : ℕ
  ivLength : ℕ
  cipherBlockSize : ℕ
  bytesToKey : (password : Bytes) → Bytes
  pbkdf2 : (password salt : Bytes) → (iterations : ℤ) → Option Bytes
  coding : (key : Bytes) → Cipher
  bytesToKey_length (password : Bytes) : (bytesToKey password).length = keySize + ivLength
  pbkdf2_length {password salt : Bytes} {iterations : ℤ} {key : Bytes} :
    pbkdf2 password salt iterations = some key → key.length = keySize + ivLength
  coding_lawful (key : Bytes) : (coding key).Lawful cipherBlockSize

structure KeyDerivation (size : ℕ) where
  bytesToKey : (password : Bytes) → Bytes
  pbkdf2 : (password salt : Bytes) → (iterations : ℤ) → Option Bytes
  bytesToKey_length (password : Bytes) : (bytesToKey password).length = size
  pbkdf2_length {password salt : Bytes} {iterations : ℤ} {key : Bytes} :
    pbkdf2 password salt iterations = some key → key.length = size

def SSLCodings.sslCipher (S : SSLCodings) (h : S.evp.Laws)
    (keys : KeyDerivation (S.keySize + S.ivLength)) : SSL_Cipher where
  keySize := S.keySize
  ivLength := S.ivLength
  cipherBlockSize := S.evp.blockSize
  bytesToKey := keys.bytesToKey
  pbkdf2 := keys.pbkdf2
  coding := S.cipher
  bytesToKey_length := keys.bytesToKey_length
  pbkdf2_length := keys.pbkdf2_length
  coding_lawful key := S.cipher_lawful h key (Nat.mod_self S.evp.blockSize)

def checksumOfBytes (data : Bytes) : UInt32 :=
  data.foldl (fun checksum b => (checksum <<< 8) ||| b.toUInt32) 0

def bytesOfChecksum (checksum : UInt32) : Bytes :=
  (List.range KEY_CHECKSUM_BYTES).map fun i =>
    (checksum >>> (8 * (KEY_CHECKSUM_BYTES - 1 - i)).toUInt32).toUInt8

namespace SSL_Cipher

variable (S : SSL_Cipher)

def encodedKeySize : ℕ := S.keySize + S.ivLength + KEY_CHECKSUM_BYTES

def readKey (data masterKey : Bytes) (checkKey : Bool) : Option Bytes :=
  if data.length < S.encodedKeySize then none else
  let checksum := checksumOfBytes (data.take KEY_CHECKSUM_BYTES)
  let tmpBuf := (data.drop KEY_CHECKSUM_BYTES).take (S.keySize + S.ivLength)
  let tmpBuf := (S.coding masterKey).streamDecode checksum.toUInt64 tmpBuf
  let checksum2 := (S.coding masterKey).mac32 tmpBuf none
  if checksum2 ≠ checksum ∧ checkKey then none else some tmpBuf

def writeKey (key masterKey : Bytes) : Bytes :=
  let checksum := (S.coding masterKey).mac32 key none
  bytesOfChecksum checksum ++ (S.coding masterKey).streamEncode checksum.toUInt64 key

def TimedPBKDF2 (estimate : (iter desired delta : ℤ) → ℤ) (password salt : Bytes)
    (desiredPDFTime : ℤ) : (iter : ℤ) → (deltas : List ℤ) → Option (ℤ × Bytes)
  | _, [] => none
  | iter, delta :: deltas => do
    let out ← S.pbkdf2 password salt iter
    if delta < desiredPDFTime.tdiv 8 then
      TimedPBKDF2 estimate password salt desiredPDFTime (iter * 4) deltas
    else if delta < (5 * desiredPDFTime).tdiv 6 then
      TimedPBKDF2 estimate password salt desiredPDFTime (estimate iter desiredPDFTime delta) deltas
    else some (iter, out)

def newKey (estimate : (iter desired delta : ℤ) → ℤ) (deltas : List ℤ) (password : Bytes)
    (iterationCount desiredDuration : ℤ) (salt : Bytes) : Option (Bytes × ℤ) :=
  if iterationCount = 0 then do
    let (res, key) ← S.TimedPBKDF2 estimate password salt (1000 * desiredDuration) 1000 deltas
    if res ≤ 0 then none else some (key, res)
  else do
    let key ← S.pbkdf2 password salt iterationCount
    some (key, iterationCount)

lemma TimedPBKDF2_eq_some {estimate : (iter desired delta : ℤ) → ℤ} {password salt : Bytes}
    {desired iter res : ℤ} {deltas : List ℤ} {key : Bytes}
    (h : S.TimedPBKDF2 estimate password salt desired iter deltas = some (res, key)) :
    S.pbkdf2 password salt res = some key := by
  induction deltas generalizing iter with
  | nil => cases h
  | cons delta deltas ih =>
    rw [TimedPBKDF2] at h
    obtain ⟨out, hout, h⟩ := Option.bind_eq_some_iff.mp h
    split at h
    · exact ih h
    · split at h
      · exact ih h
      · cases h
        exact hout

lemma newKey_eq_some {estimate : (iter desired delta : ℤ) → ℤ} {deltas : List ℤ}
    {password salt key : Bytes} {iterationCount desired res : ℤ}
    (h : S.newKey estimate deltas password iterationCount desired salt = some (key, res)) :
    res ≠ 0 ∧ S.pbkdf2 password salt res = some key := by
  rw [newKey] at h
  split at h
  · obtain ⟨⟨res', key'⟩, htimed, h⟩ := Option.bind_eq_some_iff.mp h
    dsimp only at h
    split at h
    · cases h
    · cases h
      exact ⟨by omega, S.TimedPBKDF2_eq_some htimed⟩
  · obtain ⟨key', hkey, h⟩ := Option.bind_eq_some_iff.mp h
    cases h
    rename_i hne
    exact ⟨hne, hkey⟩

end SSL_Cipher

lemma checksum_step (value : UInt32) (b : UInt8) (h : value.toNat < 256 ^ 3) :
    ((value <<< 8) ||| b.toUInt32).toNat = value.toNat * 256 + b.toNat := by
  have hb : b.toNat < 2 ^ 8 := b.toNat_lt
  have hshift : (value <<< 8).toNat = value.toNat <<< 8 := by
    rw [UInt32.toNat_shiftLeft, Nat.shiftLeft_eq, Nat.shiftLeft_eq]
    change value.toNat * 2 ^ 8 % 2 ^ 32 = value.toNat * 2 ^ 8
    exact Nat.mod_eq_of_lt (by omega)
  rw [UInt32.toNat_or, hshift, UInt8.toNat_toUInt32, ← Nat.shiftLeft_add_eq_or_of_lt hb,
    Nat.shiftLeft_eq]

lemma checksumOfBytes_toNat {data : Bytes} (h : data.length ≤ KEY_CHECKSUM_BYTES) :
    (checksumOfBytes data).toNat = Nat.ofDigits 256 (data.map UInt8.toNat).reverse :=
  foldl_value UInt8.toNat_lt checksum_step rfl h

@[simp] lemma bytesOfChecksum_length (checksum : UInt32) :
    (bytesOfChecksum checksum).length = KEY_CHECKSUM_BYTES := by
  simp [bytesOfChecksum]

lemma bytesOfChecksum_toNat (checksum : UInt32) : (bytesOfChecksum checksum).map UInt8.toNat =
    (digitsUpTo 256 KEY_CHECKSUM_BYTES checksum.toNat).reverse := by
  rw [reverse_digitsUpTo, bytesOfChecksum, List.map_map]
  apply List.map_congr_left
  intro i hi
  have hlt := List.mem_range.mp hi
  rw [KEY_CHECKSUM_BYTES] at hlt ⊢
  have hmod : (8 * (4 - 1 - i)).toUInt32.toNat % 32 = 8 * (4 - 1 - i) := by
    change 8 * (4 - 1 - i) % 2 ^ 32 % 32 = 8 * (4 - 1 - i)
    omega
  change (checksum >>> (8 * (4 - 1 - i)).toUInt32).toUInt8.toNat = _
  rw [UInt32.toNat_toUInt8, UInt32.toNat_shiftRight, hmod, Nat.shiftRight_eq_div_pow, pow_mul]
  rfl

lemma checksumOfBytes_bytesOfChecksum (checksum : UInt32) :
    checksumOfBytes (bytesOfChecksum checksum) = checksum := by
  apply UInt32.toNat_inj.mp
  rw [checksumOfBytes_toNat (Nat.le_of_eq (bytesOfChecksum_length checksum)),
    bytesOfChecksum_toNat, List.reverse_reverse, ofDigits_digitsUpTo]
  exact Nat.mod_eq_of_lt checksum.toNat_lt

lemma bytesOfChecksum_checksumOfBytes {data : Bytes} (h : data.length = KEY_CHECKSUM_BYTES) :
    bytesOfChecksum (checksumOfBytes data) = data := by
  apply List.map_injective_iff.mpr fun _ _ => UInt8.toNat_inj.mp
  have hback := digitsUpTo_ofDigits (digit_lt_of_mem UInt8.toNat_lt data)
  rw [List.length_reverse, List.length_map, h] at hback
  rw [bytesOfChecksum_toNat, checksumOfBytes_toNat (Nat.le_of_eq h), hback, List.reverse_reverse]

namespace SSL_Cipher

variable {S : SSL_Cipher}

lemma writeKey_length {key : Bytes} (masterKey : Bytes)
    (hkey : key.length = S.keySize + S.ivLength) :
    (S.writeKey key masterKey).length = S.encodedKeySize := by
  simp only [writeKey, List.length_append, bytesOfChecksum_length,
    (S.coding_lawful masterKey).streamEncode_length, hkey, encodedKeySize]
  omega

lemma length_of_readKey {data masterKey key : Bytes} {checkKey : Bool}
    (h : S.readKey data masterKey checkKey = some key) : key.length = S.keySize + S.ivLength := by
  rw [readKey] at h
  split at h
  · cases h
  · rename_i hsize
    dsimp only at h
    split at h
    · cases h
    · obtain rfl := Option.some.inj h
      rw [(S.coding_lawful masterKey).streamDecode_length, List.length_take, List.length_drop]
      rw [encodedKeySize] at hsize
      omega

lemma readKey_writeKey {key : Bytes} (masterKey : Bytes) (checkKey : Bool)
    (hkey : key.length = S.keySize + S.ivLength) :
    S.readKey (S.writeKey key masterKey) masterKey checkKey = some key := by
  have hlaw := S.coding_lawful masterKey
  have hsize := writeKey_length masterKey hkey
  rw [readKey, if_neg (by omega)]
  rw [writeKey, List.take_left' (bytesOfChecksum_length _), checksumOfBytes_bytesOfChecksum,
    List.drop_left' (bytesOfChecksum_length _), List.take_of_length_le]
  · simp [hlaw.streamDecode_streamEncode]
  · rw [hlaw.streamEncode_length, hkey]

section EncodedKey

variable {data masterKey : Bytes}

def decodedKey (S : SSL_Cipher) (data masterKey : Bytes) : Bytes :=
  (S.coding masterKey).streamDecode (checksumOfBytes (data.take KEY_CHECKSUM_BYTES)).toUInt64
    (data.drop KEY_CHECKSUM_BYTES)

lemma readKey_checked (h : data.length = S.encodedKeySize) :
    S.readKey data masterKey true =
      if (S.coding masterKey).mac32 (S.decodedKey data masterKey) none =
        checksumOfBytes (data.take KEY_CHECKSUM_BYTES)
      then some (S.decodedKey data masterKey) else none := by
  have hrest : (data.drop KEY_CHECKSUM_BYTES).length ≤ S.keySize + S.ivLength := by
    rw [List.length_drop, h, encodedKeySize]
    omega
  rw [readKey, if_neg (by omega)]
  dsimp only
  rw [List.take_of_length_le hrest]
  by_cases hmac : (S.coding masterKey).mac32 (S.decodedKey data masterKey) none =
      checksumOfBytes (data.take KEY_CHECKSUM_BYTES)
  · rw [if_pos hmac, if_neg fun hne => hne.1 hmac]
    rfl
  · rw [if_neg hmac, if_pos ⟨hmac, rfl⟩]

lemma writeKey_readKey {key : Bytes} (h : data.length = S.encodedKeySize)
    (hread : S.readKey data masterKey true = some key) : S.writeKey key masterKey = data := by
  have hchecksum : (data.take KEY_CHECKSUM_BYTES).length = KEY_CHECKSUM_BYTES := by
    rw [List.length_take, h, encodedKeySize]
    omega
  rw [readKey_checked h] at hread
  split at hread
  · rename_i hmac
    obtain rfl := Option.some.inj hread
    rw [writeKey, hmac, bytesOfChecksum_checksumOfBytes hchecksum, decodedKey,
      (S.coding_lawful masterKey).streamEncode_streamDecode, List.take_append_drop]
  · cases hread

/-- A key that is written is read back, whether it is checked or not; data of the right size are
accepted if the big-endian checksum in front is that of the decoded rest, and they are then what
writing the key gives. -/
theorem key_coding (S : SSL_Cipher) (masterKey : Bytes) :
    (∀ key checkKey, key.length = S.keySize + S.ivLength →
      S.readKey (S.writeKey key masterKey) masterKey checkKey = some key) ∧
    ∀ data : Bytes, data.length = S.encodedKeySize →
      ((∃ key, S.readKey data masterKey true = some key) ↔
        Nat.ofDigits 256 ((data.take KEY_CHECKSUM_BYTES).map UInt8.toNat).reverse =
          ((S.coding masterKey).mac32 (S.decodedKey data masterKey) none).toNat) ∧
      ∀ key, S.readKey data masterKey true = some key →
        key = S.decodedKey data masterKey ∧ S.writeKey key masterKey = data := by
  refine ⟨fun key checkKey hkey => readKey_writeKey masterKey checkKey hkey, ?_⟩
  intro data h
  have hprefix : (data.take KEY_CHECKSUM_BYTES).length ≤ KEY_CHECKSUM_BYTES :=
    List.length_take_le _ _
  refine ⟨?_, fun key hread => ⟨?_, writeKey_readKey h hread⟩⟩
  · rw [← checksumOfBytes_toNat hprefix, UInt32.toNat_inj, readKey_checked h]
    constructor
    · rintro ⟨key, hread⟩
      split at hread
      · rename_i hmac
        exact hmac.symm
      · cases hread
    · intro hmac
      exact ⟨_, if_pos hmac.symm⟩
  · rw [readKey_checked h] at hread
    split at hread
    · exact (Option.some.inj hread).symm
    · cases hread

end EncodedKey

end SSL_Cipher

inductive KeyCipher where
  | ssl (S : SSL_Cipher)
  | null

namespace KeyCipher

def gNullKey : Bytes := []

def encodedKeySize : KeyCipher → ℕ
  | ssl S => S.encodedKeySize
  | null => 0

def randomize (random : Option (ℕ → UInt8)) (len : ℕ) : KeyCipher → Option Bytes
  | ssl _ => random.map fun b => (List.range len).map b
  | null => some (List.replicate len 0)

def newKey (password : Bytes) : KeyCipher → Bytes
  | ssl S => S.bytesToKey password
  | null => gNullKey

def newSaltedKey (estimate : (iter desired delta : ℤ) → ℤ) (deltas : List ℤ) (password : Bytes)
    (iterationCount desiredDuration : ℤ) (salt : Bytes) : KeyCipher → Option (Bytes × ℤ)
  | ssl S => S.newKey estimate deltas password iterationCount desiredDuration salt
  | null => some (gNullKey, iterationCount)

def readKey (data masterKey : Bytes) (checkKey : Bool) : KeyCipher → Option Bytes
  | ssl S => S.readKey data masterKey checkKey
  | null => some gNullKey

def writeKey (key masterKey : Bytes) : KeyCipher → Bytes
  | ssl S => S.writeKey key masterKey
  | null => []

variable {C : KeyCipher}

lemma randomize_length {random : Option (ℕ → UInt8)} {len : ℕ} {buf : Bytes}
    (h : C.randomize random len = some buf) : buf.length = len := by
  cases C with
  | ssl S =>
    obtain ⟨b, -, rfl⟩ := Option.map_eq_some_iff.mp h
    simp
  | null =>
    obtain rfl := Option.some.inj h
    exact List.length_replicate

lemma readKey_writeKey {data oldKey key : Bytes} (newKey : Bytes)
    (h : C.readKey data oldKey true = some key) :
    C.readKey (C.writeKey key newKey) newKey true = some key ∧
      (C.writeKey key newKey).length = C.encodedKeySize := by
  cases C with
  | ssl S =>
    have hkey := SSL_Cipher.length_of_readKey h
    exact ⟨SSL_Cipher.readKey_writeKey newKey true hkey, SSL_Cipher.writeKey_length newKey hkey⟩
  | null => exact ⟨h, rfl⟩

lemma newSaltedKey_again {estimate : (iter desired delta : ℤ) → ℤ} {deltas : List ℤ}
    {password salt key : Bytes} {iterationCount desired res : ℤ} {deltas' : List ℤ} {desired' : ℤ}
    (h : C.newSaltedKey estimate deltas password iterationCount desired salt = some (key, res)) :
    C.newSaltedKey estimate deltas' password res desired' salt = some (key, res) := by
  cases C with
  | ssl S =>
    obtain ⟨hne, hkey⟩ := S.newKey_eq_some h
    simp [newSaltedKey, SSL_Cipher.newKey, hne, hkey]
  | null =>
    cases h
    rfl

end KeyCipher

def keyedMask (key : Bytes) : Cipher where
  blockEncode := maskCipher.blockEncode
  blockDecode := maskCipher.blockDecode
  streamEncode _ d := d.map (· ^^^ key.headD 0)
  streamDecode _ d := d.map (· ^^^ key.headD 0)
  mac64 d iv := maskCipher.mac64 (key ++ d) iv
  checksSize := true

lemma keyedMask_lawful (key : Bytes) (bs : ℕ) : (keyedMask key).Lawful bs where
  blockEncode_length := (maskCipher_lawful bs).blockEncode_length
  blockDecode_length := (maskCipher_lawful bs).blockDecode_length
  blockDecode_blockEncode := (maskCipher_lawful bs).blockDecode_blockEncode
  blockEncode_blockDecode := (maskCipher_lawful bs).blockEncode_blockDecode
  streamEncode_length _ _ := List.length_map _
  streamDecode_length _ _ := List.length_map _
  streamDecode_streamEncode _ d := mask_mask _ d
  streamEncode_streamDecode _ d := mask_mask _ d

def maskSSL : SSL_Cipher where
  keySize := 1
  ivLength := 1
  cipherBlockSize := 1
  bytesToKey password := [password.sum, 1]
  pbkdf2 password salt iterations := some [password.sum + salt.sum, iterations.toNat.toUInt8]
  coding := keyedMask
  bytesToKey_length _ := rfl
  pbkdf2_length h := by
    cases h
    rfl
  coding_lawful key := keyedMask_lawful key 1

def codedSSL : SSL_Cipher :=
  maskCodings.sslCipher (maskEVP_laws 8)
    { bytesToKey := fun password => List.replicate 10 password.sum
      pbkdf2 := fun password salt iterations =>
        some (List.replicate 10 (password.sum + salt.sum + iterations.toNat.toUInt8))
      bytesToKey_length := fun _ => List.length_replicate
      pbkdf2_length := fun h => by
        cases h
        exact List.length_replicate }

theorem SSL_Cipher.key_coding_mask :
    codedSSL.readKey (codedSSL.writeKey [5, 1, 2, 3, 4, 5, 6, 7, 8, 9] (List.replicate 10 2))
        (List.replicate 10 2) false = some [5, 1, 2, 3, 4, 5, 6, 7, 8, 9] ∧
      (∃ key, codedSSL.readKey [41, 42, 43, 48, 37, 63, 45, 56, 43, 61, 47, 62, 45, 63]
        (2 :: 9 :: List.replicate 8 1) true = some key) ∧
      ¬ ∃ key, codedSSL.readKey [41, 42, 43, 48, 37, 63, 45, 56, 43, 61, 47, 62, 45, 64]
        (2 :: 9 :: List.replicate 8 1) true = some key := by
  have h := codedSSL.key_coding (2 :: 9 :: List.replicate 8 1)
  refine ⟨(codedSSL.key_coding (List.replicate 10 2)).1 _ false rfl,
    (h.2 [41, 42, 43, 48, 37, 63, 45, 56, 43, 61, 47, 62, 45, 63] rfl).1.mpr (by decide +kernel), ?_⟩
  intro hread
  have hmac := (h.2 [41, 42, 43, 48, 37, 63, 45, 56, 43, 61, 47, 62, 45, 64] rfl).1.mp hread
  exact absurd hmac (by decide +kernel)

end EncFS
