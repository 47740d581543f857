import EncFS.Config
import EncFS.Interface
import EncFS.NameIO
import EncFS.Range

set_option autoImplicit false

namespace EncFS

open ConfigVar

namespace KeyCipher

def MAX_KEYLENGTH : ℕ := 32

def cipherBlockSize : KeyCipher → ℕ
  | ssl S => S.cipherBlockSize
  | null => 1

def newRandomKey (random : ℕ → Option (ℕ → UInt8)) : KeyCipher → Option Bytes
  | ssl S => do
    let tmpBuf ← (ssl S).randomize (random 0) MAX_KEYLENGTH
    let saltBuf ← (ssl S).randomize (random 1) 20
    S.pbkdf2 tmpBuf saltBuf 1000
  | null => some gNullKey

def nullCoding : Cipher where
  blockEncode _ buf := buf
  blockDecode _ buf := buf
  streamEncode _ buf := buf
  streamDecode _ buf := buf
  mac64 _ _ := 0
  checksSize := false

def coding (key : Bytes) : KeyCipher → Cipher
  | ssl S => S.coding key
  | null => nullCoding

lemma newRandomKey_length {S : SSL_Cipher} {random : ℕ → Option (ℕ → UInt8)} {key : Bytes}
    (h : (ssl S).newRandomKey random = some key) : key.length = S.keySize + S.ivLength := by
  obtain ⟨tmpBuf, -, h⟩ := Option.bind_eq_some_iff.mp h
  obtain ⟨saltBuf, -, h⟩ := Option.bind_eq_some_iff.mp h
  exact S.pbkdf2_length h

end KeyCipher

structure CipherAlg where
  name : Bytes
  hidden : Bool
  constructor : Interface → (keyLen : ℤ) → Option (Interface × KeyCipher)
  iface : Interface
  keyLength : Range
  blockSize : Range

/-- What the library has of one block cipher, for each number of bytes of the key. -/
structure SSLFamily (blockSize : ℕ) where
  evp : (keySize : ℕ) → EVP
  laws (keySize : ℕ) : (evp keySize).Laws
  blockSize_eq (keySize : ℕ) : (evp keySize).blockSize = blockSize
  ivLength : ℕ
  ivLength_eq : ivLength = 8 ∨ ivLength = 16
  keys : (interface : ℤ) → (keySize : ℕ) → KeyDerivation (keySize + ivLength)

namespace SSLFamily

variable {blockSize : ℕ} (F : SSLFamily blockSize) (interface : ℤ) (keySize : ℕ)

def codings : SSLCodings where
  evp := F.evp keySize
  current := interface
  keySize := keySize
  ivLength := F.ivLength
  ivLength_eq := F.ivLength_eq

def cipher : SSL_Cipher :=
  (F.codings interface keySize).sslCipher (F.laws keySize) (F.keys interface keySize)

lemma cipherBlockSize_eq : (F.cipher interface keySize).cipherBlockSize = blockSize :=
  F.blockSize_eq keySize

lemma cipher_lawful (key : Bytes) (n : ℕ) :
    ((F.cipher interface keySize).coding key).Lawful (n * blockSize) := by
  refine SSLCodings.cipher_lawful (F.laws keySize) key ?_
  change n * blockSize % (F.evp keySize).blockSize = 0
  rw [F.blockSize_eq]
  exact Nat.mul_mod_left n blockSize

end SSLFamily

def AESInterface : Interface := ⟨bytes "ssl/aes", 3, 0, 2⟩
def BlowfishInterface : Interface := ⟨bytes "ssl/blowfish", 3, 0, 2⟩
def NullInterface : Interface := ⟨bytes "nullCipher", 1, 0, 0⟩

def closestSize (R : Range) (value : ℤ) : Option ℤ :=
  (R.closest 5000 value).toOption

def NewSSL {blockSize : ℕ} (F : SSLFamily blockSize) (realIface : Interface) (keyRange : Range)
    (defaultKeyLen : ℤ) (iface : Interface) (keyLen : ℤ) : Option (Interface × KeyCipher) := do
  let keyLen := if keyLen ≤ 0 then defaultKeyLen else keyLen
  let keyLen ← closestSize keyRange keyLen
  some (realIface, .ssl (F.cipher iface.current (keyLen.tdiv 8).toNat))

def NewAESCipher (F : SSLFamily 16) : Interface → ℤ → Option (Interface × KeyCipher) :=
  NewSSL F AESInterface Range.AESKeyRange 192

def NewBFCipher (F : SSLFamily 8) : Interface → ℤ → Option (Interface × KeyCipher) :=
  NewSSL F BlowfishInterface Range.BFKeyRange 160

def NewNullCipher (iface : Interface) (_keyLen : ℤ) : Option (Interface × KeyCipher) :=
  some (iface, .null)

/-- What the program was built with, and what it finds where it runs. -/
structure Platform where
  aes : Option (SSLFamily 16)
  blowfish : Option (SSLFamily 8)
  boostVersion : ℕ
  checksEndTag : Bool
  getenv : String → Option Bytes
  estimate : (iter desired delta : ℤ) → ℤ

namespace Platform

variable (P : Platform)

def AES_Cipher_registered (F : SSLFamily 16) : CipherAlg where
  name := bytes "AES"
  hidden := false
  constructor := NewAESCipher F
  iface := AESInterface
  keyLength := Range.AESKeyRange
  blockSize := Range.AESBlockRange

def BF_Cipher_registered (F : SSLFamily 8) : CipherAlg where
  name := bytes "Blowfish"
  hidden := false
  constructor := NewBFCipher F
  iface := BlowfishInterface
  keyLength := Range.BFKeyRange
  blockSize := Range.BFBlockRange

def NullCipher_registered : CipherAlg where
  name := bytes "Null"
  hidden := true
  constructor := NewNullCipher
  iface := NullInterface
  keyLength := ⟨0, 0, 1⟩
  blockSize := ⟨1, 4096, 1⟩

def gCipherMap : List CipherAlg :=
  (P.aes.map AES_Cipher_registered).toList ++ (P.blowfish.map BF_Cipher_registered).toList ++
    [NullCipher_registered]

def GetAlgorithmList (includeHidden : Bool) : List CipherAlg :=
  P.gCipherMap.filter fun alg => includeHidden || !alg.hidden

def NewCipherNamed (name : Bytes) (keyLen : ℤ) : Option (Interface × KeyCipher) :=
  (P.gCipherMap.find? (·.name = name)).bind fun alg => alg.constructor alg.iface keyLen

def NewCipher (iface : Interface) (keyLen : ℤ) : Option (Interface × KeyCipher) :=
  (P.gCipherMap.find? (·.iface.implements iface)).bind fun alg => alg.constructor iface keyLen

def installation : Installation where
  algorithms := P.gCipherMap.map fun alg =>
    ⟨alg.iface, fun iface keyLen => (alg.constructor iface keyLen).map Prod.snd⟩
  boostVersion := P.boostVersion
  checksEndTag := P.checksEndTag
  getenv := P.getenv
  estimate := P.estimate

end Platform

namespace NullNameIO

def nameCoding : NameCoding := fun name iv => .ok (name, iv)

def nameIO (chainedNameIV reverseEncryption : Bool) : NameIO where
  chainedNameIV := chainedNameIV
  reverseEncryption := reverseEncryption
  maxEncodedNameLen plaintextNameLen := plaintextNameLen
  maxDecodedNameLen encodedNameLen := encodedNameLen
  encodeName := nameCoding
  decodeName := nameCoding

end NullNameIO

structure NameIOAlg where
  name : Bytes
  constructor : Interface → KeyCipher → (key : Bytes) → Option NameIO
  iface : Interface

namespace NameIO

def NNIOIface : Interface := ⟨bytes "nameio/null", 1, 0, 0⟩

def NewBlockNameIO (iface : Interface) (cipher : KeyCipher) (key : Bytes) : Option NameIO :=
  if h : 0 < cipher.cipherBlockSize ∧ cipher.cipherBlockSize < 128 then
    some <| BlockNameIO.nameIO ⟨iface.current.toNat, cipher.cipherBlockSize, cipher.coding key, h.1, h.2⟩
      false false
  else none

def NewStreamNameIO (iface : Interface) (cipher : KeyCipher) (key : Bytes) : Option NameIO :=
  some <| StreamNameIO.nameIO ⟨iface.current.toNat, cipher.coding key⟩ false false

def NewNNIO (_iface : Interface) (_cipher : KeyCipher) (_key : Bytes) : Option NameIO :=
  some <| NullNameIO.nameIO false false

def BlockIO_registered : NameIOAlg := ⟨bytes "Block", NewBlockNameIO, Interface.blockNames⟩
def NullNameIO_registered : NameIOAlg := ⟨bytes "Null", NewNNIO, NNIOIface⟩
def StreamIO_registered : NameIOAlg := ⟨bytes "Stream", NewStreamNameIO, Interface.streamNames⟩

def gNameIOMap : List NameIOAlg :=
  [BlockIO_registered, NullNameIO_registered, StreamIO_registered]

def New (iface : Interface) (cipher : KeyCipher) (key : Bytes) : Option NameIO :=
  (gNameIOMap.find? (·.iface.implements iface)).bind fun alg => alg.constructor iface cipher key

def setChainedNameIV (N : NameIO) (enable : Bool) : NameIO :=
  { N with chainedNameIV := enable }

def setReverseEncryption (N : NameIO) (enable : Bool) : NameIO :=
  { N with reverseEncryption := enable }

end NameIO

end EncFS
