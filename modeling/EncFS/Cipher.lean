import EncFS.Blockwise
import EncFS.Digits
import EncFS.FileIO
import Mathlib.Data.Nat.Find

/-! The cipher of a volume with its key, and the bytes of initialization vectors. -/

set_option autoImplicit false

namespace EncFS

open FlatArray

/-- The codings of a cipher under the volume key. Those of the sources return `true` whenever they
return, so there is no result. -/
structure Cipher where
  blockEncode : UInt64 → Bytes → Bytes
  blockDecode : UInt64 → Bytes → Bytes
  streamEncode : UInt64 → Bytes → Bytes
  streamDecode : UInt64 → Bytes → Bytes
  mac64 : Bytes → Option UInt64 → UInt64
  checksSize : Bool

/-- For every IV the block coding is a bijection of the blocks of `bs` bytes and the stream coding
one of the byte strings of each length. -/
structure Cipher.Lawful (C : Cipher) (bs : ℕ) : Prop where
  blockEncode_length (iv : UInt64) {d : Bytes} : d.length = bs → (C.blockEncode iv d).length = bs
  blockDecode_length (iv : UInt64) {d : Bytes} : d.length = bs → (C.blockDecode iv d).length = bs
  blockDecode_blockEncode (iv : UInt64) {d : Bytes} : d.length = bs →
    C.blockDecode iv (C.blockEncode iv d) = d
  blockEncode_blockDecode (iv : UInt64) {d : Bytes} : d.length = bs →
    C.blockEncode iv (C.blockDecode iv d) = d
  streamEncode_length (iv : UInt64) (d : Bytes) : (C.streamEncode iv d).length = d.length
  streamDecode_length (iv : UInt64) (d : Bytes) : (C.streamDecode iv d).length = d.length
  streamDecode_streamEncode (iv : UInt64) (d : Bytes) : C.streamDecode iv (C.streamEncode iv d) = d
  streamEncode_streamDecode (iv : UInt64) (d : Bytes) : C.streamEncode iv (C.streamDecode iv d) = d

structure Cipher.IsNull (C : Cipher) : Prop where
  blockEncode (iv : UInt64) (d : Bytes) : C.blockEncode iv d = d
  blockDecode (iv : UInt64) (d : Bytes) : C.blockDecode iv d = d
  streamEncode (iv : UInt64) (d : Bytes) : C.streamEncode iv d = d
  streamDecode (iv : UInt64) (d : Bytes) : C.streamDecode iv d = d

lemma Cipher.IsNull.lawful {C : Cipher} (h : C.IsNull) (bs : ℕ) : C.Lawful bs := by
  constructor <;> simp +contextual [h.blockEncode, h.blockDecode, h.streamEncode, h.streamDecode]

def HEADER_SIZE : ℕ := 8

def ivOfBytes (buf : Bytes) : UInt64 :=
  buf.foldl (fun iv b => (iv <<< 8) ||| b.toUInt64) 0

def bytesOfIV (iv : UInt64) : Bytes :=
  (List.range HEADER_SIZE).map fun i => (iv >>> (8 * (HEADER_SIZE - 1 - i)).toUInt64).toUInt8

lemma ivOfBytes_step {iv : UInt64} (b : UInt8) (h : iv.toNat < 256 ^ 7) :
    ((iv <<< 8) ||| b.toUInt64).toNat = iv.toNat * 256 + b.toNat := by
  have hb : b.toNat < 2 ^ 8 := b.toNat_lt
  have hshift : (iv <<< 8).toNat = iv.toNat <<< 8 := by
    rw [UInt64.toNat_shiftLeft, Nat.shiftLeft_eq, Nat.shiftLeft_eq]
    change iv.toNat * 2 ^ 8 % 2 ^ 64 = iv.toNat * 2 ^ 8
    exact Nat.mod_eq_of_lt (by omega)
  rw [UInt64.toNat_or, hshift, UInt8.toNat_toUInt64, ← Nat.shiftLeft_add_eq_or_of_lt hb,
    Nat.shiftLeft_eq]

lemma ivOfBytes_toNat {d : Bytes} (hd : d.length ≤ HEADER_SIZE) :
    (ivOfBytes d).toNat = Nat.ofDigits 256 (d.map UInt8.toNat).reverse :=
  foldl_value UInt8.toNat_lt (fun _ b h => ivOfBytes_step b h) rfl hd

lemma byte_toNat (iv : UInt64) {k : ℕ} (hk : k < HEADER_SIZE) :
    (iv >>> (8 * k).toUInt64).toUInt8.toNat = iv.toNat / 256 ^ k % 256 := by
  have hmod : (8 * k).toUInt64.toNat % 64 = 8 * k := by
    change 8 * k % 2 ^ 64 % 64 = 8 * k
    rw [HEADER_SIZE] at hk
    omega
  rw [UInt64.toNat_toUInt8, UInt64.toNat_shiftRight, hmod, Nat.shiftRight_eq_div_pow, pow_mul]
  rfl

lemma bytesOfIV_toNat (iv : UInt64) :
    (bytesOfIV iv).map UInt8.toNat = (digitsUpTo 256 HEADER_SIZE iv.toNat).reverse := by
  rw [reverse_digitsUpTo, bytesOfIV, List.map_map]
  apply List.map_congr_left
  intro i hi
  have hlt := List.mem_range.mp hi
  exact byte_toNat iv (by omega)

lemma bytesOfIV_length (iv : UInt64) : (bytesOfIV iv).length = HEADER_SIZE := rfl

lemma ivOfBytes_bytesOfIV (iv : UInt64) : ivOfBytes (bytesOfIV iv) = iv := by
  apply UInt64.toNat_inj.mp
  rw [ivOfBytes_toNat (Nat.le_of_eq (bytesOfIV_length iv)), bytesOfIV_toNat, List.reverse_reverse,
    ofDigits_digitsUpTo]
  exact Nat.mod_eq_of_lt iv.toNat_lt

lemma bytesOfIV_ivOfBytes {d : Bytes} (hd : d.length = HEADER_SIZE) :
    bytesOfIV (ivOfBytes d) = d := by
  apply List.map_injective_iff.mpr fun _ _ => UInt8.toNat_inj.mp
  have hlen : (d.map UInt8.toNat).reverse.length = HEADER_SIZE := by simpa using hd
  have hback := digitsUpTo_ofDigits (digit_lt_of_mem UInt8.toNat_lt d)
  rw [hlen] at hback
  rw [bytesOfIV_toNat, ivOfBytes_toNat (Nat.le_of_eq hd), hback, List.reverse_reverse]

def usableIV : Option Bytes → Bool
  | none => true
  | some buf => ivOfBytes buf != 0

/-- The results of `randomize`: call number and length to the bytes, or `none` for a failure. Null
bytes do not come for ever. -/
structure RandomSource where
  randomize : ℕ → ℕ → Option Bytes
  randomize_length {i n : ℕ} {buf : Bytes} : randomize i n = some buf → buf.length = n
  not_null (i : ℕ) : ∃ j, i ≤ j ∧ usableIV (randomize j HEADER_SIZE) = true

def RandomSource.firstUsable (G : RandomSource) (i : ℕ) : ℕ :=
  Nat.find (G.not_null i)

lemma RandomSource.usable_firstUsable (G : RandomSource) (i : ℕ) :
    usableIV (G.randomize (G.firstUsable i) HEADER_SIZE) = true :=
  (Nat.find_spec (G.not_null i)).2

def maskCipher : Cipher where
  blockEncode iv d := d.map (· ^^^ (iv.toUInt8 ^^^ 0xF0))
  blockDecode iv d := d.map (· ^^^ (iv.toUInt8 ^^^ 0xF0))
  streamEncode iv d := d.map (· ^^^ (iv.toUInt8 ^^^ 0x0F))
  streamDecode iv d := d.map (· ^^^ (iv.toUInt8 ^^^ 0x0F))
  mac64 d iv := d.foldl (fun sum b => sum * 31 + b.toUInt64) (iv.getD 0 + 7)
  checksSize := true

lemma smallBlock_gt : 1 < 4 := by
  decide

lemma mask_mask (m : UInt8) (d : Bytes) : (d.map (· ^^^ m)).map (· ^^^ m) = d := by
  rw [List.map_map]
  refine (List.map_congr_left fun b _ => ?_).trans (List.map_id d)
  change b ^^^ m ^^^ m = b
  rw [UInt8.xor_assoc, UInt8.xor_self, UInt8.xor_zero]

lemma maskCipher_lawful (bs : ℕ) : maskCipher.Lawful bs where
  blockEncode_length _ _ h := by rw [← h]; exact List.length_map _
  blockDecode_length _ _ h := by rw [← h]; exact List.length_map _
  blockDecode_blockEncode _ d _ := mask_mask _ d
  blockEncode_blockDecode _ d _ := mask_mask _ d
  streamEncode_length _ _ := List.length_map _
  streamDecode_length _ _ := List.length_map _
  streamDecode_streamEncode _ d := mask_mask _ d
  streamEncode_streamDecode _ d := mask_mask _ d

def onesSource : RandomSource where
  randomize _ n := some (List.replicate n 1)
  randomize_length h := by rw [← Option.some.inj h, List.length_replicate]
  not_null i := ⟨i, Nat.le_refl i, by decide⟩

end EncFS
