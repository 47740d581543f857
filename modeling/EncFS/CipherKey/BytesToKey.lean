import EncFS.Buffer
import EncFS.CInt
import EncFS.CipherKey

set_option autoImplicit false

namespace EncFS

open Buffer

structure EVP_MD where
  size : ℕ
  digest : (data : Bytes) → Bytes
  digest_length (data : Bytes) : (digest data).length = size
  size_pos : 0 < size
  size_lt : size < 2 ^ 31

def MIN (a b : ℤ) : ℤ :=
  if a < b then a else b

structure Destination where
  buf : Bytes
  pos : ℕ
  left : ℤ

def Destination.copy (D : Destination) (mdBuf : Bytes) (offset : ℤ) :
    Option (Destination × ℤ) :=
  let toCopy := MIN D.left (intOf (mdBuf.length - offset))
  if toCopy = 0 then some (D, offset)
  else if toCopy < 0 then none
  else do
    let d ← readRange mdBuf offset.toNat toCopy.toNat
    let buf ← writeRange D.buf D.pos d
    some (⟨buf, D.pos + toCopy.toNat, D.left - toCopy⟩, offset + toCopy)

def EVP_MD.digestRounds (md : EVP_MD) (rounds : ℕ) (input : Bytes) : Bytes :=
  md.digest^[rounds - 1] (md.digest input)

def copyDigests (md : EVP_MD) (rounds : ℕ) (data : Bytes) :
    (fuel addmd : ℕ) → (mdBuf : Bytes) → (key iv : Destination) → Option (Destination × Destination)
  | 0, _, _, _, _ => none
  | fuel + 1, addmd, mdBuf, key, iv => do
    let mdBuf := md.digestRounds rounds (if addmd ≠ 0 then mdBuf ++ data else data)
    let (key, offset) ← key.copy mdBuf 0
    let (iv, _) ← iv.copy mdBuf offset
    if key.left = 0 ∧ iv.left = 0 then some (key, iv)
    else copyDigests md rounds data fuel (addmd + 1) mdBuf key iv

def BytesToKey (fuel : ℕ) (keyLen ivLen : ℤ) (md : EVP_MD) (data : Option Bytes) (rounds : ℕ)
    (key iv : Option Bytes) : Option (ℤ × Option Bytes × Option Bytes) :=
  match data with
  | none | some [] => some (0, key, iv)
  | some data => do
    let nkey := if key.isSome then keyLen else 0
    let niv := if iv.isSome then ivLen else 0
    let (keyEnd, ivEnd) ← copyDigests md rounds data fuel 0 [] ⟨key.getD [], 0, nkey⟩
      ⟨iv.getD [], 0, niv⟩
    some (keyLen, key.map fun _ => keyEnd.buf, iv.map fun _ => ivEnd.buf)

namespace EVP_MD

def digestBlock (md : EVP_MD) (rounds : ℕ) (data : Bytes) : ℕ → Bytes
  | 0 => md.digest^[rounds] data
  | i + 1 => md.digest^[rounds] (md.digestBlock rounds data i ++ data)

def digestStream (md : EVP_MD) (rounds : ℕ) (data : Bytes) (i n : ℕ) : Bytes :=
  (List.range' i n).flatMap (md.digestBlock rounds data)

variable {md : EVP_MD} {rounds : ℕ}

lemma digestRounds_eq (hrounds : 1 ≤ rounds) (input : Bytes) :
    md.digestRounds rounds input = md.digest^[rounds] input := by
  obtain ⟨r, rfl⟩ := Nat.exists_eq_add_of_le' hrounds
  rfl

lemma iterate_digest_length (hrounds : 1 ≤ rounds) (input : Bytes) :
    (md.digest^[rounds] input).length = md.size := by
  obtain ⟨r, rfl⟩ := Nat.exists_eq_add_of_le' hrounds
  rw [Function.iterate_succ_apply']
  exact md.digest_length _

lemma digestBlock_length (md : EVP_MD) (hrounds : 1 ≤ rounds) (data : Bytes) (i : ℕ) :
    (md.digestBlock rounds data i).length = md.size := by
  cases i <;> exact iterate_digest_length hrounds _

lemma digestStream_succ (data : Bytes) (i n : ℕ) : md.digestStream rounds data i (n + 1) =
    md.digestBlock rounds data i ++ md.digestStream rounds data (i + 1) n := by
  rw [digestStream, List.range'_succ, List.flatMap_cons]
  rfl

lemma digestStream_take (hrounds : 1 ≤ rounds) (data : Bytes) (i n k : ℕ) :
    (md.digestStream rounds data i (n + 1)).take k = (md.digestBlock rounds data i).take k ++
      (md.digestStream rounds data (i + 1) n).take (k - md.size) := by
  rw [digestStream_succ, List.take_append, md.digestBlock_length hrounds]

lemma digestStream_drop_take (hrounds : 1 ≤ rounds) (data : Bytes) (i n k v : ℕ) :
    ((md.digestStream rounds data i (n + 1)).drop k).take v =
      ((md.digestBlock rounds data i).drop k).take v ++
        ((md.digestStream rounds data (i + 1) n).drop (k - md.size)).take (v - (md.size - k)) := by
  rw [digestStream_succ, List.drop_append, List.take_append, List.length_drop,
    md.digestBlock_length hrounds]

lemma digestStream_length (md : EVP_MD) (hrounds : 1 ≤ rounds) (data : Bytes) (i n : ℕ) :
    (md.digestStream rounds data i n).length = n * md.size := by
  induction n generalizing i with
  | zero =>
    rw [Nat.zero_mul]
    rfl
  | succ n ih =>
    rw [digestStream_succ, List.length_append, md.digestBlock_length hrounds, ih, Nat.succ_mul,
      Nat.add_comm]

lemma digestStream_take_eq (hrounds : 1 ≤ rounds) (data : Bytes) {i k n n' : ℕ}
    (hn : k ≤ n * md.size) (hn' : k ≤ n' * md.size) :
    (md.digestStream rounds data i n).take k = (md.digestStream rounds data i n').take k := by
  induction n generalizing i k n' with
  | zero =>
    obtain rfl : k = 0 := by omega
    rfl
  | succ n ih =>
    cases n' with
    | zero =>
      obtain rfl : k = 0 := by omega
      rfl
    | succ n' =>
      rw [Nat.succ_mul] at hn hn'
      rw [digestStream_take hrounds, digestStream_take hrounds]
      exact congrArg _ (ih (by omega) (by omega))

end EVP_MD

namespace Destination

def write (D : Destination) (d : Bytes) : Destination :=
  ⟨overwrite D.buf D.pos d, D.pos + d.length, D.left - d.length⟩

structure Room (D : Destination) (n : ℕ) : Prop where
  left_eq : D.left = n
  fits : D.pos + n ≤ D.buf.length

variable {D : Destination} {d e mdBuf : Bytes} {n : ℕ}

lemma write_nil : D.write [] = D := by
  rw [write, overwrite_nil, List.length_nil, Nat.add_zero, Nat.cast_zero, sub_zero]

lemma write_write (hroom : D.Room n) :
    (D.write (d.take n)).write e = D.write (d.take n ++ e) := by
  have hfits := hroom.fits
  have hle := List.length_take_le n d
  simp only [write, List.length_append, Nat.cast_add, ← Nat.add_assoc, sub_sub,
    overwrite_append (show D.pos + (d.take n).length ≤ D.buf.length by omega)]

lemma Room.write_take (hroom : D.Room n) (d : Bytes) :
    (D.write (d.take n)).Room (n - d.length) where
  left_eq := by
    change D.left - ((d.take n).length : ℤ) = (n - d.length : ℕ)
    rw [hroom.left_eq, List.length_take]
    omega
  fits := by
    have hfits := hroom.fits
    have htake : (d.take n).length = min n d.length := List.length_take
    change D.pos + (d.take n).length + (n - d.length) ≤ (overwrite D.buf D.pos (d.take n)).length
    rw [overwrite_length (by omega)]
    omega

lemma copy_eq (hroom : D.Room n) (hsize : mdBuf.length < 2 ^ 31) {offset : ℕ}
    (hoffset : offset ≤ mdBuf.length) :
    D.copy mdBuf offset = some (D.write ((mdBuf.drop offset).take n),
      ((offset + min n (mdBuf.length - offset) : ℕ) : ℤ)) := by
  have hleft := hroom.left_eq
  have hfits := hroom.fits
  have hint : intOf ((mdBuf.length : ℤ) - offset) = ((mdBuf.length - offset : ℕ) : ℤ) := by
    rw [intOf_eq (by omega) (by omega)]
    omega
  have hmin : MIN D.left (intOf ((mdBuf.length : ℤ) - offset)) =
      (min n (mdBuf.length - offset) : ℕ) := by
    rw [hint, hleft, MIN]
    split <;> omega
  have hlen : ((mdBuf.drop offset).take n).length = min n (mdBuf.length - offset) := by
    rw [List.length_take, List.length_drop]
  have htake : (mdBuf.drop offset).take (min n (mdBuf.length - offset)) =
      (mdBuf.drop offset).take n :=
    List.take_eq_take_iff.mpr (by rw [List.length_drop]; omega)
  rw [copy]
  simp only [hmin]
  generalize hc : min n (mdBuf.length - offset) = c at hlen htake
  by_cases hzero : c = 0
  · have hnil := List.eq_nil_of_length_eq_zero (hlen.trans hzero)
    rw [if_pos (by omega), hnil, write_nil, hzero, Nat.add_zero]
  · rw [if_neg (by omega), if_neg (by omega)]
    have hread : readRange mdBuf offset c = some ((mdBuf.drop offset).take n) := by
      rw [readRange, if_pos (by omega), htake]
    simp only [Int.toNat_natCast, hread, Option.bind_eq_bind, Option.bind_some,
      writeRange_eq (show D.pos + ((mdBuf.drop offset).take n).length ≤ D.buf.length by omega)]
    rw [write, hlen, Nat.cast_add]

end Destination

section Loop

variable {md : EVP_MD} {rounds k v : ℕ} {data mdBuf : Bytes} {key iv : Destination}

def AtBlock (md : EVP_MD) (rounds : ℕ) (data : Bytes) (i : ℕ) (mdBuf : Bytes) : Prop :=
  ∀ j, i = j + 1 → mdBuf = md.digestBlock rounds data j

lemma digestRounds_block {i : ℕ} (hrounds : 1 ≤ rounds) (hat : AtBlock md rounds data i mdBuf) :
    md.digestRounds rounds (if i ≠ 0 then mdBuf ++ data else data) =
      md.digestBlock rounds data i := by
  rw [EVP_MD.digestRounds_eq hrounds]
  cases i with
  | zero => rfl
  | succ j => rw [if_pos (Nat.succ_ne_zero j), hat j rfl, EVP_MD.digestBlock]

lemma copyDigests_pass {i : ℕ} (hrounds : 1 ≤ rounds) (hat : AtBlock md rounds data i mdBuf)
    (hkey : key.Room k) (hiv : iv.Room v) (fuel : ℕ) :
    copyDigests md rounds data (fuel + 1) i mdBuf key iv =
      let block := md.digestBlock rounds data i
      let key := key.write (block.take k)
      let iv := iv.write ((block.drop k).take v)
      if k + v ≤ md.size then some (key, iv)
      else copyDigests md rounds data fuel (i + 1) block key iv := by
  have hlen := md.digestBlock_length hrounds data i
  have hlt := md.size_lt
  rw [copyDigests, digestRounds_block hrounds hat]
  dsimp only
  generalize md.digestBlock rounds data i = block at hlen
  have hcopyKey := Destination.copy_eq hkey (hlen.trans_lt hlt) (Nat.zero_le _)
  -- the IV is copied from behind the key's bytes, if the block has any there
  have hrest : block.drop (0 + min k (block.length - 0)) = block.drop k := by
    rcases Nat.le_total k block.length with h | h
    · rw [Nat.sub_zero, Nat.zero_add, Nat.min_eq_left h]
    · rw [Nat.sub_zero, Nat.zero_add, Nat.min_eq_right h, List.drop_length,
        List.drop_of_length_le h]
  have hinside : 0 + min k (block.length - 0) ≤ block.length := by omega
  have hcopyIV := Destination.copy_eq hiv (hlen.trans_lt hlt) hinside
  rw [List.drop_zero] at hcopyKey
  rw [hrest] at hcopyIV
  have hkeyLeft := (hkey.write_take block).left_eq
  have hivLeft := (hiv.write_take (block.drop k)).left_eq
  have hstop : ((key.write (block.take k)).left = 0 ∧
      (iv.write ((block.drop k).take v)).left = 0) ↔ k + v ≤ md.size := by
    rw [hkeyLeft, hivLeft, List.length_drop, hlen]
    omega
  rw [Nat.cast_zero] at hcopyKey
  simp only [hcopyKey, hcopyIV, Option.bind_eq_bind, Option.bind_some, hstop]

lemma copyDigests_eq (hrounds : 1 ≤ rounds) {n : ℕ} (hn : k + v ≤ n * md.size) {i fuel : ℕ}
    (hat : AtBlock md rounds data i mdBuf) (hkey : key.Room k) (hiv : iv.Room v)
    (hfuel : k + v < fuel) :
    copyDigests md rounds data fuel i mdBuf key iv =
      some (key.write ((md.digestStream rounds data i n).take k),
        iv.write (((md.digestStream rounds data i n).drop k).take v)) := by
  induction n generalizing i mdBuf key iv k v fuel with
  | zero =>
    obtain rfl : k = 0 := by omega
    obtain rfl : v = 0 := by omega
    obtain ⟨f, rfl⟩ := Nat.exists_eq_add_of_le' hfuel
    rw [copyDigests_pass hrounds hat hkey hiv]
    exact if_pos (Nat.zero_le _)
  | succ n ih =>
    obtain ⟨f, rfl⟩ : ∃ f, fuel = f + 1 := Nat.exists_eq_succ_of_ne_zero (by omega)
    have hsize := md.size_pos
    have hlen := md.digestBlock_length hrounds data i
    rw [copyDigests_pass hrounds hat hkey hiv, EVP_MD.digestStream_take hrounds,
      EVP_MD.digestStream_drop_take hrounds]
    dsimp only
    split
    · rw [Nat.sub_eq_zero_of_le (show k ≤ md.size by omega),
        Nat.sub_eq_zero_of_le (show v ≤ md.size - k by omega)]
      simp only [List.take_zero, List.append_nil]
    · have hkey' := hkey.write_take (md.digestBlock rounds data i)
      have hiv' := hiv.write_take ((md.digestBlock rounds data i).drop k)
      rw [hlen] at hkey'
      rw [List.length_drop, hlen] at hiv'
      have hnext : AtBlock md rounds data (i + 1) (md.digestBlock rounds data i) := by
        intro j hj
        rw [Nat.succ.inj hj]
      rw [Nat.succ_mul] at hn
      rw [ih (by omega) hnext hkey' hiv' (by omega), Destination.write_write hkey,
        Destination.write_write hiv]

end Loop

section Derive

variable {md : EVP_MD} {rounds keyLen ivLen n : ℕ} {data key iv : Bytes}

lemma take_stream_length (data : Bytes) (hrounds : 1 ≤ rounds) (hn : keyLen + ivLen ≤ n * md.size) :
    ((md.digestStream rounds data 0 n).take keyLen).length = keyLen ∧
      (((md.digestStream rounds data 0 n).drop keyLen).take ivLen).length = ivLen := by
  have hlen := md.digestStream_length hrounds data 0 n
  rw [List.length_take, List.length_take, List.length_drop]
  omega

lemma BytesToKey_eq (hrounds : 1 ≤ rounds) (hdata : data ≠ []) (hkey : keyLen ≤ key.length)
    (hiv : ivLen ≤ iv.length) (hn : keyLen + ivLen ≤ n * md.size) {fuel : ℕ}
    (hfuel : keyLen + ivLen < fuel) :
    BytesToKey fuel keyLen ivLen md (some data) rounds (some key) (some iv) =
      some ((keyLen : ℤ), some ((md.digestStream rounds data 0 n).take keyLen ++ key.drop keyLen),
        some (((md.digestStream rounds data 0 n).drop keyLen).take ivLen ++ iv.drop ivLen)) := by
  obtain ⟨hkeyBytes, hivBytes⟩ := take_stream_length data hrounds hn
  have hat : AtBlock md rounds data 0 [] := by
    intro j hj
    cases hj
  have hroomKey : (⟨key, 0, keyLen⟩ : Destination).Room keyLen :=
    ⟨rfl, (Nat.zero_add _).trans_le hkey⟩
  have hroomIV : (⟨iv, 0, ivLen⟩ : Destination).Room ivLen := ⟨rfl, (Nat.zero_add _).trans_le hiv⟩
  have hloop := copyDigests_eq hrounds hn hat hroomKey hroomIV hfuel
  rw [BytesToKey]
  · simp only [Option.isSome_some, if_true, Option.getD_some, hloop, Option.bind_eq_bind,
      Option.bind_some, Option.map_some, Destination.write, overwrite_zero, hkeyBytes, hivBytes]
  · exact hdata

end Derive

/-- The key and the IV are the beginning of the stream of digests. -/
theorem BytesToKey_stream (md : EVP_MD) {rounds keyLen ivLen : ℕ} {data key iv : Bytes}
    (hrounds : 1 ≤ rounds) (hdata : data ≠ []) (hkey : keyLen ≤ key.length)
    (hiv : ivLen ≤ iv.length) :
    ∃ keyBytes ivBytes : Bytes, keyBytes.length = keyLen ∧ ivBytes.length = ivLen ∧
      (∀ fuel, keyLen + ivLen < fuel →
        BytesToKey fuel keyLen ivLen md (some data) rounds (some key) (some iv) = some
          ((keyLen : ℤ), some (keyBytes ++ key.drop keyLen), some (ivBytes ++ iv.drop ivLen))) ∧
      ∀ n, keyLen + ivLen ≤ n * md.size →
        keyBytes ++ ivBytes = (md.digestStream rounds data 0 n).take (keyLen + ivLen) := by
  have hn : keyLen + ivLen ≤ (keyLen + ivLen) * md.size := Nat.le_mul_of_pos_right _ md.size_pos
  obtain ⟨hkeyBytes, hivBytes⟩ := take_stream_length data hrounds hn
  refine ⟨_, _, hkeyBytes, hivBytes, ?_, ?_⟩
  · intro fuel hfuel
    exact BytesToKey_eq hrounds hdata hkey hiv hn hfuel
  · intro n' hn'
    rw [← List.take_add, EVP_MD.digestStream_take_eq hrounds data hn hn']

def sumDigest : EVP_MD where
  size := 2
  digest data := [data.sum, data.length.toUInt8]
  digest_length _ := rfl
  size_pos := by decide
  size_lt := by decide

theorem BytesToKey_stream_sum :
    ∃ keyBytes ivBytes : Bytes, keyBytes.length = 3 ∧ ivBytes.length = 2 ∧
      BytesToKey 6 3 2 sumDigest (some [97, 98]) 2 (some [0, 0, 0]) (some [0, 0]) =
        some (3, some keyBytes, some ivBytes) ∧
      keyBytes ++ ivBytes = [197, 2, 142, 2, 87] := by
  obtain ⟨keyBytes, ivBytes, hkey, hiv, hrun, hstream⟩ :=
    BytesToKey_stream sumDigest (by decide : 1 ≤ 2) (by decide : ([97, 98] : Bytes) ≠ [])
      (by decide : 3 ≤ ([0, 0, 0] : Bytes).length) (by decide : 2 ≤ ([0, 0] : Bytes).length)
  refine ⟨keyBytes, ivBytes, hkey, hiv, ?_, ?_⟩
  · have h := hrun 6 (by decide)
    simpa using h
  · rw [hstream 3 (by decide)]
    decide

section NewKey

variable (S : SSL_Cipher) (md : EVP_MD)

def SSL_Cipher.newKeyBuffer (fuel : ℕ) (password : Bytes) : Option Bytes := do
  let buffer := List.replicate (S.keySize + S.ivLength) 0
  let (_, key, iv) ← BytesToKey fuel S.keySize S.ivLength md (some password) 16
    (some (buffer.take S.keySize)) (some (buffer.drop S.keySize))
  some (key.getD [] ++ iv.getD [])

def SSL_Cipher.passwordKey (password : Bytes) : Bytes :=
  if password = [] then List.replicate (S.keySize + S.ivLength) 0
  else (md.digestStream 16 password 0 (S.keySize + S.ivLength)).take (S.keySize + S.ivLength)

def SSL_Cipher.withDigest : SSL_Cipher :=
  { S with
    bytesToKey := S.passwordKey md
    bytesToKey_length := by
      intro password
      rw [passwordKey]
      split
      · exact List.length_replicate
      · have hlen := md.digestStream_length (by omega : 1 ≤ 16) password 0
          (S.keySize + S.ivLength)
        have hle := Nat.le_mul_of_pos_right (S.keySize + S.ivLength) md.size_pos
        rw [List.length_take]
        omega }

theorem SSL_Cipher.newKey_withDigest {fuel : ℕ} (hfuel : S.keySize + S.ivLength < fuel)
    (password : Bytes) : S.newKeyBuffer md fuel password =
      some ((KeyCipher.ssl (S.withDigest md)).newKey password) := by
  change S.newKeyBuffer md fuel password = some (S.passwordKey md password)
  rw [newKeyBuffer, passwordKey]
  by_cases hpassword : password = []
  · rw [if_pos hpassword, hpassword]
    change some (List.take _ _ ++ List.drop _ _) = _
    rw [List.take_append_drop]
  · have hle := Nat.le_mul_of_pos_right (S.keySize + S.ivLength) md.size_pos
    have hkey : ((List.replicate (S.keySize + S.ivLength) (0 : UInt8)).take S.keySize).length =
        S.keySize := by
      rw [List.length_take, List.length_replicate, Nat.min_eq_left (Nat.le_add_right _ _)]
    have hiv : ((List.replicate (S.keySize + S.ivLength) (0 : UInt8)).drop S.keySize).length =
        S.ivLength := by
      rw [List.length_drop, List.length_replicate, Nat.add_sub_cancel_left]
    rw [if_neg hpassword]
    simp only [BytesToKey_eq (by omega : 1 ≤ 16) hpassword hkey.ge hiv.ge hle hfuel,
      Option.bind_eq_bind, Option.bind_some, Option.getD_some]
    rw [List.drop_of_length_le hkey.le, List.drop_of_length_le hiv.le, List.append_nil,
      List.append_nil, List.take_add]

end NewKey

end EncFS
