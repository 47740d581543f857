import EncFS.CipherFileIO
import EncFS.SSLCoding

set_option autoImplicit false

namespace EncFS

open CipherFileIO (blockIV)

section Bytes

lemma zipWith_xor_inj {l m m' : Bytes} (hm : m.length = l.length) (hm' : m'.length = l.length)
    (h : l.zipWith (· ^^^ ·) m = l.zipWith (· ^^^ ·) m') : m = m' := by
  induction l generalizing m m' with
  | nil => rw [List.length_eq_zero_iff.mp hm, List.length_eq_zero_iff.mp hm']
  | cons a l ih =>
    obtain ⟨b, m, rfl⟩ := List.exists_cons_of_length_eq_add_one hm
    obtain ⟨b', m', rfl⟩ := List.exists_cons_of_length_eq_add_one hm'
    obtain ⟨hhead, htail⟩ := List.cons.inj h
    rw [(UInt8.xor_right_inj a).mp hhead, ih (Nat.succ.inj hm) (Nat.succ.inj hm') htail]

lemma eq_of_bytes {v w : UInt32} (h₃ : (v >>> 24).toUInt8 = (w >>> 24).toUInt8)
    (h₂ : (v >>> 16).toUInt8 = (w >>> 16).toUInt8) (h₁ : (v >>> 8).toUInt8 = (w >>> 8).toUInt8)
    (h₀ : v.toUInt8 = w.toUInt8) : v = w := by
  have hv := v.toNat_lt
  have hw := w.toNat_lt
  simp only [← UInt8.toNat_inj, UInt32.toNat_toUInt8, UInt32.toNat_shiftRight,
    UInt32.reduceToNat, Nat.reduceMod, Nat.shiftRight_eq_div_pow, Nat.reducePow] at h₃ h₂ h₁ h₀
  apply UInt32.toNat_inj.mp
  omega

lemma mul_left_inj {c inv : UInt32} (hinv : inv * c = 1) {s t : UInt32} (h : c * s = c * t) :
    s = t := by
  calc s = inv * c * s := by rw [hinv, UInt32.one_mul]
    _ = inv * c * t := by rw [UInt32.mul_assoc, h, UInt32.mul_assoc]
    _ = t := by rw [hinv, UInt32.one_mul]

end Bytes

namespace SSLCodings

variable (S : SSLCodings) {key : Bytes}

lemma ivData_length (hkey : key.length = S.keySize + S.ivLength) :
    ((S.IVData key).take S.ivLength).length = S.ivLength := by
  rw [IVData, List.length_take, List.length_drop]
  omega

lemma setIVecOld_injective (hkey : key.length = S.keySize + S.ivLength) :
    Function.Injective fun seed => S.setIVecOld seed key := by
  intro seed seed' h
  have hlen := ivData_length S hkey
  have hproduct : (0x060a4011 : UInt32) * seed = 0x060a4011 * seed' := by
    simp only [setIVecOld] at h
    rcases S.ivLength_eq with hiv | hiv
    · rw [if_neg (by omega), if_neg (by omega)] at h
      have hmask := zipWith_xor_inj (by rw [hlen, hiv]; rfl) (by rw [hlen, hiv]; rfl) h
      simp only [List.cons.injEq] at hmask
      exact eq_of_bytes hmask.1 hmask.2.2.2.2.2.1 hmask.2.2.1 hmask.2.2.2.2.2.2.2.1
    · rw [if_pos (by omega), if_pos (by omega)] at h
      have hmask := zipWith_xor_inj (by rw [hlen, hiv]; rfl) (by rw [hlen, hiv]; rfl) h
      have hfirst := (List.append_inj hmask rfl).1
      simp only [List.cons.injEq] at hfirst
      exact eq_of_bytes hfirst.1 hfirst.2.2.2.2.2.1 hfirst.2.2.1 hfirst.2.2.2.2.2.2.2.1
  exact mul_left_inj (show (0xed6eb0f1 : UInt32) * 0x060a4011 = 1 by decide) hproduct

lemma setIVec_blockIV (hold : S.current < 3) (fileIV : UInt64) (blockNum : ℕ) (key : Bytes) :
    S.setIVec (blockIV fileIV blockNum) key =
      .ok (S.setIVecOld (blockNum.toUInt32 ^^^ fileIV.toUInt32) key) := by
  have htrunc : blockNum.toUInt64.toUInt32 = blockNum.toUInt32 := by
    apply UInt32.toNat_inj.mp
    rw [UInt64.toNat_toUInt32]
    change blockNum % 2 ^ 64 % 2 ^ 32 = blockNum % 2 ^ 32
    omega
  rw [setIVec, if_neg (by omega), CipherFileIO.blockIV, UInt64.toUInt32_xor, htrunc]

/-- Different seeds have different IVs, and so have the blocks of a file with numbers below `2^32`
for an interface below 3. -/
theorem blockIVs_differ (hkey : key.length = S.keySize + S.ivLength) :
    (Function.Injective fun seed => S.setIVecOld seed key) ∧
    (S.current < 3 → ∀ (fileIV : UInt64) (k k' : ℕ), k < 2 ^ 32 → k' < 2 ^ 32 → k ≠ k' →
      S.setIVec (blockIV fileIV k) key ≠
        S.setIVec (blockIV fileIV k') key) := by
  have hinj := setIVecOld_injective S hkey
  refine ⟨hinj, fun hold fileIV k k' hk hk' hne heq => hne ?_⟩
  rw [setIVec_blockIV S hold, setIVec_blockIV S hold] at heq
  have hseed := (UInt32.xor_left_inj _).mp (hinj (Except.ok.inj heq))
  have hmod : k % 2 ^ 32 = k' % 2 ^ 32 := congrArg UInt32.toNat hseed
  rwa [Nat.mod_eq_of_lt hk, Nat.mod_eq_of_lt hk'] at hmod

def oldCodings : SSLCodings := { maskCodings with current := 2 }

theorem blockIVs_differ_firstBlocks :
    (Function.Injective fun seed => oldCodings.setIVecOld seed (List.replicate 10 5)) ∧
    oldCodings.setIVec (blockIV 0xffffffff00000007 0) (List.replicate 10 5) ≠
      oldCodings.setIVec (blockIV 0xffffffff00000007 1) (List.replicate 10 5) := by
  obtain ⟨hseeds, hblocks⟩ := @blockIVs_differ oldCodings (List.replicate 10 5) rfl
  exact ⟨hseeds, hblocks (by decide) _ 0 1 (by decide) (by decide) (by decide)⟩

end SSLCodings

end EncFS
