import EncFS.CipherFileIO.TruncateLaw

set_option autoImplicit false

namespace EncFS.CipherFileIO

open FlatArray CipherFile BlockFileIO

variable {τ τ' : Type} {F : CipherFileIO τ} {F' : CipherFileIO τ'} {R : τ → Bytes → Prop}
  {R' : τ' → Bytes → Prop}

/-- Two objects without a header that share cipher, key and block size. -/
structure SameCoding (F : CipherFileIO τ) (F' : CipherFileIO τ') : Prop where
  cipher : F'.cipher = F.cipher
  blockSize : F'.blockSize = F.blockSize
  noHeader : F.haveHeader = false
  noHeader' : F'.haveHeader = false

lemma reads_plain (hb : F.base.ReadsFlat R) (hC : F.cipher.Lawful F.blockSize)
    (hh : F.haveHeader = false) {s : τ} {g : Bytes} (hs : R s g) (flags draws : ℕ) :
    ∃ Q, F.blockFile.accessors.ReadsFlat Q ∧
      Q ⟨.empty, ⟨s, 0, 0, flags, draws⟩⟩ (F.decoded 0 g) :=
  ⟨_, readsFlat (reads_decoded hC (codec_reads hb hC)),
    represents_fresh ⟨g, ⟨rfl, g, hs, .plain hh rfl rfl rfl⟩, rfl⟩⟩

lemma decodeBlock_reverse (hC : F.cipher.Lawful F.blockSize) (hF : SameCoding F F')
    (hr : F.reverseEncryption = true) (hr' : F'.reverseEncryption = false) (k : ℕ) (d : Bytes)
    (hz : F'.allowHoles = true → d.length = F.blockSize →
      F.cipher.blockEncode (blockIV 0 k) d ≠ List.replicate F.blockSize 0) :
    F'.decodeBlock 0 k (F.decodeBlock 0 k d) = d := by
  have hlen := decodeBlock_length hC 0 k d
  unfold decodeBlock at hlen ⊢
  by_cases h : d.length = F.blockSize
  · rw [if_neg (not_not.mpr h)] at hlen ⊢
    rw [if_neg (by rw [hlen, hF.blockSize]; exact not_not.mpr h)]
    unfold blockRead at hlen ⊢
    rw [if_pos hr] at hlen ⊢
    rw [if_neg (by simp [hr']), if_neg, hF.cipher, hC.blockDecode_blockEncode _ h]
    rintro ⟨hh, hzero⟩
    rw [hlen, h] at hzero
    exact hz hh h hzero
  · rw [if_pos h] at hlen ⊢
    rw [if_pos (by rw [hlen, hF.blockSize]; exact h)]
    simp only [streamRead]
    rw [if_pos hr, if_neg (by simp [hr']), hF.cipher, hC.streamDecode_streamEncode]

lemma decoded_reverse (hC : F.cipher.Lawful F.blockSize) (hF : SameCoding F F')
    (hr : F.reverseEncryption = true) (hr' : F'.reverseEncryption = false) (P : Bytes)
    (hz : F'.allowHoles = true → ∀ k, (slice P (k * F.blockSize) F.blockSize).length = F.blockSize →
      F.cipher.blockEncode (blockIV 0 k) (slice P (k * F.blockSize) F.blockSize) ≠
        List.replicate F.blockSize 0) :
    F'.decoded 0 (F.decoded 0 P) = P := by
  have hC' : F'.cipher.Lawful F'.blockSize := by rwa [hF.cipher, hF.blockSize]
  have hpres := lengthPreserving_decodeBlock hC' 0
  rw [decoded]
  rw [hF.blockSize] at hpres ⊢
  exact mapBlocks_mapBlocks (lengthPreserving_decodeBlock hC 0) F.blockSize_pos hpres P fun k =>
    decodeBlock_reverse hC hF hr hr' k _ fun hh => hz hh k

/-- Reading a plain file in reverse mode, in any pieces, gives as many bytes, and reading these in
forward mode, in any pieces, gives the file again. -/
theorem forward_reverse (hb : F.base.ReadsFlat R) (hb' : F'.base.ReadsFlat R')
    (hC : F.cipher.Lawful F.blockSize) (hF : SameCoding F F') (hr : F.reverseEncryption = true)
    (hr' : F'.reverseEncryption = false) {s : τ} {P : Bytes} (hs : R s P)
    (hz : F'.allowHoles = true → ∀ k, (slice P (k * F.blockSize) F.blockSize).length = F.blockSize →
      F.cipher.blockEncode (blockIV 0 k) (slice P (k * F.blockSize) F.blockSize) ≠
        List.replicate F.blockSize 0)
    (flags draws : ℕ) {ns : List ℕ} (hn : P.length ≤ ns.sum) :
    ∃ E o, F.blockFile.accessors.readAll 0 ns ⟨.empty, ⟨s, 0, 0, flags, draws⟩⟩ = .ok E o ∧
      E.length = P.length ∧
      ∀ {s'}, R' s' E → ∀ (flags' draws' : ℕ) {ms : List ℕ}, P.length ≤ ms.sum →
        ∃ o', F'.blockFile.accessors.readAll 0 ms ⟨.empty, ⟨s', 0, 0, flags', draws'⟩⟩ =
          .ok P o' := by
  have hC' : F'.cipher.Lawful F'.blockSize := by rwa [hF.cipher, hF.blockSize]
  obtain ⟨Q, hQ, hrep⟩ := reads_plain hb hC hF.noHeader hs flags draws
  obtain ⟨o, he⟩ := hQ.readAll_content hrep (by rwa [decoded_length hC])
  refine ⟨F.decoded 0 P, o, he, decoded_length hC 0 P, fun hs' flags' draws' ms hm => ?_⟩
  obtain ⟨Q', hQ', hrep'⟩ := reads_plain hb' hC' hF.noHeader' hs' flags' draws'
  rw [decoded_reverse hC hF hr hr' P hz] at hrep'
  exact hQ'.readAll_content hrep' hm

def maskView (allowHoles : Bool) : CipherFileIO Bytes :=
  { maskFile false allowHoles with reverseEncryption := true }

theorem forward_reverse_maskFile :
    ∃ E o, (maskView true).blockFile.accessors.readAll 0 [3, 1, 7]
        ⟨.empty, ⟨[0, 0, 0, 0, 5, 6, 7], 0, 0, 0, 0⟩⟩ = .ok E o ∧ E.length = 7 ∧
      ∀ {s'}, s' = E → ∀ (flags' draws' : ℕ) {ms : List ℕ}, 7 ≤ ms.sum →
        ∃ o', (maskFile false true).blockFile.accessors.readAll 0 ms
          ⟨.empty, ⟨s', 0, 0, flags', draws'⟩⟩ = .ok [0, 0, 0, 0, 5, 6, 7] o' :=
  @forward_reverse _ _ (maskView true) (maskFile false true) _ _ plainFile_flatStore.toReadsFlat
    plainFile_flatStore.toReadsFlat (maskCipher_lawful 4)
    ⟨rfl, rfl, rfl, rfl⟩ rfl rfl [0, 0, 0, 0, 5, 6, 7] [0, 0, 0, 0, 5, 6, 7] rfl (by
      intro _ k hk
      have : k = 0 := by
        rw [slice_length] at hk
        change min 4 (7 - k * 4) = 4 at hk
        omega
      subst this
      decide) 0 0 [3, 1, 7] (by decide)

end EncFS.CipherFileIO
