import EncFS.BlockFileIO.EmptyWrite
import EncFS.MACFileIO.Sizes

set_option autoImplicit false

namespace EncFS.MACFileIO

open FlatArray MACFile

variable {τ : Type} {M : MACFileIO τ} {R : τ → Bytes → Prop} {b c header : Bytes}

section Trailing

variable (hl : M.Layout b c) (hdvd : M.dataBlockSize ∣ c.length)
  (hheader : header.length = M.headerSize)
include hl hdvd

lemma Layout.length_aligned : b.length = c.length / M.dataBlockSize * M.bs := by
  have hloc := locWithHeader_mul (h := M.headerSize) M.dataBlockSize_pos
    (c.length / M.dataBlockSize)
  rw [Nat.div_mul_cancel hdvd] at hloc
  rw [hl.length]
  exact hloc

lemma Layout.slice_trailed {k : ℕ} (hk : k * M.dataBlockSize < c.length) :
    slice (b ++ header) (k * M.bs) M.bs = slice b (k * M.bs) M.bs := by
  have hlt : k + 1 ≤ c.length / M.dataBlockSize := by
    rw [← Nat.div_mul_cancel hdvd] at hk
    exact Nat.lt_of_mul_lt_mul_right hk
  have hmul := Nat.mul_le_mul_right M.bs hlt
  rw [Nat.succ_mul] at hmul
  exact slice_append_left header (by rw [hl.length_aligned hdvd]; exact hmul)

include hheader

lemma Layout.slice_trailed_le {k : ℕ} (hk : c.length ≤ k * M.dataBlockSize) :
    (slice (b ++ header) (k * M.bs) M.bs).length ≤ M.headerSize := by
  have hle : c.length / M.dataBlockSize ≤ k := by
    rw [← Nat.div_mul_cancel hdvd] at hk
    exact Nat.le_of_mul_le_mul_right hk M.dataBlockSize_pos
  have hmul := Nat.mul_le_mul_right M.bs hle
  rw [slice_length, List.length_append, hl.length_aligned hdvd, hheader]
  omega

lemma Layout.mod_trailed : (b ++ header).length % M.bs = M.headerSize := by
  have hlt : M.headerSize < M.bs := Nat.lt_add_of_pos_left M.dataBlockSize_pos
  rw [List.length_append, hl.length_aligned hdvd, hheader, Nat.mul_add_mod_self_right,
    Nat.mod_eq_of_lt hlt]

lemma Layout.plain_trailed : M.plain (b ++ header) = c := by
  have hlt : M.headerSize < M.bs := Nat.lt_add_of_pos_left M.dataBlockSize_pos
  have hsize : M.readableSize (b ++ header).length = c.length := by
    rw [readableSize, hl.mod_trailed hdvd hheader, List.length_append, hl.length_aligned hdvd,
      hheader, Nat.add_comm (_ * M.bs), Nat.add_mul_div_right _ _ M.bs_pos, Nat.div_eq_of_lt hlt,
      Nat.sub_self, Nat.add_zero, Nat.zero_add, Nat.div_mul_cancel hdvd]
  refine ext_blocks M.dataBlockSize_pos (by rw [plain_length, hsize]) fun k _ => ?_
  rw [slice_plain]
  by_cases hk : k * M.dataBlockSize < c.length
  · obtain ⟨h, hlen, hblock, -⟩ := hl.block k hk
    rw [hl.slice_trailed hdvd hk, hblock, List.drop_left' hlen]
  · rw [FlatArray.slice_eq_nil (Nat.not_lt.mp hk),
      List.drop_of_length_le (hl.slice_trailed_le hdvd hheader (Nat.not_lt.mp hk))]

lemma Layout.unrefused_trailed : M.Unrefused (b ++ header) := by
  intro k hlong
  by_cases hk : k * M.dataBlockSize < c.length
  · obtain ⟨h, -, hblock, haccept⟩ := hl.block k hk
    rw [hl.slice_trailed hdvd hk, hblock]
    exact .inr haccept
  · exact absurd hlong (Nat.not_lt.mpr (hl.slice_trailed_le hdvd hheader (Nat.not_lt.mp hk)))

end Trailing

lemma checksNothing_nil {rand : Bytes} (hlen : rand.length = M.randBytes) :
    M.ChecksNothing rand [] ↔ 0 < M.macBytes ∧ M.cipher.checksSize = true ∧ M.randBytes = 0 := by
  rw [ChecksNothing, List.append_nil, ← hlen, List.length_eq_zero_iff]

lemma emptyBlock (hb : M.base.RefinesFlat R) (hpos : 0 < M.headerSize)
    (hrand : 0 < M.randBytes → ∀ i, M.random.randomize i M.randBytes ≠ none) :
    M.blockFile.EmptyBlock (M.Holds R)
      (decide (0 < M.macBytes ∧ M.cipher.checksSize = true ∧ M.randBytes = 0)) := by
  by_cases hnothing : 0 < M.macBytes ∧ M.cipher.checksSize = true ∧ M.randBytes = 0
  · rw [decide_eq_true hnothing]
    refine .asserted fun c f _ => ?_
    obtain ⟨rand, f₁, h₁, hlen, -⟩ := randomHeader_run hrand f
    refine ⟨.assertFailed, f₁, ?_⟩
    change M.writeOneBlock c.length [] f = _
    rw [writeOneBlock, Action.bind_ok h₁]
    dsimp only
    rw [if_pos ((checksNothing_nil hlen).mpr hnothing)]
    rfl
  rw [decide_eq_false hnothing]
  refine .taken fun c f hf hdvd => ?_
  obtain ⟨rand, f₁, h₁, hlen, hbase⟩ := randomHeader_run hrand f
  obtain ⟨b, hR, hl⟩ := hf
  obtain ⟨header, hheader, heq, -⟩ := withHeader_eq M [] hlen
  rw [List.append_nil] at heq
  have hne : header ≠ [] := by
    rintro rfl
    rw [← hheader] at hpos
    exact absurd hpos (Nat.lt_irrefl 0)
  rw [← hbase] at hR
  obtain ⟨s', he, hR'⟩ := hb.write b.length hR hne
  rw [splice_end] at hR'
  refine ⟨{ f₁ with base := s' }, ?_, ?_, fun offset n => ?_⟩
  · change M.writeOneBlock c.length [] f = _
    rw [writeOneBlock, Action.bind_ok h₁]
    dsimp only
    rw [if_neg fun h => hnothing ((checksNothing_nil hlen).mp h)]
    simp only [heq, ← hl.length]
    exact lift_ok he
  · obtain ⟨f', hsize⟩ := getSize_value hb.toReadsFlat (f := { f₁ with base := s' }) hR'
    have heq := (locWithoutHeader_eq_readableSize (M := M) (b ++ header).length).mpr
      (.inr (Nat.le_of_eq (hl.mod_trailed hdvd hheader).symm))
    rw [← plain_length, hl.plain_trailed hdvd hheader] at heq
    rw [heq] at hsize
    exact ⟨_, Cached.lift_ok hsize⟩
  · have hread := read_plain hb.toReadsFlat (f := { f₁ with base := s' }) hR'
      (hl.unrefused_trailed hdvd hheader) c.length offset n
    rwa [hl.plain_trailed hdvd hheader] at hread

end EncFS.MACFileIO
