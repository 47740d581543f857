import EncFS.CipherFileIO.Truncate

set_option autoImplicit false

namespace EncFS.CipherFileIO

open FlatArray CipherFile BlockFileIO

variable {τ : Type} (F : CipherFileIO τ) {R : τ → Bytes → Prop} (ext v : UInt64)

def LastReadsBack (x c : Bytes) (n : ℕ) : Prop :=
  ∀ k, k * F.blockSize < c.length → c.length < (k + 1) * F.blockSize →
    F.decodeBlock v k (F.encodeBlock v k (F.blockFile.paddedBlock x c.length n k)) =
      slice (resize 0 c n) (k * F.blockSize) F.blockSize

def HolesRead (m n : ℕ) : Prop :=
  F.allowHoles = true → ∀ k, m ≤ k * F.blockSize → (k + 1) * F.blockSize ≤ n →
    F.decodeBlock v k (List.replicate F.blockSize 0) = List.replicate F.blockSize 0

/-- The block left in the cache is right although nothing after the old last block was written. -/
def CacheGrows (x c : Bytes) (cache : Cache) (n : ℕ) : Prop :=
  F.allowHoles = true → n % F.blockSize = 0 →
    (c.length % F.blockSize = 0 → F.blockFile.Coherent (resize 0 c n) cache) ∧
    ∀ k, k * F.blockSize < c.length → c.length < (k + 1) * F.blockSize →
      F.blockFile.paddedBlock x c.length n k =
        slice (resize 0 c n) (k * F.blockSize) F.blockSize

variable {F ext v}

section Decoding

variable (hC : F.cipher.Lawful F.blockSize)
include hC

lemma decoded_take (g : Bytes) (k : ℕ) :
    F.decoded v (g.take (k * F.blockSize)) = (F.decoded v g).take (k * F.blockSize) :=
  mapBlocks_take F.blockSize_pos (lengthPreserving_decodeBlock hC v) g k

lemma readBack_short {k : ℕ} {d : Bytes} (h : d.length ≠ F.blockSize) :
    F.decodeBlock v k (F.encodeBlock v k d) = d :=
  decodeBlock_encodeBlock hC v k fun _ _ h' => (h h').elim

lemma readBack_noHoles (hh : F.allowHoles = false) (k : ℕ) (d : Bytes) :
    F.decodeBlock v k (F.encodeBlock v k d) = d :=
  decodeBlock_encodeBlock hC v k fun h' => by rw [hh] at h'; cases h'

lemma readBack_zeros (k n : ℕ) :
    F.decodeBlock v k (F.encodeBlock v k (List.replicate n 0)) = List.replicate n 0 :=
  decodeBlock_encodeBlock hC v k fun _ _ h' _ => by rw [← h', List.length_replicate]

lemma decoded_cut {g d : Bytes} {k : ℕ} (hk : k * F.blockSize ≤ g.length)
    (hd : d.length < F.blockSize) :
    F.decoded v (splice 0 (g.take (k * F.blockSize)) (k * F.blockSize) (F.encodeBlock v k d)) =
      (F.decoded v g).take (k * F.blockSize) ++ d := by
  have hlen (h : Bytes) (hh : h.length = g.length) :
      (h.take (k * F.blockSize)).length = k * F.blockSize := by
    rw [List.length_take, hh, Nat.min_eq_left hk]
  have hg := hlen g rfl
  have hc := hlen (F.decoded v g) (decoded_length hC v g)
  rw [decoded_splice hC (Nat.le_of_lt hd) (by omega) (by omega) (readBack_short hC (Nat.ne_of_lt hd)),
    decoded_take hC, splice, List.drop_eq_nil_of_le (by omega), List.append_nil,
    resize_eq_take 0 (by omega), List.take_of_length_le (by omega)]

lemma decoded_cut_iff {g d : Bytes} {n : ℕ} (hn : n < g.length) (hd : d.length = n % F.blockSize) :
    F.decoded v (splice 0 (g.take (n / F.blockSize * F.blockSize)) (n / F.blockSize * F.blockSize)
        (F.encodeBlock v (n / F.blockSize) d)) = (F.decoded v g).take n ↔
      d = slice (F.decoded v g) (n / F.blockSize * F.blockSize) (n % F.blockSize) := by
  have hdiv := Nat.div_add_mod' n F.blockSize
  have hlt := Nat.mod_lt n F.blockSize_pos
  have htake : (F.decoded v g).take n =
      (F.decoded v g).take (n / F.blockSize * F.blockSize) ++
        slice (F.decoded v g) (n / F.blockSize * F.blockSize) (n % F.blockSize) := by
    conv_lhs => rw [← hdiv, List.take_add]
    rfl
  rw [decoded_cut hC (by omega) (by omega), htake, List.append_cancel_left_eq]

lemma slice_decoded_grown {x g : Bytes} {n : ℕ} (hn : g.length < n) (k : ℕ) :
    (F.grown v x g n).length = n ∧
      slice (F.decoded v (F.grown v x g n)) (k * F.blockSize) F.blockSize =
        if k ∈ F.blockFile.paddedBlocks g.length n then
          F.decodeBlock v k (F.encodeBlock v k (F.blockFile.paddedBlock x g.length n k))
        else F.decodeBlock v k (slice (resize 0 g n) (k * F.blockSize) F.blockSize) := by
  have hfit (k : ℕ) (hk : k ∈ F.blockFile.paddedBlocks g.length n) :=
    padded_fits (v := v) hC x hn hk
  obtain ⟨hlen, hblock⟩ := slice_putBlocks 0 (resize 0 g n) _ (resize_length 0 g n) hfit
  refine ⟨hlen, ?_⟩
  rw [slice_decoded hC, grown, padOut, hblock]
  split <;> rfl

lemma decoded_grown_iff {x g : Bytes} {n : ℕ} (hn : g.length < n) :
    F.decoded v (F.grown v x g n) = resize 0 (F.decoded v g) n ↔
      F.LastReadsBack v x (F.decoded v g) n ∧ F.HolesRead v g.length n := by
  have hlen := (slice_decoded_grown hC (v := v) (x := x) hn 0).1
  have hblock (k : ℕ) := (slice_decoded_grown hC (v := v) (x := x) hn k).2
  have hc := decoded_length hC v g
  constructor
  · intro heq
    constructor
    · intro k hk hk'
      rw [hc] at hk hk' ⊢
      rw [← heq, hblock k, if_pos]
      exact (mem_paddedBlocks hn k).mpr ⟨hk', Nat.lt_trans hk hn, .inl hk⟩
    · intro hh k hk hk'
      have hmul : k * F.blockSize + F.blockSize ≤ n := by rwa [Nat.succ_mul] at hk'
      have hout : k ∉ F.blockFile.paddedBlocks g.length n := by
        intro hmem
        rcases ((mem_paddedBlocks hn k).mp hmem).2.2 with h | h | h
        · exact absurd hk (Nat.not_le.mpr h)
        · exact absurd (hh.symm.trans h) (by simp)
        · exact absurd hk' (Nat.not_le.mpr h)
      have := hblock k
      rw [heq, if_neg hout, slice_resize_past 0 _ (by omega), slice_resize_past 0 _ hk,
        Nat.min_eq_left (by omega)] at this
      exact this.symm
  · rintro ⟨hlast, hholes⟩
    refine ext_blocks F.blockSize_pos (by simp [hC, hlen]) fun k hk => ?_
    rw [decoded_length hC, hlen] at hk
    rw [hblock k]
    by_cases hmem : k ∈ F.blockFile.paddedBlocks g.length n
    · rw [if_pos hmem]
      by_cases hlt : k * F.blockSize < g.length
      · have := hlast k (by omega) (by rw [hc]; exact ((mem_paddedBlocks hn k).mp hmem).1)
        rwa [hc] at this
      · rw [paddedBlock_zero (Nat.not_lt.mp hlt), readBack_zeros hC,
          slice_resize_past 0 _ (by omega)]
        rfl
    · rw [if_neg hmem]
      by_cases hle : (k + 1) * F.blockSize ≤ g.length
      · rw [slice_resize_block 0 _ hle (Nat.le_of_lt hn),
          slice_resize_block 0 _ (by omega) (by omega), slice_decoded hC]
      · have hnot := (mem_paddedBlocks (B := F.blockFile) hn k).not.mp hmem
        have hfacts : g.length ≤ k * F.blockSize ∧ F.allowHoles = true ∧
            (k + 1) * F.blockSize ≤ n := by
          refine ⟨?_, ?_, ?_⟩
          · by_contra hlt
            exact hnot ⟨Nat.not_le.mp hle, hk, .inl (Nat.not_le.mp hlt)⟩
          · by_contra hh
            exact hnot ⟨Nat.not_le.mp hle, hk, .inr (.inl (Bool.eq_false_iff.mpr hh))⟩
          · by_contra hlt
            exact hnot ⟨Nat.not_le.mp hle, hk, .inr (.inr (Nat.not_le.mp hlt))⟩
        obtain ⟨hge, hh, hend⟩ := hfacts
        have hmul : k * F.blockSize + F.blockSize ≤ n := by rwa [Nat.succ_mul] at hend
        rw [slice_resize_past 0 _ hge, slice_resize_past 0 _ (by omega),
          Nat.min_eq_left (by omega), hholes hh k hge hend]

omit hC in
lemma eq_of_paddedBlocks_eq_nil {m n : ℕ} (hn : m < n) (h : F.blockFile.paddedBlocks m n = []) :
    n % F.blockSize = 0 ∧ m % F.blockSize = 0 ∧ F.allowHoles = true := by
  have hbs := F.blockSize_pos
  have hm := Nat.div_add_mod' m F.blockSize
  have hno (k : ℕ) := (mem_paddedBlocks (B := F.blockFile) hn k).not.mp (by
    rw [h]
    exact List.not_mem_nil)
  have hend : m < (m / F.blockSize + 1) * F.blockSize := Nat.succ_mul _ _ ▸ Nat.lt_div_mul_add hbs
  have hbegin : m / F.blockSize * F.blockSize < n := by omega
  refine ⟨?_, ?_, ?_⟩
  · by_contra hn0
    have hlast := getLast_paddedBlocks (B := F.blockFile) (m := m) hn0
    rw [h] at hlast
    cases hlast
  · by_contra hm0
    refine hno (m / F.blockSize) ⟨hend, hbegin, .inl ?_⟩
    change m / F.blockSize * F.blockSize < m
    omega
  · by_contra hh
    exact hno (m / F.blockSize) ⟨hend, hbegin, .inr (.inl (Bool.eq_false_iff.mpr hh))⟩

omit hC in
lemma padded_only_last {m n : ℕ} (hn : m < n) (hh : F.allowHoles = true) (hn0 : n % F.blockSize = 0)
    {k : ℕ} (hk : k ∈ F.blockFile.paddedBlocks m n) :
    k * F.blockSize < m ∧ m < (k + 1) * F.blockSize := by
  have hnd := Nat.div_add_mod' n F.blockSize
  obtain ⟨h₁, h₂, h₃ | h₃ | h₃⟩ := (mem_paddedBlocks (B := F.blockFile) hn k).mp hk
  · exact ⟨h₃, h₁⟩
  · exact absurd (hh.symm.trans h₃) (by simp)
  · have hdiv : n / F.blockSize = k := Nat.div_eq_of_lt_le (Nat.le_of_lt h₂) h₃
    rw [hdiv] at hnd
    exact absurd h₂ (by change ¬k * F.blockSize < n; omega)

lemma paddedBlock_eq_slice {x c : Bytes} {cache : Cache} {n k : ℕ} (hn : c.length < n)
    (hlast : F.LastReadsBack v x c n) (hks : (F.blockFile.paddedBlocks c.length n).getLast? = some k)
    (h : F.CacheGrows x c cache n) :
    F.blockFile.paddedBlock x c.length n k = slice (resize 0 c n) (k * F.blockSize) F.blockSize := by
  have hnd := Nat.div_add_mod' n F.blockSize
  have hnd' := Nat.mod_lt n F.blockSize_pos
  by_cases hlt : k * F.blockSize < c.length
  · have hgt : c.length < (k + 1) * F.blockSize :=
      ((mem_paddedBlocks hn k).mp (List.mem_of_getLast? hks)).1
    rw [← hlast k hlt hgt]
    cases hh : F.allowHoles with
    | false => exact (readBack_noHoles hC hh k _).symm
    | true =>
      by_cases hn0 : n % F.blockSize = 0
      · rw [hlast k hlt hgt]
        exact (h hh hn0).2 k hlt hgt
      · have hkn := getLast_paddedBlocks (B := F.blockFile) (m := c.length) hn0
        rw [hks] at hkn
        obtain rfl : k = n / F.blockSize := Option.some.inj hkn
        refine (readBack_short hC ?_).symm
        rw [paddedBlock_length]
        change min F.blockSize (n - n / F.blockSize * F.blockSize) ≠ F.blockSize
        omega
  · rw [paddedBlock_zero (Nat.not_lt.mp hlt), slice_resize_past 0 _ (Nat.not_lt.mp hlt)]
    rfl

lemma coherent_grown_iff {x c : Bytes} (cache : Cache) {n : ℕ} (hn : c.length < n)
    (hlast : F.LastReadsBack v x c n) :
    F.blockFile.Coherent (resize 0 c n) (F.blockFile.afterWrites cache
        ((F.blockFile.paddedBlocks c.length n).map fun k =>
          (k, F.blockFile.paddedBlock x c.length n k))) ↔ F.CacheGrows x c cache n := by
  have hm := Nat.div_add_mod' c.length F.blockSize
  have hblock {k : ℕ} (h : k * F.blockSize < c.length) (h' : c.length < (k + 1) * F.blockSize) :
      c.length / F.blockSize = k := Nat.div_eq_of_lt_le (Nat.le_of_lt h) h'
  rw [afterWrites_map]
  cases hks : (F.blockFile.paddedBlocks c.length n).getLast? with
  | none =>
    obtain ⟨hn0, hm0, hh⟩ := eq_of_paddedBlocks_eq_nil hn (List.getLast?_eq_none_iff.mp hks)
    refine ⟨fun hco _ _ => ⟨fun _ => hco, fun k hk hk' => ?_⟩, fun h => (h hh hn0).1 hm0⟩
    rw [hblock hk hk'] at hm
    omega
  | some k =>
    refine ⟨fun hco hh hn0 => ?_, fun h _ => ⟨k, rfl, paddedBlock_eq_slice hC hn hlast hks h⟩⟩
    obtain ⟨hlt, hgt⟩ := padded_only_last hn hh hn0 (List.mem_of_getLast? hks)
    refine ⟨fun hm0 => ?_, fun j hj hj' => ?_⟩
    · rw [hblock hlt hgt] at hm
      omega
    · obtain rfl : j = k := (hblock hj hj').symm.trans (hblock hlt hgt)
      have hne : F.blockFile.paddedBlock x c.length n j ≠ [] := by
        refine List.ne_nil_of_length_pos ?_
        rw [paddedBlock_length]
        have hbs := F.blockSize_pos
        change 0 < min F.blockSize (n - j * F.blockSize)
        omega
      obtain ⟨i, hi, hdata⟩ := hco hne
      rw [← block_inj hi] at hdata
      exact hdata

end Decoding

def ReadsAs (F : CipherFileIO τ) (o : Cached (CipherFile τ)) (t : Bytes) : Prop :=
  (∃ o', F.blockFile.accessors.getSize o = .ok t.length o') ∧
    ∀ offset n, ∃ o', F.blockFile.read offset n o = .ok (some (slice t offset n)) o'

/-- The file is `t`, read through the same object and through a fresh one. -/
def Truncated (F : CipherFileIO τ) (o : Cached (CipherFile τ)) (t : Bytes) : Prop :=
  F.ReadsAs o t ∧ ∀ flags draws, F.ReadsAs
    ⟨.empty, { o.file with fileIV := 0, lastFlags := flags, draws := draws }⟩ t

def TruncatesTo (F : CipherFileIO τ) (o : Cached (CipherFile τ)) (n : ℕ) (t : Bytes) : Prop :=
  ∃ o', F.truncate n o = .ok 0 o' ∧ F.Truncated o' t

def Shaped (F : CipherFileIO τ) (cache : Cache) : Prop :=
  cache.data ≠ [] → cache.data.length ≤ F.blockSize ∧ ∃ k, cache.offset = k * F.blockSize

def ReadsBack (F : CipherFileIO τ) (v : UInt64) (cache : Cache) (g : Bytes) (n : ℕ) : Prop :=
  if g.length < n then
    F.LastReadsBack v (F.oldLastBlock v cache g n) (F.decoded v g) n ∧ F.HolesRead v g.length n ∧
      F.CacheGrows (F.oldLastBlock v cache g n) (F.decoded v g) cache n
  else if n = g.length ∨ n % F.blockSize = 0 then
    F.blockFile.Coherent ((F.decoded v g).take n) cache
  else
    resize 0 (F.blockFile.lookup cache
        (slice (F.decoded v g) (n / F.blockSize * F.blockSize) F.blockSize) (n / F.blockSize))
        (n % F.blockSize) =
      slice (F.decoded v g) (n / F.blockSize * F.blockSize) (n % F.blockSize)

section Reading

variable (hb : F.base.ReadsFlat R) (hC : F.cipher.Lawful F.blockSize)
include hb hC

lemma readsAs_of_coherent {cache : Cache} {f : CipherFile τ} {g t : Bytes}
    (h : F.Holds R ext v f g) (ht : F.decoded v g = t) (hc : F.blockFile.Coherent t cache) :
    F.ReadsAs ⟨cache, f⟩ t := by
  have hrep : F.blockFile.Represents (F.Decodes v (F.Holds R ext v)) ⟨cache, f⟩ t := ⟨⟨g, h, ht.symm⟩, hc⟩
  have hreads : F.blockFile.accessors.ReadsFlat
      (F.blockFile.Represents (F.Decodes v (F.Holds R ext v))) :=
    readsFlat (reads_decoded hC (codec_reads hb hC))
  obtain ⟨o', he, -⟩ := hreads.getSize hrep
  refine ⟨⟨o', he⟩, fun offset n => ?_⟩
  obtain ⟨o', he, -⟩ := hreads.read offset n hrep
  exact ⟨o', he⟩

lemma decoded_of_readsAs {f : CipherFile τ} {g t : Bytes} (h : F.Holds R ext v f g)
    (hr : F.ReadsAs ⟨.empty, f⟩ t) : F.decoded v g = t := by
  have hself : F.ReadsAs ⟨.empty, f⟩ (F.decoded v g) :=
    readsAs_of_coherent hb hC h rfl coherent_nil
  obtain ⟨⟨o₁, h₁⟩, hread⟩ := hself
  obtain ⟨⟨o₂, h₂⟩, hread'⟩ := hr
  have hlen : (F.decoded v g).length = t.length := by
    have hsame := h₁.symm.trans h₂
    injection hsame with hlen
    exact Int.ofNat_inj.mp hlen
  obtain ⟨o₃, h₃⟩ := hread 0 t.length
  obtain ⟨o₄, h₄⟩ := hread' 0 t.length
  have := h₃.symm.trans h₄
  injection this with heq
  rw [← slice_all (Nat.le_of_eq hlen), Option.some.inj heq, slice_zero_length]

lemma coherent_of_readsAs {cache : Cache} {f : CipherFile τ} {g t : Bytes}
    (h : F.Holds R ext v f g) (hs : F.Shaped cache) (hr : F.ReadsAs ⟨cache, f⟩ t) :
    F.blockFile.Coherent t cache := by
  intro hne
  obtain ⟨hlen, k, hk⟩ := hs hne
  refine ⟨k, hk, ?_⟩
  obtain ⟨s', he, -⟩ := cacheReadOneBlock_run (codec_reads hb hC) cache k F.blockSize h
  obtain ⟨o', he'⟩ := hr.2 (k * F.blockSize) F.blockSize
  have hfast : F.blockFile.read (k * F.blockSize) F.blockSize =
      F.blockFile.cacheReadOneBlock (k * F.blockSize) F.blockSize :=
    if_pos ⟨Nat.mul_mod_left k F.blockSize, Nat.le_refl F.blockSize⟩
  rw [hfast] at he'
  have := he.symm.trans he'
  injection this with heq
  have hhit : F.blockFile.Hit cache k := ⟨hk.symm, hne⟩
  rw [lookup, if_pos hhit, List.take_of_length_le hlen] at heq
  exact Option.some.inj heq

end Reading

lemma truncated_iff (hb : F.base.ReadsFlat R) (hC : F.cipher.Lawful F.blockSize)
    {cache : Cache} {f : CipherFile τ} {g t : Bytes} (h : F.Established R ext v f g)
    (hs : F.Shaped cache) :
    F.Truncated ⟨cache, f⟩ t ↔ F.decoded v g = t ∧ F.blockFile.Coherent t cache := by
  constructor
  · rintro ⟨hr, hfresh⟩
    exact ⟨decoded_of_readsAs hb hC (h.reopen 0 0) (hfresh 0 0),
      coherent_of_readsAs hb hC h.toHolds hs hr⟩
  · rintro ⟨ht, hc⟩
    exact ⟨readsAs_of_coherent hb hC h.toHolds ht hc, fun flags draws =>
      readsAs_of_coherent hb hC (h.reopen flags draws) ht coherent_nil⟩

lemma truncatesTo_iff {o o' : Cached (CipherFile τ)} {n : ℕ} {t : Bytes}
    (he : F.truncate n o = .ok 0 o') : F.TruncatesTo o n t ↔ F.Truncated o' t := by
  refine ⟨?_, fun h => ⟨o', he, h⟩⟩
  rintro ⟨o'', he', h⟩
  have hsame := he.symm.trans he'
  injection hsame with _ ho
  exact ho ▸ h

lemma shaped_afterWrites {cache : Cache} {ws : List (ℕ × Bytes)} (h : F.Shaped cache)
    (hw : ∀ w ∈ ws, w.2.length ≤ F.blockSize) : F.Shaped (F.blockFile.afterWrites cache ws) := by
  induction ws generalizing cache with
  | nil => exact h
  | cons w ws ih =>
    exact ih (fun _ => ⟨hw w List.mem_cons_self, w.1, rfl⟩)
      fun u hu => hw u (List.mem_cons_of_mem w hu)

lemma truncate_leaves (hb : F.base.FlatStore R) (hC : F.cipher.Lawful F.blockSize) {cache : Cache}
    {f : CipherFile τ} {g : Bytes} (h : F.Holds R ext v f g) (hs : F.Shaped cache) (n : ℕ) :
    ∃ cache' f' g', F.truncate n ⟨cache, f⟩ = .ok 0 ⟨cache', f'⟩ ∧ F.Established R ext v f' g' ∧
      F.Shaped cache' ∧ (F.decoded v g' = resize 0 (F.decoded v g) n ∧
        F.blockFile.Coherent (resize 0 (F.decoded v g) n) cache' ↔ F.ReadsBack v cache g n) := by
  have hc := decoded_length hC v g
  rw [ReadsBack]
  by_cases hgrow : g.length < n
  · rw [if_pos hgrow]
    obtain ⟨f', he, h'⟩ := truncate_grow_run hb hC cache h hgrow rfl
    have hfit : ∀ w ∈ (F.blockFile.paddedBlocks g.length n).map fun k =>
        (k, F.blockFile.paddedBlock (F.oldLastBlock v cache g n) g.length n k),
        w.2.length ≤ F.blockSize := by
      intro w hw
      obtain ⟨k, -, rfl⟩ := List.mem_map.mp hw
      exact Nat.le_trans (Nat.le_of_eq (paddedBlock_length _ _ _ _)) (Nat.min_le_left _ _)
    refine ⟨_, f', _, he, h', shaped_afterWrites hs hfit, ?_⟩
    rw [decoded_grown_iff hC hgrow, and_assoc]
    refine and_congr_right fun hlast => and_congr_right fun _ => ?_
    have := coherent_grown_iff hC cache (by rwa [hc]) hlast
    rwa [hc] at this
  rw [if_neg hgrow, resize_eq_take 0 (by omega)]
  by_cases hsame : n = g.length
  · subst hsame
    obtain ⟨f', he, h'⟩ := truncate_same_run hb hC cache h
    refine ⟨cache, f', g, he, h', hs, ?_⟩
    rw [if_pos (.inl rfl), List.take_of_length_le (by omega)]
    exact and_iff_right rfl
  · by_cases hwhole : n % F.blockSize = 0
    · obtain ⟨f', he, h'⟩ := truncate_whole_run hb hC cache h (by omega) hwhole
      refine ⟨cache, f', _, he, h', hs, ?_⟩
      rw [if_pos (.inr hwhole)]
      have hdiv : n / F.blockSize * F.blockSize = n := Nat.div_mul_cancel (Nat.dvd_of_mod_eq_zero hwhole)
      have := decoded_take hC (v := v) g (n / F.blockSize)
      rw [hdiv] at this
      exact and_iff_right this
    · have hdiv := Nat.div_add_mod' n F.blockSize
      have hlt := Nat.mod_lt n F.blockSize_pos
      obtain ⟨f', he, h'⟩ := truncate_inside_run hb hC cache h (by omega) hwhole rfl
      rw [if_neg (by omega)]
      rw [← slice_decoded hC] at he h'
      generalize hd : resize 0 (F.blockFile.lookup cache (slice (F.decoded v g)
        (n / F.blockSize * F.blockSize) F.blockSize) (n / F.blockSize)) (n % F.blockSize) = d at *
      have hdlen : d.length = n % F.blockSize := by rw [← hd, resize_length]
      refine ⟨_, f', _, he, h', fun _ => ⟨by change d.length ≤ _; omega, _, rfl⟩, ?_⟩
      rw [decoded_cut_iff hC (by omega) hdlen]
      refine and_iff_left_of_imp ?_
      rintro rfl
      exact coherent_cut _ n

def CachedPart (F : CipherFileIO τ) (cache : Cache) (c : Bytes) (k r : ℕ) : Prop :=
  F.blockFile.Hit cache k → resize 0 cache.data r = slice c (k * F.blockSize) r

def NoFalseHole (F : CipherFileIO τ) (v : UInt64) (c : Bytes) (n : ℕ) : Prop :=
  F.allowHoles = true → F.reverseEncryption = false → ∀ d,
    d = slice (resize 0 c n) (c.length / F.blockSize * F.blockSize) F.blockSize →
    d.length = F.blockSize →
    F.encodeBlock v (c.length / F.blockSize) d = List.replicate F.blockSize 0 →
    d = List.replicate F.blockSize 0

def NoLostHole (F : CipherFileIO τ) (m n : ℕ) : Prop :=
  F.allowHoles = true → F.reverseEncryption = true → F.cipher.IsNull ∨
    ∀ k, m ≤ k * F.blockSize → n < (k + 1) * F.blockSize

structure Extendable (F : CipherFileIO τ) (v : UInt64) (cache : Cache) (c : Bytes) (n : ℕ) :
    Prop where
  known : c.length % F.blockSize ≠ 0 → F.blockFile.Hit cache (c.length / F.blockSize) ∨
    F.haveHeader = true ∨ F.cipher.IsNull
  cached : F.CachedPart cache c (c.length / F.blockSize) (c.length % F.blockSize)
  noFalseHole : F.NoFalseHole v c n
  noLostHole : F.NoLostHole c.length n
  kept : F.allowHoles = true → c.length % F.blockSize = 0 → n % F.blockSize = 0 →
    F.blockFile.Coherent (resize 0 c n) cache

/-- The cache has no wrong block that `truncate` uses or keeps, and where it extends a partial block
the block is cached, or the file has a header, so that the block is still read as it was. -/
def TruncateSafe (F : CipherFileIO τ) (v : UInt64) (cache : Cache) (c : Bytes) (n : ℕ) : Prop :=
  if c.length < n then F.Extendable v cache c n
  else if n = c.length ∨ n % F.blockSize = 0 then F.blockFile.Coherent (c.take n) cache
  else F.CachedPart cache c (n / F.blockSize) (n % F.blockSize)

/-- Growing files of which it depends on the values of the cipher what is read back: bytes are
decoded that are not the code of anything. -/
def LeftToChance (F : CipherFileIO τ) (cache : Cache) (c : Bytes) (n : ℕ) : Prop :=
  c.length < n ∧
    (F.haveHeader = false ∧ c.length % F.blockSize ≠ 0 ∧
        ¬F.blockFile.Hit cache (c.length / F.blockSize) ∨
      F.allowHoles = true ∧ (F.reverseEncryption = true ∨
        ¬F.CachedPart cache c (c.length / F.blockSize) (c.length % F.blockSize)))

section Growing

variable {c x : Bytes} {n : ℕ} (hn : c.length < n)
include hn

lemma paddedBlock_iff (hx : x.length ≤ c.length % F.blockSize)
    (hm : c.length % F.blockSize ≠ 0) :
    F.blockFile.paddedBlock x c.length n (c.length / F.blockSize) =
        slice (resize 0 c n) (c.length / F.blockSize * F.blockSize) F.blockSize ↔
      resize 0 x (c.length % F.blockSize) =
        slice c (c.length / F.blockSize * F.blockSize) (c.length % F.blockSize) := by
  have hdiv := Nat.div_add_mod' c.length F.blockSize
  have hlt := Nat.mod_lt c.length F.blockSize_pos
  have hpadded : F.blockFile.paddedBlock x c.length n (c.length / F.blockSize) =
      resize 0 (resize 0 x (c.length % F.blockSize))
        (min F.blockSize (n - c.length / F.blockSize * F.blockSize)) := by
    rw [resize_resize 0 x (.inr hx), paddedBlock]
    exact congrArg (resize 0 · _) (if_pos (show c.length / F.blockSize * F.blockSize < _ by omega))
  have hpart : slice c (c.length / F.blockSize * F.blockSize) F.blockSize =
      slice c (c.length / F.blockSize * F.blockSize) (c.length % F.blockSize) :=
    slice_congr (by omega)
  have hlen : (slice c (c.length / F.blockSize * F.blockSize) (c.length % F.blockSize)).length =
      c.length % F.blockSize := by
    rw [slice_length]
    omega
  rw [hpadded, slice_resize, hpart]
  refine ⟨fun heq => ?_, fun heq => by rw [heq]⟩
  have hcut : resize 0 (resize 0 (resize 0 x (c.length % F.blockSize)) _) (c.length % F.blockSize) =
      resize 0 (resize 0 (slice c _ _) _) (c.length % F.blockSize) :=
    congrArg (resize 0 · (c.length % F.blockSize)) heq
  rw [resize_resize 0 _ (.inl (by omega)), resize_resize 0 _ (.inl (by omega)),
    resize_resize 0 _ (.inl (by omega))] at hcut
  rw [hcut, resize_of_length 0 hlen]

omit hn in
lemma partial_block {k : ℕ} (hk : k * F.blockSize < c.length)
    (hk' : c.length < (k + 1) * F.blockSize) :
    k = c.length / F.blockSize ∧ c.length % F.blockSize ≠ 0 := by
  have hdiv : c.length / F.blockSize = k := Nat.div_eq_of_lt_le (Nat.le_of_lt hk) hk'
  have hm := Nat.div_add_mod' c.length F.blockSize
  rw [hdiv] at hm
  exact ⟨hdiv.symm, by omega⟩

variable (hx : x.length ≤ c.length % F.blockSize)
  (hread : resize 0 x (c.length % F.blockSize) =
    slice c (c.length / F.blockSize * F.blockSize) (c.length % F.blockSize))
include hx hread

lemma lastReadsBack_of_read (hC : F.cipher.Lawful F.blockSize) (hh : F.NoFalseHole v c n) :
    F.LastReadsBack v x c n := by
  intro k hk hk'
  obtain ⟨rfl, hm⟩ := partial_block hk hk'
  rw [(paddedBlock_iff hn hx hm).mpr hread]
  exact decodeBlock_encodeBlock hC v _ fun hholes hr hlen hz => hh hholes hr _ rfl hlen hz

lemma noFalseHole_of_lastReadsBack (hlast : F.LastReadsBack v x c n) : F.NoFalseHole v c n := by
  rintro hh hr d rfl hwhole hz
  have hdiv := Nat.div_add_mod' c.length F.blockSize
  have hlt := Nat.mod_lt c.length F.blockSize_pos
  by_cases hm : c.length % F.blockSize = 0
  · rw [slice_resize_past 0 _ (by omega)] at hwhole ⊢
    rw [List.length_replicate] at hwhole
    rw [hwhole]
  have hback := hlast (c.length / F.blockSize) (by omega) (by rw [Nat.succ_mul]; omega)
  rw [(paddedBlock_iff hn hx hm).mpr hread, hz] at hback
  rw [← hback, decodeBlock, if_neg (not_not.mpr List.length_replicate), blockRead,
    if_neg (by rw [hr]; decide), if_pos ⟨hh, by rw [List.length_replicate]⟩]

lemma cacheGrows_of_read {cache : Cache}
    (hkept : F.allowHoles = true → c.length % F.blockSize = 0 → n % F.blockSize = 0 →
      F.blockFile.Coherent (resize 0 c n) cache) : F.CacheGrows x c cache n := by
  refine fun hh hn0 => ⟨fun hm => hkept hh hm hn0, fun k hk hk' => ?_⟩
  obtain ⟨rfl, hm⟩ := partial_block hk hk'
  exact (paddedBlock_iff hn hx hm).mpr hread

end Growing

lemma holesRead_of_noLostHole {m n : ℕ} (h : F.NoLostHole m n) : F.HolesRead v m n := by
  intro hh k hk hk'
  have hdecode : F.decodeBlock v k (List.replicate F.blockSize 0) =
      F.blockRead (blockIV v k) (List.replicate F.blockSize 0) :=
    if_neg (not_not.mpr List.length_replicate)
  rw [hdecode, blockRead]
  cases hr : F.reverseEncryption with
  | false => rw [if_neg (by decide), if_pos ⟨hh, by rw [List.length_replicate]⟩]
  | true =>
    rcases h hh hr with hnull | hnone
    · rw [if_pos rfl, hnull.blockEncode]
    · exact absurd (hnone k hk) (Nat.not_lt.mpr hk')

section Reading

variable {cache : Cache} {g : Bytes} {n : ℕ}

lemma oldLastBlock_length_le : (F.oldLastBlock v cache g n).length ≤ g.length % F.blockSize :=
  List.length_take_le _ _

lemma oldLastBlock_resize (hC : F.cipher.Lawful F.blockSize) (hn : g.length < n)
    (hknown : g.length % F.blockSize ≠ 0 → F.blockFile.Hit cache (g.length / F.blockSize) ∨
      F.haveHeader = true ∨ F.cipher.IsNull) :
    resize 0 (F.oldLastBlock v cache g n) (g.length % F.blockSize) =
        slice (F.decoded v g) (g.length / F.blockSize * F.blockSize) (g.length % F.blockSize) ↔
      F.CachedPart cache (F.decoded v g) (g.length / F.blockSize) (g.length % F.blockSize) := by
  have hdiv := Nat.div_add_mod' g.length F.blockSize
  have hlt := Nat.mod_lt g.length F.blockSize_pos
  have hc := decoded_length hC v g
  rw [oldLastBlock, resize_take 0 _ (Nat.le_refl _), lookup, CachedPart]
  by_cases hit : F.blockFile.Hit cache (g.length / F.blockSize)
  · rw [if_pos hit]
    exact (imp_iff_right hit).symm
  rw [if_neg hit]
  refine iff_of_true ?_ fun h => absurd h hit
  by_cases hm : g.length % F.blockSize = 0
  · simp [hm, resize]
  have hpart : slice (F.decoded v g) (g.length / F.blockSize * F.blockSize)
      (g.length % F.blockSize) =
        (slice (F.decoded v g) (g.length / F.blockSize * F.blockSize) F.blockSize).take
          (g.length % F.blockSize) := by
    rw [take_slice, Nat.min_eq_left (Nat.le_of_lt hlt)]
  rcases (hknown hm).resolve_left hit with hh | hnull
  · rw [allocate, if_pos hh, ← slice_decoded hC, hpart,
      resize_eq_take 0 (by rw [slice_length]; omega)]
  · have hmin : min F.blockSize (n - g.length / F.blockSize * F.blockSize) ≥
        g.length % F.blockSize := by omega
    rw [slice_decoded hC] at hpart
    rw [hpart, decodeBlock_null hnull, decodeBlock_null hnull, allocate]
    split
    · exact resize_eq_take 0 (by rw [slice_length]; omega)
    · rw [slice_resize, resize_resize 0 _ (.inl hmin), resize_eq_take 0 (by rw [slice_length]; omega)]

end Reading

section Law

variable {cache : Cache} {g : Bytes} {n : ℕ} (hC : F.cipher.Lawful F.blockSize)
include hC

lemma readsBack_of_truncateSafe (h : F.TruncateSafe v cache (F.decoded v g) n) :
    F.ReadsBack v cache g n := by
  have hc := decoded_length hC v g
  rw [TruncateSafe] at h
  rw [hc] at h
  rw [ReadsBack]
  by_cases hgrow : g.length < n
  · rw [if_pos hgrow] at h ⊢
    have hn : (F.decoded v g).length < n := by omega
    obtain ⟨hknown, hcached, hfalse, hlost, hkept⟩ := h
    rw [hc] at hknown hcached hlost
    have hread := (oldLastBlock_resize hC hgrow hknown).mpr hcached
    have hlen : (F.oldLastBlock v cache g n).length ≤ g.length % F.blockSize :=
      oldLastBlock_length_le
    rw [← hc] at hread hlen
    exact ⟨lastReadsBack_of_read hn hlen hread hC hfalse, holesRead_of_noLostHole hlost,
      cacheGrows_of_read hn hlen hread hkept⟩
  rw [if_neg hgrow] at h ⊢
  split at h
  · rename_i hwhole
    rwa [if_pos hwhole]
  · rename_i hpart
    rw [if_neg hpart]
    have hdiv := Nat.div_add_mod' n F.blockSize
    have hlt := Nat.mod_lt n F.blockSize_pos
    rw [lookup]
    split
    · rename_i hit
      exact h hit
    · rw [resize_eq_take 0 (by rw [slice_length, hc]; omega), take_slice,
        Nat.min_eq_left (Nat.le_of_lt hlt)]

lemma extendable_of_readsBack (hgrow : g.length < n) (h : F.ReadsBack v cache g n)
    (hchance : ¬F.LeftToChance cache (F.decoded v g) n) :
    F.Extendable v cache (F.decoded v g) n := by
  have hc := decoded_length hC v g
  have hn : (F.decoded v g).length < n := by omega
  rw [ReadsBack, if_pos hgrow] at h
  obtain ⟨hlast, -, hgrows⟩ := h
  have hdiv := Nat.div_add_mod' g.length F.blockSize
  have hlt := Nat.mod_lt g.length F.blockSize_pos
  have hlen : (F.oldLastBlock v cache g n).length ≤ (F.decoded v g).length % F.blockSize := by
    rw [hc]
    exact oldLastBlock_length_le
  have hknown : g.length % F.blockSize ≠ 0 → F.blockFile.Hit cache (g.length / F.blockSize) ∨
      F.haveHeader = true ∨ F.cipher.IsNull := by
    intro hm
    by_contra hno
    refine hchance ⟨hn, .inl ⟨?_, by rwa [hc], by rw [hc]; exact fun hit => hno (.inl hit)⟩⟩
    exact Bool.eq_false_iff.mpr fun hh => hno (.inr (.inl hh))
  have hpadded (hm : g.length % F.blockSize ≠ 0) := paddedBlock_iff hn hlen (by rwa [hc])
  have hblock (hm : g.length % F.blockSize ≠ 0) :=
    hlast (g.length / F.blockSize) (by omega) (by rw [hc, Nat.succ_mul]; omega)
  rw [hc] at hpadded hblock
  have hold := @oldLastBlock_resize _ F v cache g n hC hgrow hknown
  have hcached : F.CachedPart cache (F.decoded v g) (g.length / F.blockSize)
      (g.length % F.blockSize) := by
    by_cases hh : F.allowHoles = true
    · by_contra hno
      exact hchance ⟨hn, .inr ⟨hh, .inr (by rwa [hc])⟩⟩
    by_cases hm : g.length % F.blockSize = 0
    · rw [hm]
      exact fun _ => by simp [resize]
    have hback := hblock hm
    rw [readBack_noHoles hC (Bool.eq_false_iff.mpr hh)] at hback
    exact hold.mp ((hpadded hm).mp hback)
  have hread := hold.mpr hcached
  rw [← hc] at hread
  exact ⟨by rwa [hc], by rwa [hc], noFalseHole_of_lastReadsBack hn hlen hread hlast,
    fun hh hr => absurd ⟨hn, .inr ⟨hh, .inl hr⟩⟩ hchance, fun hh hm hn0 => (hgrows hh hn0).1 hm⟩

lemma truncateSafe_of_readsBack (h : F.ReadsBack v cache g n)
    (hchance : ¬F.LeftToChance cache (F.decoded v g) n) :
    F.TruncateSafe v cache (F.decoded v g) n := by
  have hc := decoded_length hC v g
  rw [TruncateSafe]
  rw [hc]
  by_cases hgrow : g.length < n
  · rw [if_pos hgrow]
    exact extendable_of_readsBack hC hgrow h hchance
  rw [ReadsBack] at h
  rw [if_neg hgrow] at h ⊢
  split
  · rename_i hwhole
    rwa [if_pos hwhole] at h
  · rename_i hpart
    rw [if_neg hpart, lookup] at h
    intro hit
    rwa [if_pos hit] at h

end Law

/-- `truncate` leaves the cut or extended content in the states that are safe for it, and in others
only where it is left to chance. -/
theorem truncatesTo_of_truncateSafe (hb : F.base.FlatStore R)
    (hC : F.cipher.Lawful F.blockSize) {cache : Cache} {f : CipherFile τ} {g : Bytes}
    (h : F.Holds R ext v f g) (hs : F.Shaped cache) (n : ℕ) :
    (F.TruncateSafe v cache (F.decoded v g) n →
        F.TruncatesTo ⟨cache, f⟩ n (resize 0 (F.decoded v g) n)) ∧
      (F.TruncatesTo ⟨cache, f⟩ n (resize 0 (F.decoded v g) n) →
        F.TruncateSafe v cache (F.decoded v g) n ∨ F.LeftToChance cache (F.decoded v g) n) := by
  obtain ⟨cache', f', g', he, h', hs', hlaw⟩ := truncate_leaves hb hC h hs n
  rw [truncatesTo_iff he, truncated_iff hb.toReadsFlat hC h' hs', hlaw]
  refine ⟨readsBack_of_truncateSafe hC, fun hreads => ?_⟩
  by_cases hchance : F.LeftToChance cache (F.decoded v g) n
  · exact .inr hchance
  · exact .inl (truncateSafe_of_readsBack hC hreads hchance)

def maskFile (haveHeader allowHoles : Bool) : CipherFileIO Bytes where
  base := plainFile
  cipher := maskCipher
  random := onesSource
  blockSize := 4
  blockSize_gt := smallBlock_gt
  allowHoles := allowHoles
  haveHeader := haveHeader
  reverseEncryption := false

lemma maskFile_holds (holes : Bool) (g : Bytes) :
    (maskFile false holes).Holds (fun s c => s = c) 0 0 ⟨g, 0, 0, 0, 0⟩ g :=
  ⟨rfl, g, rfl, .plain rfl rfl rfl rfl⟩

theorem truncatesTo_maskFile :
    (maskFile false true).TruncatesTo
      ⟨.empty, ⟨[241, 242, 243, 244, 11, 8], 0, 0, 0, 0⟩⟩ 3 [1, 2, 3] :=
  (truncatesTo_of_truncateSafe (F := maskFile false true) plainFile_flatStore
    (maskCipher_lawful 4) (maskFile_holds true [241, 242, 243, 244, 11, 8])
    (fun h => absurd rfl h) 3).1 (by
      unfold TruncateSafe
      rw [if_neg (by decide), if_neg (by decide)]
      exact fun hit => absurd rfl hit.2)

theorem not_truncatesTo_grow :
    (maskFile false false).decoded 0 [14, 13] = [1, 2] ∧
      ¬(maskFile false false).TruncatesTo ⟨.empty, ⟨[14, 13], 0, 0, 0, 0⟩⟩ 4 [1, 2, 0, 0] := by
  refine ⟨by decide, ?_⟩
  rintro ⟨o', he, ⟨-, hr⟩, -⟩
  have heval : (maskFile false false).truncate 4 ⟨.empty, ⟨[14, 13], 0, 0, 0, 0⟩⟩ =
      .ok 0 ⟨⟨0, [254, 253, 0, 0]⟩, ⟨[14, 13, 240, 240], 0, 0, 0, 0⟩⟩ := rfl
  obtain ⟨o'', hread⟩ := hr 0 4
  rw [heval] at he
  injection he with _ ho
  subst ho
  injection hread with hres
  exact absurd (Option.some.inj hres) (by decide)

end EncFS.CipherFileIO
