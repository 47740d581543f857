import EncFS.CipherFileIO.TruncateLaw

set_option autoImplicit false

namespace EncFS.CipherFileIO

open FlatArray CipherFile BlockFileIO

variable {τ : Type} {F : CipherFileIO τ} {R : τ → Bytes → Prop} {ext v : UInt64}

/-- An object that has made the file: its blocks decode to `c`. A block past the end may linger in
the cache after the file was cut. -/
structure Maintains (F : CipherFileIO τ) (R : τ → Bytes → Prop) (ext v : UInt64)
    (o : Cached (CipherFile τ)) (c : Bytes) : Prop where
  blocks : F.Decodes v (F.Owned R ext v) o.file c
  settled : F.blockFile.Settled c o.cache

lemma settled_take {c : Bytes} {cache : Cache} {n : ℕ} (h : F.blockFile.Settled c cache)
    (hwhole : n % F.blockSize = 0) : F.blockFile.Settled (c.take n) cache := by
  intro hne
  obtain ⟨k, hk, hd⟩ := h hne
  refine ⟨k, hk, ?_⟩
  by_cases hn : n ≤ k * F.blockSize
  · right
    change (c.take n).length ≤ k * F.blockSize
    rw [List.length_take]
    omega
  · have hdiv : n / F.blockSize * F.blockSize = n :=
      Nat.div_mul_cancel (Nat.dvd_of_mod_eq_zero hwhole)
    have hlt : k < n / F.blockSize := Nat.lt_of_mul_lt_mul_right (a := F.blockSize) (by omega)
    rcases hd with hd | hd
    · left
      rw [← hdiv]
      exact hd.trans (slice_take_block c hlt).symm
    · right
      rw [List.length_take]
      exact Nat.le_trans (Nat.min_le_right _ _) hd

lemma lookup_settled {c : Bytes} {cache : Cache} {k : ℕ} (h : F.blockFile.Settled c cache)
    (hk : k * F.blockSize < c.length) :
    F.blockFile.lookup cache (slice c (k * F.blockSize) F.blockSize) k =
      slice c (k * F.blockSize) F.blockSize :=
  lookup_eq h (.inl hk)

section Steps

variable (hb : F.base.FlatStore R) (hC : F.cipher.Lawful F.blockSize)
  (hheader : F.haveHeader = true) (hholes : F.allowHoles = false)
include hb hC hholes

lemma owned_blockStore : F.blockFile.BlockStore (F.Decodes v (F.Owned R ext v)) :=
  blockStore_decoded hC (codec_implements_owned hb hC) (fun h => by rw [hholes] at h; cases h)
    fun k d _ => readBack_noHoles hC hholes k d

lemma serve_maintains {o : Cached (CipherFile τ)} {c : Bytes} (h : F.Maintains R ext v o c)
    (q : Request) (hq : q.Valid) :
    ∃ a o', F.blockFile.accessors.serve q o = .ok a o' ∧
      F.Maintains R ext v o' (FlatFile.serve c q).2 := by
  have hB : F.blockFile.BlockStore (F.Decodes v (F.Owned R ext v)) :=
    owned_blockStore hb hC hholes
  cases q with
  | read offset n =>
    obtain ⟨r, o', he, hR, hs, -⟩ := read_spec hB.toReads offset n h.blocks h.settled
    exact ⟨_, o', Action.bind_ok he, hR, hs⟩
  | write offset data =>
    obtain ⟨o', he, hR, hc⟩ := write_spec hB offset hq h.blocks h.settled
    exact ⟨_, o', Action.bind_ok he, hR, hc.settled⟩

include hheader

omit hb hC hholes in
lemma Established.decodes {f : CipherFile τ} {g c : Bytes} (h : F.Established R ext v f g)
    (hc : F.decoded v g = c) : F.Decodes v (F.Owned R ext v) f c := by
  obtain ⟨raw, hR, hs⟩ := h.stored
  exact ⟨g, ⟨h.externalIV, raw, hR, hs, .inl (h.fileIV hheader)⟩, hc.symm⟩

omit hb hholes in
lemma oldLastBlock_eq {cache : Cache} {g : Bytes} (hs : F.blockFile.Settled (F.decoded v g) cache)
    (n : ℕ) :
    F.oldLastBlock v cache g n =
      slice (F.decoded v g) (g.length / F.blockSize * F.blockSize) (g.length % F.blockSize) := by
  have hdiv := Nat.div_add_mod' g.length F.blockSize
  have hlt := Nat.mod_lt g.length F.blockSize_pos
  rw [oldLastBlock, allocate, if_pos hheader, ← slice_decoded hC]
  by_cases hm : g.length % F.blockSize = 0
  · simp [hm]
  · rw [lookup_settled hs (by rw [decoded_length hC]; omega), take_slice,
      Nat.min_eq_left (Nat.le_of_lt hlt)]

lemma truncate_maintains {o : Cached (CipherFile τ)} {c : Bytes} (h : F.Maintains R ext v o c)
    (n : ℕ) :
    ∃ o', F.truncate n o = .ok 0 o' ∧ F.Maintains R ext v o' (resize 0 c n) := by
  obtain ⟨cache, f⟩ := o
  obtain ⟨⟨g, howned, rfl⟩, hs⟩ := h
  have hlen := decoded_length hC v g
  have hold := howned.holds
  by_cases hgrow : g.length < n
  · obtain ⟨f', he, h'⟩ := truncate_grow_run hb hC cache hold hgrow rfl
    have hlast : F.LastReadsBack v (F.oldLastBlock v cache g n) (F.decoded v g) n := by
      intro k hk hk'
      rw [hlen] at hk hk'
      have hkm : g.length / F.blockSize = k := Nat.div_eq_of_lt_le (Nat.le_of_lt hk) hk'
      have hdiv := Nat.div_add_mod' g.length F.blockSize
      rw [readBack_noHoles hC hholes, oldLastBlock_eq hC hheader hs, hkm, paddedBlock,
        slice_resize, hlen]
      rw [hkm] at hdiv
      rw [Nat.succ_mul] at hk'
      rw [if_pos (by exact hk)]
      congr 1
      exact slice_congr (by omega)
    have hholes' : F.HolesRead v g.length n := fun h => by rw [hholes] at h; cases h
    have hgrows : F.CacheGrows (F.oldLastBlock v cache g n) (F.decoded v g) cache n :=
      fun h => by rw [hholes] at h; cases h
    have hco := (coherent_grown_iff hC cache (by rwa [hlen]) hlast).mpr hgrows
    rw [hlen] at hco
    exact ⟨_, he, h'.decodes hheader
      ((decoded_grown_iff hC hgrow).mpr ⟨hlast, hholes'⟩), hco.settled⟩
  rw [resize_eq_take 0 (by omega)]
  by_cases hsame : n = g.length
  · subst hsame
    obtain ⟨f', he, h'⟩ := truncate_same_run hb hC cache hold
    rw [List.take_of_length_le (by omega)]
    exact ⟨_, he, h'.decodes hheader rfl, hs⟩
  by_cases hwhole : n % F.blockSize = 0
  · obtain ⟨f', he, h'⟩ := truncate_whole_run hb hC cache hold (by omega) hwhole
    have hdiv : n / F.blockSize * F.blockSize = n :=
      Nat.div_mul_cancel (Nat.dvd_of_mod_eq_zero hwhole)
    have := decoded_take hC (v := v) g (n / F.blockSize)
    rw [hdiv] at this
    exact ⟨_, he, h'.decodes hheader this, settled_take hs hwhole⟩
  · have hdiv := Nat.div_add_mod' n F.blockSize
    have hlt := Nat.mod_lt n F.blockSize_pos
    obtain ⟨f', he, h'⟩ := truncate_inside_run hb hC cache hold (by omega) hwhole rfl
    rw [← slice_decoded hC] at he h'
    have hd : resize 0 (F.blockFile.lookup cache (slice (F.decoded v g)
        (n / F.blockSize * F.blockSize) F.blockSize) (n / F.blockSize)) (n % F.blockSize) =
        slice (F.decoded v g) (n / F.blockSize * F.blockSize) (n % F.blockSize) := by
      rw [lookup_settled hs (by omega), resize_eq_take 0 (by rw [slice_length]; omega), take_slice,
        Nat.min_eq_left (Nat.le_of_lt hlt)]
    rw [hd] at he h'
    exact ⟨_, he, h'.decodes hheader ((decoded_cut_iff hC (by omega)
      (by rw [slice_length]; omega)).mpr rfl), (coherent_cut _ n).settled⟩

lemma perform_maintains {o : Cached (CipherFile τ)} {c : Bytes} (h : F.Maintains R ext v o c)
    (op : Operation) (hop : op.Valid) :
    ∃ o', F.perform op o = .ok ⟨⟩ o' ∧ F.Maintains R ext v o' (FlatFile.apply c op) := by
  cases op with
  | request q =>
    obtain ⟨a, o', he, h'⟩ := serve_maintains hb hC hholes h q hop
    exact ⟨o', Action.bind_ok he, h'⟩
  | truncate n =>
    obtain ⟨o', he, h'⟩ := truncate_maintains hb hC hheader hholes h n
    exact ⟨o', Action.bind_ok he, h'⟩

lemma performAll_maintains {o : Cached (CipherFile τ)} {c : Bytes}
    (h : F.Maintains R ext v o c) (ops : List Operation) (hops : ∀ op ∈ ops, op.Valid) :
    ∃ o', F.performAll ops o = .ok ⟨⟩ o' ∧
      F.Maintains R ext v o' (FlatFile.applyAll c ops) := by
  induction ops generalizing o c with
  | nil => exact ⟨o, rfl, h⟩
  | cons op ops ih =>
    obtain ⟨o₁, h₁, hm₁⟩ :=
      perform_maintains hb hC hheader hholes h op (hops op List.mem_cons_self)
    obtain ⟨o₂, h₂, hm₂⟩ := ih hm₁ fun op' hop' => hops op' (List.mem_cons_of_mem op hop')
    exact ⟨o₂, (Action.bind_ok h₁).trans h₂, hm₂⟩

omit hb hheader in
lemma encoded_decoded (g : Bytes) : F.encoded v (F.decoded v g) = g :=
  mapBlocks_mapBlocks (lengthPreserving_decodeBlock hC v) F.blockSize_pos
    (lengthPreserving_encodeBlock hC v) g fun k => encodeBlock_decodeBlock hC hholes v k _

/-- After any run on a file that starts empty the raw file is still empty, or it is a header for the
file IV in memory and the encoded content; a fresh object reads the content from it. -/
theorem performAll_rawFormat (hrand : ∀ i, F.random.randomize i HEADER_SIZE ≠ none) {s : τ}
    (hs : R s []) (flags draws : ℕ) (ops : List Operation) (hops : ∀ op ∈ ops, op.Valid) :
    ∃ o' raw, F.performAll ops ⟨.empty, ⟨s, ext, 0, flags, draws⟩⟩ = .ok ⟨⟩ o' ∧
      R o'.file.base raw ∧
      ((raw = [] ∧ o'.file.fileIV = 0 ∧ FlatFile.applyAll [] ops = []) ∨
        (o'.file.fileIV ≠ 0 ∧ F.Headed ext o'.file.fileIV raw
          (F.encoded o'.file.fileIV (FlatFile.applyAll [] ops)))) ∧
      ∀ s' flags draws, R s' raw →
        F.ReadsAs ⟨.empty, ⟨s', ext, 0, flags, draws⟩⟩ (FlatFile.applyAll [] ops) := by
  obtain ⟨buf, hbuf⟩ := Option.ne_none_iff_exists'.mp (hrand (F.random.firstUsable draws))
  have hinit : F.Maintains R ext (ivOfBytes buf) ⟨.empty, ⟨s, ext, 0, flags, draws⟩⟩ [] :=
    ⟨⟨[], ⟨rfl, [], hs, .fresh hheader rfl hbuf rfl rfl rfl, .inr rfl⟩,
      (decoded_nil hC _).symm⟩, coherent_nil.settled⟩
  obtain ⟨o', he, ⟨⟨g, ⟨hx, raw, hR, hstored, hown⟩, hc⟩, -⟩⟩ :=
    performAll_maintains hb hC hheader hholes hinit ops hops
  refine ⟨o', raw, he, hR, ?_⟩
  rw [hc]
  cases hstored with
  | plain hh => exact noHeader hheader hh
  | fresh _ hf _ _ hr hg =>
    subst hr hg
    refine ⟨.inl ⟨rfl, hf, decoded_nil hC _⟩, fun s' flags' draws' hR' => ?_⟩
    obtain ⟨buf', hbuf'⟩ := Option.ne_none_iff_exists'.mp (hrand (F.random.firstUsable draws'))
    have hholds : F.Holds R ext (ivOfBytes buf') ⟨s', ext, 0, flags', draws'⟩ [] :=
      ⟨rfl, [], hR', .fresh hheader rfl hbuf' rfl rfl rfl⟩
    exact readsAs_of_coherent hb.toReadsFlat hC hholds
      ((decoded_nil hC _).trans (decoded_nil hC _).symm) coherent_nil
  | headed _ hne _ hd =>
    obtain ⟨header, hlen, hiv, rfl⟩ := hd
    have hf : o'.file.fileIV = ivOfBytes buf := by
      refine hown.resolve_right fun hnil => ?_
      have := congrArg List.length hnil
      rw [List.length_append, hlen, List.length_nil] at this
      exact absurd this (by unfold HEADER_SIZE; omega)
    rw [hx] at hiv
    refine ⟨.inr ⟨by rwa [hf], header, hlen, by rwa [hf], ?_⟩, fun s' flags' draws' hR' => ?_⟩
    · rw [hf, encoded_decoded hC hholes]
    · have hholds : F.Holds R ext (ivOfBytes buf) ⟨s', ext, 0, flags', draws'⟩ g :=
        ⟨rfl, _, hR', .headed hheader hne (.inl rfl) ⟨header, hlen, hiv, rfl⟩⟩
      exact readsAs_of_coherent hb.toReadsFlat hC hholds rfl coherent_nil

end Steps

theorem performAll_rawFormat_maskFile :
    ∃ o' raw, (maskFile true false).performAll
        [.request (.write 0 [1, 2, 3, 4, 5]), .truncate 2, .request (.read 0 9),
          .request (.write 6 [7]), .truncate 11] ⟨.empty, ⟨[], 3, 0, 0, 0⟩⟩ = .ok ⟨⟩ o' ∧
      o'.file.base = raw ∧
      ((raw = [] ∧ o'.file.fileIV = 0 ∧ ([1, 2, 0, 0, 0, 0, 7, 0, 0, 0, 0] : Bytes) = []) ∨
        (o'.file.fileIV ≠ 0 ∧ (maskFile true false).Headed 3 o'.file.fileIV raw
          ((maskFile true false).encoded o'.file.fileIV [1, 2, 0, 0, 0, 0, 7, 0, 0, 0, 0]))) ∧
      ∀ s' flags draws, s' = raw → (maskFile true false).ReadsAs
        ⟨.empty, ⟨s', 3, 0, flags, draws⟩⟩ [1, 2, 0, 0, 0, 0, 7, 0, 0, 0, 0] :=
  performAll_rawFormat (F := maskFile true false) plainFile_flatStore (maskCipher_lawful 4) rfl rfl
    (fun _ h => by cases h) rfl 0 0 [.request (.write 0 [1, 2, 3, 4, 5]), .truncate 2,
      .request (.read 0 9), .request (.write 6 [7]), .truncate 11] (by
        simp [Operation.Valid, Request.Valid])

end EncFS.CipherFileIO
