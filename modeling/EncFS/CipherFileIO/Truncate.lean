import EncFS.BlockFileIO.Truncate
import EncFS.CipherFileIO.Format

set_option autoImplicit false

namespace EncFS.CipherFileIO

open FlatArray CipherFile BlockFileIO

variable {τ : Type} (F : CipherFileIO τ)

def allocate (n : ℕ) (g : Bytes) : Bytes :=
  if F.haveHeader then g else resize 0 g n

def oldLastBlock (v : UInt64) (cache : Cache) (g : Bytes) (n : ℕ) : Bytes :=
  (F.blockFile.lookup cache
    (F.decodeBlock v (g.length / F.blockSize)
      (slice (F.allocate n g) (g.length / F.blockSize * F.blockSize) F.blockSize))
    (g.length / F.blockSize)).take (g.length % F.blockSize)

def padOut (v : UInt64) (x : Bytes) (m n : ℕ) (g : Bytes) : Bytes :=
  putBlocks 0 F.blockSize (fun k => F.encodeBlock v k (F.blockFile.paddedBlock x m n k)) g
    (F.blockFile.paddedBlocks m n)

def grown (v : UInt64) (x g : Bytes) (n : ℕ) : Bytes :=
  F.padOut v x g.length n (resize 0 g n)

variable {F} {R : τ → Bytes → Prop} {ext v : UInt64}

lemma resize_allocate (g : Bytes) (n : ℕ) : resize 0 (F.allocate n g) n = resize 0 g n := by
  unfold allocate
  split
  · rfl
  · exact resize_resize 0 g (.inl (Nat.le_refl n))

lemma resize_cut (hC : F.cipher.Lawful F.blockSize) {g d : Bytes} {n : ℕ} (hn : n < g.length)
    (hd : d.length = n % F.blockSize) :
    resize 0 (splice 0 (F.allocate n g) (n / F.blockSize * F.blockSize)
        (F.encodeBlock v (n / F.blockSize) d)) n =
      splice 0 (g.take (n / F.blockSize * F.blockSize)) (n / F.blockSize * F.blockSize)
        (F.encodeBlock v (n / F.blockSize) d) := by
  have henc := encodeBlock_length hC v (n / F.blockSize) d
  have hdiv := Nat.div_add_mod' n F.blockSize
  rw [resize_splice 0 _ _ (by omega), resize_allocate, resize_eq_take 0 (Nat.le_of_lt hn)]
  apply List.ext_getElem?
  intro i
  simp only [splice_getElem?, List.getElem?_take, List.getD_eq_getElem?_getD]
  grind

lemma codec_puts (g : Bytes) (ks : List ℕ) (e : ℕ → Bytes) :
    (F.codecModel v).puts g (ks.map fun k => (k, e k)) =
      putBlocks 0 F.blockSize (fun k => F.encodeBlock v k (e k)) g ks := by
  rw [BlockModel.puts, List.foldl_map]
  rfl

lemma codec_placedAll (g : Bytes) (ws : List (ℕ × Bytes))
    (h : ∀ w ∈ ws, w.2 ≠ [] ∧ w.2.length ≤ F.blockSize) : (F.codecModel v).PlacedAll g ws := by
  induction ws generalizing g with
  | nil => trivial
  | cons w ws ih =>
    exact ⟨h w List.mem_cons_self, ih _ fun u hu => h u (List.mem_cons_of_mem w hu)⟩

structure Established (F : CipherFileIO τ) (R : τ → Bytes → Prop) (ext v : UInt64)
    (f : CipherFile τ) (g : Bytes) : Prop extends F.Holds R ext v f g where
  fileIV : F.haveHeader = true → f.fileIV = v

lemma Established.reopen {f : CipherFile τ} {g : Bytes} (h : F.Established R ext v f g)
    (flags draws : ℕ) :
    F.Holds R ext v { f with fileIV := 0, lastFlags := flags, draws := draws } g := by
  obtain ⟨raw, hR, hs⟩ := h.stored
  refine ⟨h.externalIV, raw, hR, ?_⟩
  cases hs with
  | plain hh _ hz hr => exact .plain hh rfl hz hr
  | fresh hh hf hd hbuf _ _ =>
    have := F.random.usable_firstUsable f.draws
    rw [hd] at this
    simp [usableIV, hbuf, ← h.fileIV hh, hf] at this
  | headed hh hne _ hd => exact .headed hh hne (.inl rfl) hd

section Runs

variable (hb : F.base.FlatStore R) (hC : F.cipher.Lawful F.blockSize)
include hb

lemma codec_implements_established (hC : F.cipher.Lawful F.blockSize) :
    F.blockFile.Implements (F.codecModel v) (F.Established R ext v) := by
  cases hh : F.haveHeader with
  | false =>
    have heq : F.Established R ext v = F.Holds R ext v := by
      funext f g
      exact propext ⟨fun h => h.toHolds, fun h => ⟨h, fun h' => noHeader h' hh⟩⟩
    rw [heq]
    exact codec_implements hb hC
  | true =>
    have heq : F.Established R ext v = fun f g => F.Holds R ext v f g ∧ f.fileIV = v := by
      funext f g
      exact propext ⟨fun h => ⟨h.toHolds, h.fileIV hh⟩, fun h => ⟨h.1, fun _ => h.2⟩⟩
    rw [heq]
    exact codec_implements_keyed hb hC

lemma truncateBase_plain (hh : F.haveHeader = false) (n : ℕ) {f : CipherFile τ} {g : Bytes}
    (h : F.Holds R ext v f g) :
    ∃ f', lift (F.base.truncate n) f = .ok 0 f' ∧ F.Holds R ext v f' (resize 0 g n) := by
  obtain ⟨hx, raw, hR, hs⟩ := h
  obtain ⟨s', he, hR'⟩ := hb.truncate n hR
  refine ⟨{ f with base := s' }, lift_ok he, hx, _, hR', ?_⟩
  cases hs with
  | plain _ hf hz hr => exact .plain hh hf hz (by rw [hr])
  | fresh h' => exact noHeader h' hh
  | headed h' => exact noHeader h' hh

lemma truncateBase_headed (hh : F.haveHeader = true) (n : ℕ) {f : CipherFile τ} {g : Bytes}
    (h : F.Holds R ext v f g) (hv : f.fileIV = v) :
    ∃ f', lift (F.base.truncate (n + HEADER_SIZE)) f = .ok 0 f' ∧
      F.Established R ext v f' (resize 0 g n) := by
  obtain ⟨hx, raw, hR, hs⟩ := h
  obtain ⟨s', he, hR'⟩ := hb.truncate (n + HEADER_SIZE) hR
  refine ⟨{ f with base := s' }, lift_ok he, ⟨hx, _, hR', ?_⟩, fun _ => hv⟩
  cases hs with
  | plain h' => exact noHeader hh h'
  | fresh _ hf hd hbuf _ _ =>
    have := F.random.usable_firstUsable f.draws
    rw [hd] at this
    simp [usableIV, hbuf, ← hv, hf] at this
  | headed _ hne hf hd =>
    obtain ⟨header, hlen, hiv, rfl⟩ := hd
    refine .headed hh hne hf ⟨header, hlen, hiv, ?_⟩
    apply List.ext_getElem?
    intro i
    simp only [resize_getElem?, List.getElem?_append, List.getD_eq_getElem?_getD]
    grind

include hC

lemma openForHeader_run (hh : F.haveHeader = true) {f : CipherFile τ} {g : Bytes}
    (h : F.Holds R ext v f g) :
    ∃ f', F.openForHeader f = .ok ⟨⟩ f' ∧ F.Holds R ext v f' g ∧ f'.fileIV = v := by
  obtain ⟨hx, raw, hR, hs⟩ := h
  rw [openForHeader, Action.get_bind]
  by_cases h0 : f.fileIV = 0
  · obtain ⟨s₁, h₁, hR₁⟩ := hb.isWritable hR
    obtain ⟨f', raw', he, hR', hready, hx'⟩ :=
      initHeader_run hb hC (f := { f with base := s₁ }) hh hR₁ (hs.setBase s₁)
    refine ⟨f', ?_, ⟨hx'.trans hx, raw', hR', hready.stored⟩, hready.fileIV⟩
    rw [if_pos h0, Action.bind_ok (lift_ok h₁)]
    exact he
  · refine ⟨f, if_neg h0 ▸ rfl, ⟨hx, raw, hR, hs⟩, ?_⟩
    cases hs with
    | plain h' => exact noHeader hh h'
    | fresh _ hf => exact (h0 hf).elim
    | headed _ _ hf _ => exact hf.resolve_left h0

lemma truncate_run {cache cache' : Cache} {f : CipherFile τ} {g g' : Bytes} {n : ℕ}
    (h : F.Holds R ext v f g) (hlen : F.haveHeader = false → g'.length = n)
    (hblock : ∀ {base Q}, F.blockFile.Implements (F.codecModel v) Q →
      Cuts base Q n (F.allocate n) → ∀ {s}, Q s g →
      ∃ s', F.blockFile.truncateSized g.length n base ⟨cache, s⟩ = .ok 0 ⟨cache', s'⟩ ∧ Q s' g') :
    ∃ f', F.truncate n ⟨cache, f⟩ = .ok 0 ⟨cache', f'⟩ ∧
      F.Established R ext v f' (resize 0 g' n) := by
  have hsized {base : Option (ℕ → Action (CipherFile τ) ℤ)} {Q : CipherFile τ → Bytes → Prop}
      (hQ : F.blockFile.Implements (F.codecModel v) Q) (hcuts : Cuts base Q n (F.allocate n))
      {s : CipherFile τ} (hs : Q s g) :
      ∃ s', F.blockFile.truncate n base ⟨cache, s⟩ = .ok 0 ⟨cache', s'⟩ ∧ Q s' g' := by
    obtain ⟨s₁, h₁, hs₁⟩ := hQ.getSize hs
    obtain ⟨s₂, h₂, hs₂⟩ := hblock hQ hcuts hs₁
    exact ⟨s₂, (truncate_of_size h₁ cache n base).trans h₂, hs₂⟩
  unfold truncate
  cases hh : F.haveHeader with
  | false =>
    have hcuts : Cuts (some fun size => lift (F.base.truncate size)) (F.Holds R ext v) n
        (F.allocate n) := by
      refine cuts_some fun {s g} hs => ?_
      rw [allocate, if_neg (by simp [hh])]
      exact truncateBase_plain hb hh n hs
    obtain ⟨f', he, h'⟩ := hsized (codec_implements hb hC) hcuts h
    refine ⟨f', by rw [if_neg (by simp)]; exact he, ?_, fun h' => noHeader h' hh⟩
    rwa [← hlen hh, resize_self]
  | true =>
    obtain ⟨f₁, h₁, hh₁⟩ := openForHeader_run hb hC hh h
    have hcuts : Cuts none (fun f g => F.Holds R ext v f g ∧ f.fileIV = v) n (F.allocate n) := by
      have hid : F.allocate n = id := by
        funext g
        rw [allocate, if_pos hh]
        rfl
      rw [hid]
      exact cuts_none _ n
    obtain ⟨f₂, h₂, hh₂⟩ := hsized (codec_implements_keyed hb hC) hcuts hh₁
    obtain ⟨f₃, h₃, hh₃⟩ := truncateBase_headed hb hh n hh₂.1 hh₂.2
    refine ⟨f₃, ?_, hh₃⟩
    rw [if_pos rfl, Action.bind_ok (Cached.lift_ok h₁), Action.bind_ok h₂, if_pos rfl,
      Action.bind_ok (Cached.lift_ok h₃)]
    rfl

omit hb in
lemma padded_fits (x : Bytes) {m n k : ℕ} (hn : m < n) (hk : k ∈ F.blockFile.paddedBlocks m n) :
    k * F.blockSize < n ∧ (F.encodeBlock v k (F.blockFile.paddedBlock x m n k)).length =
      min F.blockSize (n - k * F.blockSize) := by
  refine ⟨((mem_paddedBlocks hn k).mp hk).2.1, ?_⟩
  rw [encodeBlock_length hC, paddedBlock_length]
  rfl

omit hb in
lemma truncateSized_grow {base : Option (ℕ → Action (CipherFile τ) ℤ)}
    {Q : CipherFile τ → Bytes → Prop} {cut : Bytes → Bytes} {m n : ℕ}
    (hQ : F.blockFile.Implements (F.codecModel v) Q) (hcuts : Cuts base Q n cut) (cache : Cache)
    {s : CipherFile τ} {g x : Bytes} (hs : Q s g) (hn : m < n)
    (hx : x = (F.blockFile.lookup cache (F.decodeBlock v (m / F.blockSize)
      (slice (cut g) (m / F.blockSize * F.blockSize) F.blockSize)) (m / F.blockSize)).take
        (m % F.blockSize)) :
    ∃ s', F.blockFile.truncateSized m n base ⟨cache, s⟩ = .ok 0 ⟨F.blockFile.afterWrites cache
        ((F.blockFile.paddedBlocks m n).map fun k => (k, F.blockFile.paddedBlock x m n k)), s'⟩ ∧
      Q s' (F.padOut v x m n (cut g)) := by
  have hlenx : x.length ≤ m % F.blockFile.blockSize := hx ▸ List.length_take_le _ _
  have hw := padWrites_eq (B := F.blockFile) hn hlenx
  have hplaced : (F.codecModel v).PlacedAll (cut g) (F.blockFile.padWrites x m n true) := by
    rw [hw]
    refine codec_placedAll _ _ fun w hw => ?_
    obtain ⟨k, hk, rfl⟩ := List.mem_map.mp hw
    have hpos := F.blockSize_pos
    have hlen : (F.blockFile.paddedBlock x m n k).length = min F.blockSize (n - k * F.blockSize) :=
      paddedBlock_length x m n k
    have hin := (padded_fits (v := v) hC x hn hk).1
    refine ⟨List.ne_nil_of_length_pos (Nat.lt_of_lt_of_eq ?_ hlen.symm),
      Nat.le_trans (Nat.le_of_eq hlen) ?_⟩ <;> omega
  obtain ⟨s', he, hs'⟩ := BlockFileIO.truncateSized_grow hQ hcuts cache hs hn hx hplaced
  rw [hw] at he hs'
  rw [codec_puts] at hs'
  exact ⟨s', he, hs'⟩

omit hb in
lemma resize_padOut (x : Bytes) {m n : ℕ} (hn : m < n) (g : Bytes) :
    resize 0 (F.padOut v x m n g) n = F.padOut v x m n (resize 0 g n) := by
  refine resize_putBlocks 0 g _ fun k hk => ?_
  obtain ⟨hlt, hlen⟩ := padded_fits (v := v) hC x hn hk
  rw [hlen]
  omega

lemma truncate_grow_run (cache : Cache) {f : CipherFile τ} {g : Bytes} {n : ℕ}
    (h : F.Holds R ext v f g) (hn : g.length < n) {x : Bytes}
    (hx : x = F.oldLastBlock v cache g n) :
    ∃ f', F.truncate n ⟨cache, f⟩ = .ok 0 ⟨F.blockFile.afterWrites cache
        ((F.blockFile.paddedBlocks g.length n).map fun k =>
          (k, F.blockFile.paddedBlock x g.length n k)), f'⟩ ∧
      F.Established R ext v f' (F.grown v x g n) := by
  have hgrown : F.grown v x g n = resize 0 (F.padOut v x g.length n (F.allocate n g)) n := by
    rw [resize_padOut hC x hn, resize_allocate]
    rfl
  rw [hgrown]
  refine truncate_run hb hC h ?_ fun {base Q} hQ hcuts {s} hs =>
    truncateSized_grow hC hQ hcuts cache hs hn hx
  intro hh
  refine (slice_putBlocks 0 _ _ ?_ fun k hk => padded_fits hC x hn hk).1
  rw [allocate, if_neg (by simp [hh]), resize_length]

lemma truncate_inside_run (cache : Cache) {f : CipherFile τ} {g d : Bytes} {n : ℕ}
    (h : F.Holds R ext v f g) (hn : n < g.length) (hpart : n % F.blockSize ≠ 0)
    (hd : d = resize 0 (F.blockFile.lookup cache (F.decodeBlock v (n / F.blockSize)
      (slice g (n / F.blockSize * F.blockSize) F.blockSize)) (n / F.blockSize)) (n % F.blockSize)) :
    ∃ f', F.truncate n ⟨cache, f⟩ = .ok 0 ⟨⟨n / F.blockSize * F.blockSize, d⟩, f'⟩ ∧
      F.Established R ext v f' (splice 0 (g.take (n / F.blockSize * F.blockSize))
        (n / F.blockSize * F.blockSize) (F.encodeBlock v (n / F.blockSize) d)) := by
  have hlen : d.length = n % F.blockSize := by rw [hd, resize_length]
  have hlt := Nat.mod_lt n F.blockSize_pos
  rw [← resize_cut hC hn hlen]
  refine truncate_run hb hC h ?_ fun {base Q} hQ hcuts {s} hs => ?_
  · intro hh
    have hdiv := Nat.div_add_mod' n F.blockSize
    rw [splice_length, allocate, if_neg (by simp [hh]), resize_length, encodeBlock_length hC]
    omega
  · exact truncateSized_inside hQ hcuts hs hn hpart hd
      ⟨List.ne_nil_of_length_pos (by omega), by omega⟩

lemma truncate_whole_run (cache : Cache) {f : CipherFile τ} {g : Bytes} {n : ℕ}
    (h : F.Holds R ext v f g) (hn : n < g.length) (hwhole : n % F.blockSize = 0) :
    ∃ f', F.truncate n ⟨cache, f⟩ = .ok 0 ⟨cache, f'⟩ ∧ F.Established R ext v f' (g.take n) := by
  rw [← resize_eq_take 0 (Nat.le_of_lt hn), ← resize_allocate (F := F)]
  refine truncate_run hb hC h ?_ fun {base Q} hQ hcuts {s} hs => ?_
  · intro hh
    rw [allocate, if_neg (by simp [hh]), resize_length]
  · exact truncateSized_whole hcuts _ hs hn hwhole

lemma truncate_same_run (cache : Cache) {f : CipherFile τ} {g : Bytes}
    (h : F.Holds R ext v f g) :
    ∃ f', F.truncate g.length ⟨cache, f⟩ = .ok 0 ⟨cache, f'⟩ ∧ F.Established R ext v f' g := by
  have hrun : ∃ f', F.truncate g.length ⟨cache, f⟩ = .ok 0 ⟨cache, f'⟩ ∧
      F.Established R ext v f' (resize 0 g g.length) :=
    truncate_run hb hC h (fun _ => rfl) fun {_ _} hQ _ {s} hs =>
      ⟨s, truncateSized_same F.blockFile _ _ _, hs⟩
  rwa [resize_self] at hrun

end Runs

end EncFS.CipherFileIO
