import EncFS.BlockFileIO.FailingBase
import EncFS.CipherFileIO.TruncateLaw

set_option autoImplicit false

namespace EncFS

open FlatArray CipherFile

def CipherFile.forget {τ : Type} (f : CipherFile (Failing τ)) : CipherFile τ :=
  ⟨f.base.file, f.externalIV, f.fileIV, f.lastFlags, f.draws⟩

namespace CipherFileIO

open BlockFileIO

variable {τ : Type} (F : CipherFileIO τ)

def onBase {τ' : Type} (base : FileIO τ') : CipherFileIO τ' where
  base := base
  cipher := F.cipher
  random := F.random
  blockSize := F.blockSize
  blockSize_gt := F.blockSize_gt
  allowHoles := F.allowHoles
  haveHeader := F.haveHeader
  reverseEncryption := F.reverseEncryption

abbrev failing : CipherFileIO (Failing τ) :=
  F.onBase F.base.failing

def failingAt (kind : BaseCall) (left stored : ℕ) (o : Cached (CipherFile τ)) :
    Cached (CipherFile (Failing τ)) :=
  ⟨o.cache, ⟨⟨o.file.base, kind, left, stored, false⟩, o.file.externalIV, o.file.fileIV,
    o.file.lastFlags, o.file.draws⟩⟩

variable {F} {R : τ → Bytes → Prop} {ext v : UInt64} {kind : BaseCall} {left stored : ℕ}
  {cache : Cache} {f : CipherFile τ} {g : Bytes}

lemma Established.spent {f' : CipherFile (Failing τ)}
    (h : F.failing.Established (Failing.Awaiting kind R) ext v f' g) :
    F.failing.Established (Failing.Spent R) ext v
      { f' with base := { f'.base with failed := true } } g := by
  obtain ⟨⟨hx, raw, hR, hs⟩, hf⟩ := h
  exact ⟨⟨hx, raw, ⟨rfl, hR.2⟩, hs.setBase _⟩, hf⟩

lemma holds_failingAt (kind : BaseCall) (left stored : ℕ) (cache : Cache)
    (h : F.Holds R ext v f g) :
    F.failing.Holds (Failing.Awaiting kind R) ext v (failingAt kind left stored ⟨cache, f⟩).file g := by
  obtain ⟨hx, raw, hR, hs⟩ := h
  refine ⟨hx, raw, ⟨⟨rfl, rfl⟩, hR⟩, ?_⟩
  cases hs with
  | plain hh hf hz hr => exact .plain hh hf hz hr
  | fresh hh hf hd hv hr hg => exact .fresh hh hf hd hv hr hg
  | headed hh hne hf hd => exact .headed hh hne hf hd

lemma established_forget {f' : CipherFile (Failing τ)}
    (h : F.failing.Established (Failing.Spent R) ext v f' g) :
    F.Established R ext v f'.forget g := by
  obtain ⟨⟨hx, raw, hR, hs⟩, hf⟩ := h
  refine ⟨⟨hx, raw, hR.2, ?_⟩, hf⟩
  cases hs with
  | plain hh hf hz hr => exact .plain hh hf hz hr
  | fresh hh hf hd hv hr hg => exact .fresh hh hf hd hv hr hg
  | headed hh hne hf hd => exact .headed hh hne hf hd

lemma Stored.onBase {τ' : Type} {b b' : FileIO τ'} {f' : CipherFile τ'} {raw : Bytes}
    (h : (F.onBase b).Stored v f' raw g) : (F.onBase b').Stored v f' raw g := by
  cases h with
  | plain hh hf hz hr => exact .plain hh hf hz hr
  | fresh hh hf hd hv hr hg => exact .fresh hh hf hd hv hr hg
  | headed hh hne hf hd => exact .headed hh hne hf hd

section Reads

def Unread (F : CipherFileIO τ) (f : CipherFile (Failing τ)) : Prop :=
  Failing.Awaits .read f.base ∧ (F.haveHeader = true → f.fileIV ≠ 0)

lemma Unread.header_known {f : CipherFile (Failing τ)} (h : F.Unread f) :
    F.failing.needHeader f = .ok ⟨⟩ f := by
  have hno : ¬(F.failing.haveHeader = true ∧ f.fileIV = 0) := fun hno => h.2 hno.1 hno.2
  rw [needHeader, Action.get_bind, if_neg hno]
  rfl

lemma Unread.readOneBlock {f : CipherFile (Failing τ)} (h : F.Unread f) (offset n : ℕ) :
    F.failing.readOneBlock offset n f =
        .ok none { f with base := { f.base with failed := true } } ∨
      Yields (F.failing.readOneBlock offset n) f (fun _ => F.Unread) fun _ => F.Unread := by
  rcases Failing.read_splits F.base h.1 (offset + F.failing.headerSize) n with hfails | hpasses
  · exact .inl (Action.bind_ok (lift_ok hfails))
  · refine .inr (.bind (lift_yields (hpasses.mono ?_ fun _ _ hw => ⟨hw, h.2⟩)))
    intro r w hw
    have hf : F.Unread { f with base := w } := ⟨hw, h.2⟩
    cases r with
    | none => exact .pure hf
    | some buf =>
      dsimp only
      split
      · exact .pure hf
      · exact .bind (.of_ok hf.header_known (.get (.pure hf)))

lemma writeOneBlock_preserves (offset : ℕ) (data : Bytes) :
    Preserves F.Unread (F.failing.writeOneBlock offset data) := by
  intro f h
  refine .bind (.of_ok h.header_known (.get ?_))
  by_cases hcheck : F.failing.cipher.checksSize ∧ data = []
  · rw [if_pos hcheck]
    exact .of_error rfl h
  · rw [if_neg hcheck]
    exact lift_yields ((Failing.preserves_write F.base _ _ f.base h.1).mono
      (fun _ _ hw => ⟨hw, h.2⟩) fun _ _ hw => ⟨hw, h.2⟩)

lemma truncateBase_preserves (n : ℕ) :
    Preserves F.Unread (lift (F.failing.base.truncate n)) :=
  fun f h => lift_yields ((Failing.preserves_truncate F.base n f.base h.1).mono
    (fun _ _ hw => ⟨hw, h.2⟩) fun _ _ hw => ⟨hw, h.2⟩)

lemma readHeader_passes {f : CipherFile (Failing τ)} {left : ℕ}
    (h : Failing.Awaits .read f.base) (hleft : f.base.left = left + 1) :
    F.failing.readHeader f = (F.onBase F.base.sparingReads).readHeader
      { f with base := { f.base with left := left } } := by
  have hread : lift (F.failing.base.read 0 HEADER_SIZE) f =
      lift (F.base.sparingReads.read 0 HEADER_SIZE)
        { f with base := { f.base with left := left } } := by
    simp only [lift]
    rw [show F.failing.base.read 0 HEADER_SIZE f.base = _ from
      Failing.read_passes F.base h hleft 0 HEADER_SIZE]
    rfl
  simp only [readHeader, bind, EStateM.bind, hread]
  rfl

section Runs

variable (hb : F.base.FlatStore R) (hC : F.cipher.Lawful F.blockSize)
include hb hC

lemma openForHeader_unread (hh : F.haveHeader = true) {f : CipherFile (Failing τ)}
    (h : F.failing.Holds (Failing.Awaiting .read R) ext v f g)
    (hleft : f.fileIV = 0 → f.base.left ≠ 0) :
    ∃ f', F.failing.openForHeader f = .ok ⟨⟩ f' ∧
      F.failing.Holds (Failing.Awaiting .read R) ext v f' g ∧ f'.fileIV = v ∧ v ≠ 0 := by
  obtain ⟨hx, raw, ⟨haw, hR⟩, hs⟩ := h
  rw [openForHeader, Action.get_bind]
  by_cases h0 : f.fileIV = 0
  · obtain ⟨s₁, h₁, hR₁⟩ := hb.isWritable hR
    obtain ⟨s₂, h₂, hR₂⟩ := hb.getSize hR₁
    have hwritable : lift F.failing.base.isWritable f =
        .ok true { f with base := { f.base with file := s₁ } } := lift_ok (Failing.lift_ok h₁)
    have hsize : lift F.failing.base.getSize { f with base := { f.base with file := s₁ } } =
        .ok raw.length { f with base := { f.base with file := s₂ } } :=
      lift_ok (Failing.lift_ok h₂)
    rw [if_pos h0, Action.bind_ok hwritable]
    simp only [initHeader]
    rw [Action.bind_ok hsize]
    have hb' := Failing.flatStore_sparingReads hb
    cases hs with
    | plain h' => exact noHeader hh h'
    | fresh _ _ hd hv hr hg =>
      subst hr hg
      obtain ⟨f', raw', he, hR', hf, hne, hx', hd'⟩ :=
        createHeader_run (F := F.onBase F.base.sparingReads) hb' hC
          (f := { f with base := { f.base with file := s₂ } }) ⟨haw, hR₂⟩ hd hv
      refine ⟨f', ?_, ⟨hx'.trans hx, raw', hR', .headed hh hne (.inr hf) ?_⟩, hf, hne⟩
      · rw [if_neg (by decide)]
        exact he
      · rw [hx']
        exact hd'
    | headed _ hne _ hd =>
      obtain ⟨left, hsucc⟩ := Nat.exists_eq_succ_of_ne_zero (hleft h0)
      have hlong : HEADER_SIZE ≤ raw.length := by
        obtain ⟨header, hlen, -, rfl⟩ := hd
        rw [List.length_append]
        omega
      obtain ⟨s', he, hR'⟩ := readHeader_run (F := F.onBase F.base.sparingReads) hb'.toReadsFlat
        (f := { f with base := { f.base with file := s₂, left := left } }) ⟨haw, hR₂⟩ hne hd
      refine ⟨{ f with base := s', fileIV := v }, ?_,
        ⟨hx, raw, hR', .headed hh hne (.inr rfl) hd⟩, rfl, hne⟩
      rw [if_pos (Int.ofNat_le.mpr hlong)]
      exact (readHeader_passes (f := { f with base := { f.base with file := s₂ } }) haw
        hsucc).trans he
  · cases hs with
    | plain h' => exact noHeader hh h'
    | fresh _ hf => exact (h0 hf).elim
    | headed _ hne hf hd =>
      exact ⟨f, if_neg h0 ▸ rfl, ⟨hx, raw, ⟨haw, hR⟩, .headed hh hne hf hd⟩,
        hf.resolve_left h0, hne⟩

omit hb hC in
lemma Established.unread {f : CipherFile (Failing τ)}
    (h : F.failing.Established (Failing.Awaiting .read R) ext v f g)
    (hv : F.haveHeader = true → v ≠ 0) : F.Unread f := by
  obtain ⟨raw, hR, -⟩ := h.stored
  exact ⟨hR.1, fun hh => h.fileIV hh ▸ hv hh⟩

def ReadAsZeros (F : CipherFileIO τ) (v : UInt64) (g : Bytes) (n : ℕ) (cache : Cache)
    (raw : Bytes) : Prop :=
  g.length < n ∧
      cache = F.blockFile.afterWrites (F.blockFile.zeroBlock (g.length / F.blockSize))
        ((F.blockFile.paddedBlocks g.length n).map fun k =>
          (k, F.blockFile.paddedBlock (List.replicate (g.length % F.blockSize) 0) g.length n k)) ∧
      raw = F.padOut v (List.replicate (g.length % F.blockSize) 0) g.length n (F.allocate n g) ∨
    n < g.length ∧ n % F.blockSize ≠ 0 ∧
      cache = ⟨n / F.blockSize * F.blockSize, List.replicate (n % F.blockSize) 0⟩ ∧
      raw = splice 0 (F.allocate n g) (n / F.blockSize * F.blockSize)
        (F.encodeBlock v (n / F.blockSize) (List.replicate (n % F.blockSize) 0))

lemma truncateSized_unread (cache : Cache) {base : Option (ℕ → Action (CipherFile (Failing τ)) ℤ)} {n : ℕ}
    {f : CipherFile (Failing τ)} (h : F.failing.Established (Failing.Awaiting .read R) ext v f g)
    (hv : F.haveHeader = true → v ≠ 0)
    (hkeeps : Preserves (OfFile F.Unread) (baseTruncate base n))
    (hawaits : Cuts base (F.failing.Established (Failing.Awaiting .read R) ext v) n (F.allocate n))
    (hspent : Cuts base (F.failing.Established (Failing.Spent R) ext v) n (F.allocate n)) :
    Yields (F.failing.blockFile.truncateSized g.length n base) ⟨cache, f⟩
      (fun res o => F.Unread o.file ∨ res = 0 ∧ ∃ raw, F.ReadAsZeros v g n o.cache raw ∧
        F.failing.Established (Failing.Spent R) ext v o.file raw)
      fun _ o => F.Unread o.file := by
  have hB : F.failing.blockFile.Implements (F.failing.codecModel v)
      (F.failing.Established (Failing.Spent R) ext v) := codec_implements_established
    (Failing.flatStore_spent hb) hC
  have hread (k : ℕ) {f : CipherFile (Failing τ)} (hf : F.Unread f) :=
    hf.readOneBlock (k * F.failing.blockFile.blockSize) F.failing.blockFile.blockSize
  rcases Nat.lt_trichotomy g.length n with hn | rfl | hn
  · obtain ⟨f₁, h₁, he₁⟩ := hawaits _ _ h
    have hunread := h₁.unread hv
    rcases padFile_splits (B := F.failing.blockFile) (hread (g.length / F.blockSize) hunread) hunread
      cache writeOneBlock_preserves (m := g.length) (n := n) rfl with ⟨-, heq⟩ | hkept
    · obtain ⟨f₂, he₂, h₂⟩ := truncateSized_grow (F := F.failing) hC hB (cuts_none _ n)
        (F.failing.blockFile.zeroBlock (g.length / F.blockSize)) h₁.spent hn
        (lookup_zeroBlock F.failing.blockFile _ _ (Nat.mod_lt g.length F.blockSize_pos)).symm
      refine .of_ok (a := 0) (t := ⟨_, f₂⟩) ?_ (.inr ⟨rfl, _, .inl ⟨hn, rfl, rfl⟩, h₂⟩)
      rw [truncateSized, if_pos hn] at he₂ ⊢
      rw [Action.bind_ok (he₁ cache)]
      refine Eq.trans ?_ he₂
      simp only [bind, EStateM.bind, heq]
      rfl
    · rw [truncateSized, if_pos hn]
      refine .bind (.of_ok (he₁ cache) (.bind (hkept.mono (fun _ o ho => ?_) fun _ _ ho => ho)))
      exact .pure (.inl ho)
  · exact .of_ok (truncateSized_same _ _ _ _) (.inl (h.unread hv))
  · have hunread := h.unread hv
    by_cases hpart : n % F.blockSize = 0
    · obtain ⟨f₁, h₁, he₁⟩ := hawaits _ _ h
      have hwhole : ¬n % F.failing.blockFile.blockSize ≠ 0 := not_not.mpr hpart
      rw [truncateSized, if_neg (by omega), if_neg (by omega), if_neg hwhole]
      exact .of_ok (he₁ cache) (.inl (h₁.unread hv))
    have hok : ∃ res f₁, ∀ cache, baseTruncate base n
        ⟨cache, { f with base := { f.base with failed := true } }⟩ = .ok res ⟨cache, f₁⟩ := by
      obtain ⟨f₁, -, he₁⟩ := hspent _ _ h.spent
      exact ⟨0, f₁, he₁⟩
    rcases truncateSized_splits (B := F.failing.blockFile) (hread (n / F.blockSize) hunread) hunread
      cache writeOneBlock_preserves hn hpart rfl hkeeps hok with heq | hkept
    · have hlt := Nat.mod_lt n F.blockSize_pos
      obtain ⟨f₂, he₂, h₂⟩ := truncateSized_inside hB hspent h.spent hn hpart
        (resize_zeroBlock F.failing.blockFile _ _ hlt).symm
        ⟨List.ne_nil_of_length_pos (by rw [List.length_replicate]; omega), by
          rw [List.length_replicate]
          exact Nat.le_of_lt hlt⟩
      exact .of_ok (heq.trans he₂) (.inr ⟨rfl, _, .inr ⟨hn, hpart, rfl, rfl⟩, h₂⟩)
    · exact hkept.mono (fun _ _ ho => .inl ho) fun _ _ ho => ho

omit hb in
lemma ReadAsZeros.length {n : ℕ} {raw : Bytes} (h : F.ReadAsZeros v g n cache raw)
    (hh : F.haveHeader = false) : raw.length = n := by
  have hallocate : (F.allocate n g).length = n := by
    rw [allocate, if_neg (by simp [hh]), resize_length]
  rcases h with ⟨hn, -, rfl⟩ | ⟨hn, -, -, rfl⟩
  · exact (slice_putBlocks 0 _ _ hallocate fun k hk => padded_fits hC _ hn hk).1
  · have hdiv := Nat.div_add_mod' n F.blockSize
    rw [splice_length, hallocate, encodeBlock_length hC, List.length_replicate]
    omega

omit hC in
lemma getSize_awaiting {f : CipherFile (Failing τ)}
    (h : F.failing.Established (Failing.Awaiting .read R) ext v f g) :
    ∃ f', F.failing.blockFile.getSize f = .ok g.length f' ∧
      F.failing.Established (Failing.Awaiting .read R) ext v f' g := by
  obtain ⟨raw, hR, hs⟩ := h.stored
  obtain ⟨s', he, hR'⟩ := getSize_run (F := F.onBase F.base.sparingReads)
    (Failing.flatStore_sparingReads hb).toReadsFlat hR hs.onBase
  exact ⟨_, he, ⟨h.externalIV, raw, hR', hs.setBase s'⟩, h.fileIV⟩

omit hC in
lemma truncateBase_awaiting (hh : F.haveHeader = false) (n : ℕ) {f : CipherFile (Failing τ)}
    (h : F.failing.Established (Failing.Awaiting .read R) ext v f g) :
    ∃ f', lift (F.failing.base.truncate n) f = .ok 0 f' ∧
      F.failing.Established (Failing.Awaiting .read R) ext v f' (resize 0 g n) := by
  obtain ⟨raw, hR, hs⟩ := h.stored
  obtain ⟨f', he, h'⟩ := truncateBase_plain (F := F.onBase F.base.sparingReads)
    (Failing.flatStore_sparingReads hb) hh n ⟨h.externalIV, raw, hR, hs.onBase⟩
  obtain ⟨raw', hR', hs'⟩ := h'.stored
  exact ⟨f', he, ⟨h'.externalIV, raw', hR', hs'.onBase⟩, fun h' => noHeader h' hh⟩

lemma truncate_read_failed (h : F.Holds R ext v f g)
    (hleft : F.haveHeader = true → f.fileIV = 0 → left ≠ 0) (n : ℕ) :
    Yields (F.failing.truncate n) (failingAt .read left stored ⟨cache, f⟩)
      (fun res o => o.file.base.failed = true → res = 0 ∧ ∃ raw, F.ReadAsZeros v g n o.cache raw ∧
        F.failing.Established (Failing.Spent R) ext v o.file (resize 0 raw n))
      fun _ _ => True := by
  have hspent := Failing.flatStore_spent hb
  have hstart := holds_failingAt .read left stored cache h
  have hvacuous {f : CipherFile (Failing τ)} (hf : F.Unread f) {P : Prop}
      (hfailed : f.base.failed = true) : P :=
    absurd (hf.1.1.symm.trans hfailed) (by decide)
  cases hh : F.haveHeader with
  | false =>
    have hplain : ¬F.failing.haveHeader = true := by
      rw [show F.failing.haveHeader = F.haveHeader from rfl, hh]
      decide
    have hallocate : F.allocate n = fun g => resize 0 g n := by
      funext g
      rw [allocate, if_neg (by simp [hh])]
    obtain ⟨f₁, h₁, hf₁⟩ := getSize_awaiting hb ⟨hstart, fun h' => noHeader h' hh⟩
    have hawaits : Cuts (some fun size => lift (F.failing.base.truncate size))
        (F.failing.Established (Failing.Awaiting .read R) ext v) n (F.allocate n) := by
      rw [hallocate]
      exact cuts_some fun hf => truncateBase_awaiting hb hh n hf
    have hcuts : Cuts (some fun size => lift (F.failing.base.truncate size))
        (F.failing.Established (Failing.Spent R) ext v) n (F.allocate n) := by
      rw [hallocate]
      refine cuts_some fun hf => ?_
      obtain ⟨f', he, hf'⟩ := truncateBase_plain (F := F.failing) hspent hh n hf.toHolds
      exact ⟨f', he, hf', fun h' => noHeader h' hh⟩
    rw [truncate, if_neg hplain]
    refine truncate_yields_of_size h₁ ((truncateSized_unread hb hC cache hf₁ (fun h' => noHeader h' hh)
      (preserves_lift (truncateBase_preserves n)) hawaits hcuts).mono ?_ fun _ _ _ => trivial)
    rintro res o (ho | ⟨hres, raw, hzeros, hraw⟩) hfailed
    · exact hvacuous ho hfailed
    · refine ⟨hres, raw, hzeros, ?_⟩
      rwa [resize_of_length 0 (hzeros.length hC hh)]
  | true =>
    have hheaded : F.failing.haveHeader = true := hh
    have hid : F.allocate n = id := by
      funext g
      rw [allocate, if_pos hh]
      rfl
    obtain ⟨f₁, h₁, hf₁, hiv, hne⟩ := openForHeader_unread hb hC hh hstart (hleft hh)
    obtain ⟨f₂, h₂, hf₂⟩ := getSize_awaiting hb ⟨hf₁, fun _ => hiv⟩
    have hsized := truncateSized_unread (n := n) hb hC cache hf₂ (fun _ => hne) (.pure 0)
      (hid ▸ cuts_none _ n) (hid ▸ cuts_none _ n)
    rw [truncate, if_pos hheaded]
    refine .bind (.of_ok (Cached.lift_ok h₁) (.bind (truncate_yields_of_size h₂ (hsized.mono ?_
      fun _ _ _ => trivial))))
    rintro res o (ho | ⟨rfl, raw, hzeros, hraw⟩)
    · have hkept : Preserves (OfFile F.Unread)
          (Cached.lift (lift (F.failing.base.truncate (n + HEADER_SIZE)))) :=
        preserves_lift (truncateBase_preserves _)
      by_cases hres : res = 0
      · rw [if_pos hres]
        exact .bind ((hkept o ho).mono (fun _ _ ho' => .pure (hvacuous ho')) fun _ _ _ => trivial)
      · rw [if_neg hres]
        exact .pure (hvacuous ho)
    · obtain ⟨f₃, h₃, hf₃⟩ := truncateBase_headed (F := F.failing) hspent hh n hraw.toHolds
        (hraw.fileIV hh)
      rw [if_pos rfl]
      exact .bind (.of_ok (Cached.lift_ok h₃) (.pure fun _ => ⟨rfl, raw, hzeros, hf₃⟩))

omit hb hC in
lemma ReadAsZeros.shaped {n : ℕ} {raw : Bytes} (h : F.ReadAsZeros v g n cache raw) :
    F.Shaped cache := by
  rcases h with ⟨-, rfl, -⟩ | ⟨-, -, rfl, -⟩
  · refine shaped_afterWrites (fun _ => ⟨?_, g.length / F.blockSize, rfl⟩) fun w hw => ?_
    · exact Nat.le_of_eq List.length_replicate
    · obtain ⟨k, -, rfl⟩ := List.mem_map.mp hw
      exact Nat.le_trans (Nat.le_of_eq (paddedBlock_length _ _ _ _)) (Nat.min_le_left _ _)
  · intro _
    refine ⟨Nat.le_trans (Nat.le_of_eq List.length_replicate) ?_, _, rfl⟩
    exact Nat.le_of_lt (Nat.mod_lt n F.blockSize_pos)

omit hb hC in
lemma paddedBlock_replicate (m r n k : ℕ) :
    F.blockFile.paddedBlock (List.replicate r 0) m n k =
      List.replicate (min F.blockSize (n - k * F.blockSize)) 0 := by
  rw [paddedBlock]
  split
  · exact resize_replicate 0 _ _
  · exact resize_nil 0 _

omit hb in
lemma cacheGrows_zeroBlock {n : ℕ} {x : Bytes} (hn : g.length < n)
    (hblock : ∀ k, k * F.blockSize < g.length → g.length < (k + 1) * F.blockSize →
      F.blockFile.paddedBlock x g.length n k =
        slice (resize 0 (F.decoded v g) n) (k * F.blockSize) F.blockSize) :
    F.CacheGrows x (F.decoded v g) (F.blockFile.zeroBlock (g.length / F.blockSize)) n := by
  have hc := decoded_length hC v g
  have hm := Nat.div_add_mod' g.length F.blockSize
  refine fun _ hn0 => ⟨fun h0 _ => ⟨g.length / F.blockSize, rfl, ?_⟩, ?_⟩
  · rw [hc] at h0
    have hnext : g.length / F.blockSize * F.blockSize + F.blockSize ≤ n := by
      obtain ⟨q, hq⟩ := Nat.dvd_of_mod_eq_zero hn0
      rw [Nat.mul_comm] at hq
      have hmq : g.length / F.blockSize < q := Nat.lt_of_mul_lt_mul_right (a := F.blockSize)
        (by omega)
      rw [hq, ← Nat.succ_mul]
      exact Nat.mul_le_mul_right _ hmq
    have hend : (F.decoded v g).length ≤ g.length / F.blockSize * F.blockSize := by omega
    have hpast := slice_resize_past 0 (F.decoded v g) (n := n) hend
    rw [Nat.min_eq_left (by omega)] at hpast
    exact hpast.symm
  · intro k hk hk'
    rw [hc] at hk hk' ⊢
    exact hblock k hk hk'

omit hb in
lemma right_iff_grown {n : ℕ} {x : Bytes} (hn : g.length < n)
    (hx : x = List.replicate (g.length % F.blockSize) 0) :
    F.decoded v (F.grown v x g n) = resize 0 (F.decoded v g) n ∧
        F.blockFile.Coherent (resize 0 (F.decoded v g) n) (F.blockFile.afterWrites
          (F.blockFile.zeroBlock (g.length / F.blockSize)) ((F.blockFile.paddedBlocks g.length n).map
            fun k => (k, F.blockFile.paddedBlock x g.length n k))) ↔
      slice (F.decoded v g) (g.length / F.blockSize * F.blockSize) (g.length % F.blockSize) = x ∧
        F.HolesRead v g.length n := by
  have hc := decoded_length hC v g
  have hm := Nat.div_add_mod' g.length F.blockSize
  have hlt := Nat.mod_lt g.length F.blockSize_pos
  have hn' : (F.decoded v g).length < n := by omega
  have hxlen : x.length = g.length % F.blockSize := by
    rw [hx, List.length_replicate]
  have hzero (k : ℕ) : F.blockFile.paddedBlock x g.length n k =
      List.replicate (min F.blockSize (n - k * F.blockSize)) 0 := hx ▸ paddedBlock_replicate _ _ n k
  have hpadded (h0 : g.length % F.blockSize ≠ 0) := paddedBlock_iff (F := F) hn'
    (x := x) (by rw [hxlen, hc]) (by rwa [hc])
  rw [hc, ← hxlen, resize_self] at hpadded
  rw [decoded_grown_iff hC hn]
  constructor
  · rintro ⟨⟨hlast, hholes⟩, -⟩
    refine ⟨?_, hholes⟩
    by_cases h0 : g.length % F.blockSize = 0
    · rw [hx, h0, slice_zero, List.replicate_zero]
    · have hback := hlast (g.length / F.blockSize) (by omega) (by rw [hc, Nat.succ_mul]; omega)
      rw [hc, hzero, readBack_zeros hC, ← hzero] at hback
      rw [← hxlen]
      exact ((hpadded (hxlen ▸ h0)).mp hback).symm
  · rintro ⟨hkept, hholes⟩
    have hblock (k : ℕ) (hk : k * F.blockSize < g.length) (hk' : g.length < (k + 1) * F.blockSize) :
        F.blockFile.paddedBlock x g.length n k =
          slice (resize 0 (F.decoded v g) n) (k * F.blockSize) F.blockSize := by
      obtain ⟨rfl, h0⟩ := partial_block hk hk'
      rw [← hxlen] at hkept
      exact (hpadded (hxlen ▸ h0)).mpr hkept.symm
    have hlast : F.LastReadsBack v x (F.decoded v g) n := by
      intro k hk hk'
      rw [hc] at hk hk' ⊢
      rw [hzero, readBack_zeros hC, ← hzero]
      exact hblock k hk hk'
    have hco := (coherent_grown_iff hC _ hn' hlast).mpr (cacheGrows_zeroBlock hC hn hblock)
    rw [hc] at hco
    exact ⟨⟨hlast, hholes⟩, hco⟩

omit hb in
lemma ReadAsZeros.right_iff {n : ℕ} {raw : Bytes} (h : F.ReadAsZeros v g n cache raw) :
    F.decoded v (resize 0 raw n) = resize 0 (F.decoded v g) n ∧
        F.blockFile.Coherent (resize 0 (F.decoded v g) n) cache ↔
      ZerosKept F.blockSize (F.decoded v g) n ∧ (g.length < n → F.HolesRead v g.length n) := by
  have hc := decoded_length hC v g
  rw [ZerosKept, hc]
  rcases h with ⟨hn, rfl, rfl⟩ | ⟨hn, hpart, rfl, rfl⟩
  · have hgrown := right_iff_grown hC (v := v) hn rfl
    rw [grown] at hgrown
    rw [resize_padOut hC _ hn, resize_allocate, Nat.min_eq_left (Nat.le_of_lt hn), hgrown]
    exact and_congr_right fun _ => ⟨fun h _ => h, fun h => h hn⟩
  · have hlt := Nat.mod_lt n F.blockSize_pos
    have hd : (List.replicate (n % F.blockSize) (0 : UInt8)).length = n % F.blockSize :=
      List.length_replicate
    rw [resize_cut hC hn hd, resize_eq_take 0 (by omega), decoded_cut_iff hC hn hd,
      Nat.min_eq_right (Nat.le_of_lt hn)]
    constructor
    · rintro ⟨hkept, -⟩
      exact ⟨hkept.symm, fun h => absurd h (by omega)⟩
    · rintro ⟨hkept, -⟩
      refine ⟨hkept.symm, ?_⟩
      rw [← hkept]
      exact coherent_cut _ n

end Runs

end Reads

section Truncates

def lastBlock (F : CipherFileIO τ) (v : UInt64) (cache : Cache) (g : Bytes) : Bytes :=
  (F.blockFile.lookup cache (F.decodeBlock v (g.length / F.blockSize)
    (slice g (g.length / F.blockSize * F.blockSize) F.blockSize)) (g.length / F.blockSize)).take
      (g.length % F.blockSize)

/-- What is left when the result of the truncate of the base file is dropped: the file was padded,
or written where it is to be cut, but its size was not set. -/
def NotResized (F : CipherFileIO τ) (v : UInt64) (cache : Cache) (g : Bytes) (n : ℕ)
    (cache' : Cache) (raw : Bytes) : Prop :=
  g.length < n ∧
      cache' = F.blockFile.afterWrites cache ((F.blockFile.paddedBlocks g.length n).map fun k =>
        (k, F.blockFile.paddedBlock (F.lastBlock v cache g) g.length n k)) ∧
      raw = F.padOut v (F.lastBlock v cache g) g.length n g ∨
    n = g.length ∧ cache' = cache ∧ raw = g ∨
    n < g.length ∧ F.haveHeader = true ∧ raw.length = g.length

variable (hb : F.base.FlatStore R) (hC : F.cipher.Lawful F.blockSize)
include hb

lemma truncateBase_failing {f : CipherFile (Failing τ)}
    (h : F.failing.Established (Failing.Awaiting .truncate R) ext v f g) (n : ℕ) :
    lift (F.failing.base.truncate n) f =
        .ok (- EIO) { f with base := { f.base with failed := true } } ∨
      ∃ f', lift (F.failing.base.truncate n) f = .ok 0 f' ∧ f'.base.failed = false ∧
        (F.haveHeader = false →
          F.failing.Established (Failing.Awaiting .truncate R) ext v f' (resize 0 g n)) := by
  obtain ⟨raw, ⟨haw, hR⟩, hs⟩ := h.stored
  obtain ⟨s', he, hR'⟩ := hb.truncate n hR
  rcases Failing.truncate_splits F.base haw he with hfails | ⟨left, hpasses⟩
  · exact .inl (lift_ok hfails)
  · refine .inr ⟨_, lift_ok hpasses, haw.1, fun hh => ⟨⟨h.externalIV, _, ⟨haw, hR'⟩, ?_⟩, h.fileIV⟩⟩
    cases hs with
    | plain _ hf hz hr => exact .plain hh hf hz (by rw [hr])
    | fresh h' => exact noHeader h' hh
    | headed h' => exact noHeader h' hh

include hC

lemma blockFile_awaiting (ext v : UInt64) : F.failing.blockFile.Implements (F.failing.codecModel v)
    (F.failing.Established (Failing.Awaiting .truncate R) ext v) := by
  have heq : F.failing.Established (Failing.Awaiting .truncate R) ext v =
      (F.onBase F.base.sparingTruncates).Established (Failing.Awaiting .truncate R) ext v := by
    funext f g
    refine propext ⟨fun h => ?_, fun h => ?_⟩ <;>
    · obtain ⟨raw, hR, hs⟩ := h.stored
      exact ⟨⟨h.externalIV, raw, hR, hs.onBase⟩, h.fileIV⟩
  rw [heq]
  exact codec_implements_established (F := F.onBase F.base.sparingTruncates)
    (Failing.flatStore_sparingTruncates hb) hC

lemma truncateSized_headed (hh : F.haveHeader = true) {f : CipherFile (Failing τ)}
    (h : F.failing.Established (Failing.Awaiting .truncate R) ext v f g) (hs : F.Shaped cache)
    (n : ℕ) :
    ∃ cache' f' raw, F.failing.blockFile.truncateSized g.length n none ⟨cache, f⟩ =
        .ok 0 ⟨cache', f'⟩ ∧ F.NotResized v cache g n cache' raw ∧ F.Shaped cache' ∧
      F.failing.Established (Failing.Awaiting .truncate R) ext v f' raw := by
  have hB := blockFile_awaiting hb hC ext v
  rcases Nat.lt_trichotomy g.length n with hn | rfl | hn
  · obtain ⟨f', he, h'⟩ :=
      truncateSized_grow (F := F.failing) hC hB (cuts_none _ n) cache h hn rfl
    refine ⟨_, f', _, he, .inl ⟨hn, rfl, rfl⟩, shaped_afterWrites hs fun w hw => ?_, h'⟩
    obtain ⟨k, -, rfl⟩ := List.mem_map.mp hw
    exact Nat.le_trans (Nat.le_of_eq (paddedBlock_length _ _ _ _)) (Nat.min_le_left _ _)
  · exact ⟨cache, f, g, truncateSized_same _ _ _ _, .inr (.inl ⟨rfl, rfl, rfl⟩), hs, h⟩
  · by_cases hpart : n % F.failing.blockFile.blockSize = 0
    · obtain ⟨f', he, h'⟩ := truncateSized_whole (B := F.failing.blockFile) (cuts_none _ n)
        cache h hn hpart
      exact ⟨cache, f', g, he, .inr (.inr ⟨hn, hh, rfl⟩), hs, h'⟩
    · have hlt := Nat.mod_lt n F.blockSize_pos
      have hdiv := Nat.div_add_mod' n F.blockSize
      have hne : n % F.blockSize ≠ 0 := hpart
      generalize hd : resize 0 (F.failing.blockFile.lookup cache
        ((F.failing.codecModel v).block g (n / F.blockSize)) (n / F.blockSize)) (n % F.blockSize) = d
      have hdlen : d.length = n % F.blockSize := by rw [← hd, resize_length]
      obtain ⟨f', he, h'⟩ := truncateSized_inside hB (cuts_none _ n) h hn hpart hd.symm
        ⟨List.ne_nil_of_length_pos (by omega), by change d.length ≤ F.blockSize; omega⟩
      refine ⟨_, f', _, he, .inr (.inr ⟨hn, hh, ?_⟩), fun _ => ⟨by change d.length ≤ _; omega, _, rfl⟩,
        h'⟩
      have henc := encodeBlock_length hC v (n / F.blockSize) d
      change (splice 0 g (n / F.blockSize * F.blockSize)
        (F.encodeBlock v (n / F.blockSize) d)).length = g.length
      rw [splice_length]
      omega

def TruncateFailed (F : CipherFileIO τ) (R : τ → Bytes → Prop) (ext v : UInt64) (cache : Cache)
    (g : Bytes) (n : ℕ) (res : ℤ) (o : Cached (CipherFile (Failing τ))) : Prop :=
  o.file.base.failed = true →
    (F.haveHeader = false ∧ n < g.length ∧ res ≠ 0) ∨
    (res = 0 ∧ F.Shaped o.cache ∧ ∃ raw, F.NotResized v cache g n o.cache raw ∧
      F.failing.Established (Failing.Spent R) ext v o.file raw)

omit hb hC in
lemma TruncateFailed.spared {n : ℕ} {res : ℤ} {o : Cached (CipherFile (Failing τ))}
    (h : o.file.base.failed = false) : F.TruncateFailed R ext v cache g n res o :=
  fun hfailed => absurd (h.symm.trans hfailed) (by decide)

omit hb hC in
lemma not_failed_of_awaiting {f : CipherFile (Failing τ)} {raw : Bytes}
    (h : F.failing.Established (Failing.Awaiting .truncate R) ext v f raw) :
    f.base.failed = false := by
  obtain ⟨_, hR, _⟩ := h.stored
  exact hR.1.1

lemma truncate_failed_headed (hh : F.haveHeader = true) (h : F.Holds R ext v f g)
    (hs : F.Shaped cache) (n : ℕ) :
    Yields (F.failing.truncate n) (failingAt .truncate left stored ⟨cache, f⟩)
      (F.TruncateFailed R ext v cache g n) fun _ _ => True := by
  have hstart := holds_failingAt .truncate left stored cache h
  have hheaded : F.failing.haveHeader = true := hh
  obtain ⟨raw, hR, hstored⟩ := hstart.stored
  obtain ⟨f₁, h₁, hf₁, hiv⟩ := openForHeader_run (F := F.onBase F.base.sparingTruncates)
    (Failing.flatStore_sparingTruncates hb) hC hh ⟨hstart.externalIV, raw, hR, hstored.onBase⟩
  obtain ⟨raw₁, hR₁, hstored₁⟩ := hf₁.stored
  have hopen : F.failing.openForHeader
      (failingAt .truncate left stored ⟨cache, f⟩).file = .ok ⟨⟩ f₁ := h₁
  obtain ⟨f₂, h₂, hf₂⟩ := (blockFile_awaiting hb hC ext v).getSize
    ⟨⟨hf₁.externalIV, raw₁, hR₁, hstored₁.onBase⟩, fun _ => hiv⟩
  obtain ⟨cache', f₃, raw', h₃, hleft, hshaped, hf₃⟩ := truncateSized_headed hb hC hh hf₂ hs n
  rw [truncate, if_pos hheaded]
  refine .bind (.of_ok (Cached.lift_ok hopen) (.bind (truncate_yields_of_size h₂ (.of_ok h₃ ?_))))
  rw [if_pos rfl]
  rcases truncateBase_failing hb hf₃ (n + HEADER_SIZE) with he | ⟨f₄, he, hf₄, -⟩
  · exact .bind (.of_ok (Cached.lift_ok he)
      (.pure fun _ => .inr ⟨rfl, hshaped, raw', hleft, hf₃.spent⟩))
  · exact .bind (.of_ok (Cached.lift_ok he) (.pure (.spared hf₄)))

section Headerless

variable (hh : F.haveHeader = false) {f : CipherFile (Failing τ)}
  (hf : F.failing.Established (Failing.Awaiting .truncate R) ext v f g)
include hh hf

lemma grow_failed_headerless (hs : F.Shaped cache) {n : ℕ} (hgrow : g.length < n) :
    Yields (F.failing.blockFile.truncateSized g.length n (some fun size =>
        lift (F.failing.base.truncate size))) ⟨cache, f⟩
      (F.TruncateFailed R ext v cache g n) fun _ _ => True := by
  rw [truncateSized, if_pos hgrow]
  rcases truncateBase_failing hb hf n with he | ⟨f₂, he, -, hf₂⟩
  · obtain ⟨f₃, h₃, hf₃⟩ := truncateSized_grow (F := F.failing) hC
      (codec_implements_established (Failing.flatStore_spent hb) hC) (cuts_none _ n) cache
      hf.spent hgrow rfl
    rw [truncateSized, if_pos hgrow] at h₃
    refine .bind (.of_ok (Cached.lift_ok he) (.of_ok h₃ fun _ => .inr ⟨rfl, ?_, _, .inl
      ⟨hgrow, rfl, rfl⟩, hf₃⟩))
    refine shaped_afterWrites hs fun w hw => ?_
    obtain ⟨k, -, rfl⟩ := List.mem_map.mp hw
    exact Nat.le_trans (Nat.le_of_eq (paddedBlock_length _ _ _ _)) (Nat.min_le_left _ _)
  · obtain ⟨f₃, h₃, hf₃⟩ := truncateSized_grow (F := F.failing) hC (blockFile_awaiting hb hC ext v)
      (cuts_none _ n) cache (hf₂ hh) hgrow rfl
    rw [truncateSized, if_pos hgrow] at h₃
    exact .bind (.of_ok (Cached.lift_ok he) (.of_ok h₃ (.spared (not_failed_of_awaiting hf₃))))

lemma cut_failed_headerless {n : ℕ} (hn : n < g.length) :
    Yields (F.failing.blockFile.truncateSized g.length n (some fun size =>
        lift (F.failing.base.truncate size))) ⟨cache, f⟩
      (F.TruncateFailed R ext v cache g n) fun _ _ => True := by
  have hB := blockFile_awaiting hb hC ext v
  have hlt := Nat.mod_lt n F.blockSize_pos
  rw [truncateSized, if_neg (by omega), if_neg (by omega)]
  split
  · rename_i hpart
    obtain ⟨f₂, h₂, hf₂⟩ := cacheReadOneBlock_run hB.toReads cache
      (n / F.failing.blockFile.blockSize) F.failing.blockFile.blockSize hf
    refine .bind (.of_ok h₂ ?_)
    rcases truncateBase_failing hb hf₂ n with he | ⟨f₃, he, -, hf₃⟩
    · exact .bind (.of_ok (Cached.lift_ok he) (.after fun _ _ => .pure fun _ => .inl
        ⟨hh, hn, by decide⟩))
    · refine .bind (.of_ok (Cached.lift_ok he) ?_)
      generalize hd : padded _ _ = d
      have hdlen : d.length = n % F.blockSize := by
        rw [← hd, padded, resize_length]
        rfl
      obtain ⟨f₄, h₄, hf₄⟩ := cacheWriteOneBlock_run hB
        (F.failing.blockFile.afterRead cache ((F.failing.codecModel v).block g
          (n / F.failing.blockFile.blockSize)) (n / F.failing.blockFile.blockSize)) (hf₃ hh)
        (k := n / F.failing.blockFile.blockSize) (d := d)
        ⟨List.ne_nil_of_length_pos (by rw [hdlen]; exact Nat.pos_of_ne_zero hpart),
          by change d.length ≤ F.blockSize; omega⟩
      exact .bind (.of_ok h₄ (.pure (.spared (not_failed_of_awaiting hf₄))))
  · rcases truncateBase_failing hb hf n with he | ⟨f₂, he, hf₂, -⟩
    · exact .of_ok (Cached.lift_ok he) fun _ => .inl ⟨hh, hn, by decide⟩
    · exact .of_ok (Cached.lift_ok he) (.spared hf₂)

end Headerless

lemma truncate_truncate_failed (h : F.Holds R ext v f g) (hs : F.Shaped cache) (n : ℕ) :
    Yields (F.failing.truncate n) (failingAt .truncate left stored ⟨cache, f⟩)
      (F.TruncateFailed R ext v cache g n) fun _ _ => True := by
  cases hh : F.haveHeader with
  | true => exact truncate_failed_headed hb hC hh h hs n
  | false =>
    have hplain : ¬F.failing.haveHeader = true := by
      rw [show F.failing.haveHeader = F.haveHeader from rfl, hh]
      decide
    obtain ⟨f₁, h₁, hf₁⟩ := (blockFile_awaiting hb hC ext v).getSize
      ⟨holds_failingAt .truncate left stored cache h, fun h' => noHeader h' hh⟩
    rw [truncate, if_neg hplain]
    refine truncate_yields_of_size h₁ ?_
    rcases Nat.lt_trichotomy g.length n with hgrow | rfl | hn
    · exact grow_failed_headerless hb hC hh hf₁ hs hgrow
    · exact .of_ok (truncateSized_same _ _ _ _) (.spared (not_failed_of_awaiting hf₁))
    · exact cut_failed_headerless hb hC hh hf₁ hn

omit hb in
lemma NotResized.right_iff {n : ℕ} {cache' : Cache} {raw : Bytes}
    (h : F.NotResized v cache g n cache' raw) (hco : F.blockFile.Coherent (F.decoded v g) cache) :
    F.decoded v raw = resize 0 (F.decoded v g) n ∧
        F.blockFile.Coherent (resize 0 (F.decoded v g) n) cache' ↔
      g.length ≤ n ∧ (g.length < n → F.blockFile.ReachesEnd g.length n ∧
        F.NoFalseHole v (F.decoded v g) n ∧ F.HolesRead v g.length n) := by
  have hc := decoded_length hC v g
  rcases h with ⟨hn, rfl, rfl⟩ | ⟨rfl, rfl, rfl⟩ | ⟨hn, -, hraw⟩
  · have hlt := Nat.mod_lt g.length F.blockSize_pos
    have hdiv := Nat.div_add_mod' g.length F.blockSize
    have hn' : (F.decoded v g).length < n := by omega
    have hlast : F.lastBlock v cache g =
        slice (F.decoded v g) (g.length / F.blockSize * F.blockSize) (g.length % F.blockSize) := by
      have hblock : F.blockFile.lookup cache (slice (F.decoded v g)
          (g.length / F.blockSize * F.blockSize) F.blockSize) (g.length / F.blockSize) =
            slice (F.decoded v g) (g.length / F.blockSize * F.blockSize) F.blockSize :=
        lookup_eq hco.settled (.inr hco)
      rw [lastBlock, ← slice_decoded hC, hblock, take_slice, Nat.min_eq_left (Nat.le_of_lt hlt)]
    generalize hx : F.lastBlock v cache g = x at *
    have hxlen : x.length = (F.decoded v g).length % F.blockSize := by
      rw [hlast, hc, slice_length]
      omega
    have hread : resize 0 x ((F.decoded v g).length % F.blockSize) = slice (F.decoded v g)
        ((F.decoded v g).length / F.blockSize * F.blockSize)
        ((F.decoded v g).length % F.blockSize) := by
      rw [resize_of_length 0 hxlen, hc, hlast]
    have hlen : (F.padOut v x g.length n g).length = n ↔ F.blockFile.ReachesEnd g.length n := by
      have hfits (k : ℕ) (hk : k ∈ F.blockFile.paddedBlocks g.length n) :=
        padded_fits (v := v) hC x hn hk
      rw [reachesEnd_iff hn, padOut, putBlocks_length_iff 0 g _ (Nat.le_of_lt hn) fun k hk => by
        rw [(hfits k hk).2]
        have := (hfits k hk).1
        omega]
      rw [or_iff_right (Nat.ne_of_lt hn)]
      refine exists_congr fun k => and_congr_right fun hk => ?_
      rw [(hfits k hk).2]
      rfl
    have hgrown (hend : F.blockFile.ReachesEnd g.length n) :
        F.padOut v x g.length n g = F.grown v x g n := by
      rw [grown, ← resize_padOut hC x hn, resize_of_length 0 (hlen.mpr hend)]
    constructor
    · rintro ⟨heq, -⟩
      have hend : F.blockFile.ReachesEnd g.length n := by
        refine hlen.mp ?_
        have := congrArg List.length heq
        rwa [decoded_length hC, resize_length] at this
      rw [hgrown hend, decoded_grown_iff hC hn] at heq
      exact ⟨Nat.le_of_lt hn, fun _ => ⟨hend, noFalseHole_of_lastReadsBack hn' (Nat.le_of_eq hxlen)
        hread heq.1, heq.2⟩⟩
    · rintro ⟨-, hright⟩
      obtain ⟨hend, hfalse, hholes⟩ := hright hn
      have hback := lastReadsBack_of_read hn' (Nat.le_of_eq hxlen) hread hC hfalse
      have hgrows := cacheGrows_of_read hn' (Nat.le_of_eq hxlen) hread
        fun _ hm _ => coherent_extend hco (Nat.le_of_lt hn') hm
      have hcoherent := (coherent_grown_iff hC cache hn' hback).mpr hgrows
      rw [hc] at hcoherent
      rw [hgrown hend, decoded_grown_iff hC hn]
      exact ⟨⟨hback, hholes⟩, hcoherent⟩
  · rw [← hc, resize_self]
    exact iff_of_true ⟨rfl, hco⟩ ⟨Nat.le_refl _, fun h => absurd h (Nat.lt_irrefl _)⟩
  · refine iff_of_false (fun hright => ?_) fun h => absurd h.1 (by omega)
    have := congrArg List.length hright.1
    rw [decoded_length hC, resize_length] at this
    omega

end Truncates

/-- The failing calls that a truncate of content `c` can do without, or reports. The first read may
be that of the header. -/
def FailureSpared (F : CipherFileIO τ) (v : UInt64) (kind : BaseCall) (left : ℕ)
    (o : Cached (CipherFile τ)) (c : Bytes) (n : ℕ) : Prop :=
  match kind with
  | .read => (F.haveHeader = true → o.file.fileIV = 0 → left ≠ 0) ∧ ZerosKept F.blockSize c n ∧
      (c.length < n → F.NoLostHole c.length n)
  | .write => False
  | .truncate => F.haveHeader = false ∧ n < c.length ∨ F.blockFile.Coherent c o.cache ∧
      c.length ≤ n ∧ (c.length < n → F.blockFile.ReachesEnd c.length n ∧ F.NoFalseHole v c n ∧
        F.NoLostHole c.length n)

/-- What is left after the call fails does not hang on the values of the cipher. -/
def FailureTells (F : CipherFileIO τ) (kind : BaseCall) (left : ℕ) (o : Cached (CipherFile τ))
    (c : Bytes) : Prop :=
  (F.allowHoles = true → F.reverseEncryption = false) ∧
    match kind with
    | .read => F.haveHeader = true → o.file.fileIV = 0 → left ≠ 0
    | .write => False
    | .truncate => F.blockFile.Coherent c o.cache

def forget (o : Cached (CipherFile (Failing τ))) : Cached (CipherFile τ) :=
  ⟨o.cache, o.file.forget⟩

lemma truncate_failed (hb : F.base.FlatStore R) (hC : F.cipher.Lawful F.blockSize)
    (h : F.Holds R ext v f g) (hs : F.Shaped cache) (kind : BaseCall) (left stored n : ℕ) :
    Yields (F.failing.truncate n) (failingAt kind left stored ⟨cache, f⟩)
      (fun res o => o.file.base.failed = true →
        (F.FailureSpared v kind left ⟨cache, f⟩ (F.decoded v g) n →
          res = 0 → F.Truncated (forget o) (resize 0 (F.decoded v g) n)) ∧
        (F.FailureTells kind left ⟨cache, f⟩ (F.decoded v g) →
          (res = 0 → F.Truncated (forget o) (resize 0 (F.decoded v g) n)) →
            F.FailureSpared v kind left ⟨cache, f⟩ (F.decoded v g) n))
      fun _ _ => True := by
  have hc := decoded_length hC v g
  have hforward {m : ℕ} (htells : F.allowHoles = true → F.reverseEncryption = false) :
      F.NoLostHole m n := by
    intro hh hr
    exact absurd ((htells hh).symm.trans hr) (by decide)
  cases kind with
  | write => exact Yields.any.mono (fun _ _ _ _ => ⟨False.elim, fun h => h.2.elim⟩) fun _ _ h => h
  | read =>
    by_cases hleft : F.haveHeader = true → f.fileIV = 0 → left ≠ 0
    · refine (truncate_read_failed hb hC h hleft n).mono (fun res o ho hfailed => ?_) fun _ _ h => h
      obtain ⟨rfl, raw, hzeros, hraw⟩ := ho hfailed
      have hiff := truncated_iff (t := resize 0 (F.decoded v g) n) hb.toReadsFlat hC
        (established_forget hraw) hzeros.shaped
      rw [hzeros.right_iff hC] at hiff
      rw [forall_prop_of_true rfl, forget, hiff, FailureSpared, FailureTells]
      rw [hc]
      refine ⟨fun hspared => ⟨hspared.2.1, fun hn => holesRead_of_noLostHole (hspared.2.2 hn)⟩,
        fun htells hkept => ⟨hleft, hkept.1, fun _ => hforward htells.1⟩⟩
    · exact Yields.any.mono (fun _ _ _ _ => ⟨fun hspared => absurd hspared.1 hleft,
        fun htells => absurd htells.2 hleft⟩) fun _ _ h => h
  | truncate =>
    refine (truncate_truncate_failed hb hC h hs n).mono (fun res o ho hfailed => ?_) fun _ _ h => h
    rw [FailureSpared, FailureTells]
    rw [hc]
    rcases ho hfailed with ⟨hh, hn, hres⟩ | ⟨rfl, hshaped, raw, hdropped, hraw⟩
    · exact ⟨fun _ h0 => absurd h0 hres, fun _ _ => .inl ⟨hh, hn⟩⟩
    · have hiff := truncated_iff (t := resize 0 (F.decoded v g) n) hb.toReadsFlat hC
        (established_forget hraw) hshaped
      rw [forall_prop_of_true rfl, forget, hiff]
      refine ⟨?_, ?_⟩
      · rintro (⟨hh, hn⟩ | ⟨hco, hle, hspared⟩)
        · rcases hdropped with ⟨hn', -⟩ | ⟨hn', -⟩ | ⟨-, hh', -⟩
          · exact absurd hn' (by omega)
          · exact absurd hn' (by omega)
          · exact noHeader hh' hh
        · refine (hdropped.right_iff hC hco).mpr ⟨hle, fun hn => ?_⟩
          obtain ⟨hend, hfalse, hlost⟩ := hspared hn
          exact ⟨hend, hfalse, holesRead_of_noLostHole hlost⟩
      · rintro ⟨htells, hco⟩ hright
        obtain ⟨hle, hgrow⟩ := (hdropped.right_iff hC hco).mp hright
        refine .inr ⟨hco, hle, fun hn => ?_⟩
        obtain ⟨hend, hfalse, -⟩ := hgrow hn
        exact ⟨hend, hfalse, hforward htells⟩

end CipherFileIO

end EncFS
