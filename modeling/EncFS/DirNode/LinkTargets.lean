import EncFS.NameIO.Canonical

set_option autoImplicit false

namespace EncFS

lemma b64ToAscii_unmarked : ∀ d < 64, B64ToAsciiChar (UInt8.ofNat d) ≠ plus ∧
    B64ToAsciiChar (UInt8.ofNat d) ≠ 58 := by
  decide

lemma bytesToAscii_unmarked {src : Bytes} (hne : src ≠ []) {ch : UInt8}
    (hch : ch ∈ bytesToAscii src) : ch ≠ plus ∧ ch ≠ 58 := by
  rw [bytesToAscii_eq hne] at hch
  obtain ⟨d, hd, rfl⟩ := List.mem_map.mp hch
  exact b64ToAscii_unmarked d (digitsUpTo_lt (by decide) _ _ d hd)

/-- A path without the marks, and without a slash at its start. -/
structure Unmarked (path : Bytes) : Prop where
  chars : ∀ c ∈ path, c ≠ plus ∧ c ≠ 58
  relative : ∀ c ∈ path.head?, c ≠ slash

namespace Unmarked

variable {p q : Bytes}

lemma nil : Unmarked [] where
  chars _ h := by cases h
  relative _ h := by cases h

lemma append (hp : Unmarked p) (hq : ∀ c ∈ q, c ≠ plus ∧ c ≠ 58)
    (hhead : p = [] → ∀ c ∈ q.head?, c ≠ slash) : Unmarked (p ++ q) where
  chars c hc := by
    rcases List.mem_append.mp hc with hc | hc
    · exact hp.chars c hc
    · exact hq c hc
  relative := by
    cases p with
    | nil => exact hhead rfl
    | cons d p => exact hp.relative

end Unmarked

namespace NameCoder

def Inverse : NameCoder → Prop
  | stream S => ∃ bs, S.cipher.NamesLawful bs
  | block B => B.cipher.NamesLawful B.bs

variable {K : NameCoder} {chainedNameIV : Bool}

lemma Inverse.lawful (h : K.Inverse) (chainedNameIV : Bool) :
    (K.naming chainedNameIV).Lawful := by
  cases K with
  | stream S =>
    obtain ⟨bs, hC⟩ := h
    exact stream_lawful S hC chainedNameIV false
  | block B => exact block_lawful B h chainedNameIV false

lemma Inverse.codes (h : K.Inverse) (chainedNameIV : Bool) {name : Bytes}
    (hname : name ≠ [] ∨ ∃ B, K = block B) (iv : Option UInt64) :
    ∃ encoded iv', (K.naming chainedNameIV).Codes iv name encoded iv' := by
  cases K with
  | stream S =>
    obtain ⟨bs, hC⟩ := h
    refine stream_codes S hC chainedNameIV false iv (hname.resolve_right ?_)
    rintro ⟨B, hB⟩
    cases hB
  | block B => exact block_codes B h chainedNameIV false iv name

open StreamNameIO in
lemma encodeName_unmarked {name encoded : Bytes} {iv iv' : Option UInt64}
    (h : (K.naming chainedNameIV).encodeName name iv = .ok (encoded, iv')) :
    ∀ c ∈ encoded, (c ≠ plus ∧ c ≠ 58) ∧ c ≠ slash := by
  have hascii : ∃ src, src ≠ [] ∧ encoded = bytesToAscii src := by
    cases K with
    | stream S =>
      change S.encodeName name iv = _ at h
      rw [encodeName] at h
      split at h
      · cases h
      · refine ⟨_, ?_, (Prod.mk.inj (Except.ok.inj h)).1.symm⟩
        split
        · simp [macBytesOf]
        · simp [macBytesOf]
    | block B => exact ⟨_, by simp [macBytesOf], (Prod.mk.inj (Except.ok.inj h)).1.symm⟩
  obtain ⟨src, hne, rfl⟩ := hascii
  exact fun c hc => ⟨bytesToAscii_unmarked hne hc, (bytesToAscii_plain hne hc).2.2⟩

open NameIO in
lemma codeComponent_unmarked {name encoded : Bytes} {iv iv' : Option UInt64}
    (hname : slash ∉ name) (h : NameIO.codeComponent (K.naming chainedNameIV).maxEncodedNameLen
      (K.naming chainedNameIV).encodeName name iv = .ok (encoded, iv')) :
    ∀ c ∈ encoded, (c ≠ plus ∧ c ≠ 58) ∧ c ≠ slash := by
  rw [codeComponent] at h
  split at h
  case isTrue hdots =>
    obtain ⟨rfl, -⟩ := Prod.mk.inj (Except.ok.inj h)
    rcases NameIO.isDots_iff.mp hdots with rfl | rfl
    · simp [dot, plus, slash]
    · simp [dot, plus, slash]
  case isFalse =>
    rw [recodeName] at h
    split at h
    case isTrue => cases h
    case isFalse =>
      cases hcode : (K.naming chainedNameIV).encodeName name iv with
      | error e =>
        rw [hcode] at h
        cases h
      | ok r =>
        obtain ⟨codeBuf, iv₁⟩ := r
        rw [hcode] at h
        change (if (codeBuf.length : ℤ) ≤ _ then pure (cString codeBuf, iv₁) else _) = _ at h
        split at h
        case isTrue =>
          obtain ⟨rfl, -⟩ := Prod.mk.inj (Except.ok.inj h)
          exact fun c hc => encodeName_unmarked hcode c ((List.takeWhile_prefix _).mem hc)
        case isFalse => cases h

open NameIO in
lemma recodePath_unmarked (p : Bytes) {q output : Bytes} {iv iv' : Option UInt64}
    (hout : Unmarked output) (h : NameIO.recodePath (K.naming chainedNameIV).maxEncodedNameLen
      (K.naming chainedNameIV).encodeName p iv output = .ok (q, iv')) : Unmarked q := by
  induction p using path_induction generalizing iv output with
  | nil =>
    rw [recodePath_nil] at h
    obtain ⟨rfl, -⟩ := Prod.mk.inj (Except.ok.inj h)
    exact hout
  | slashed p ih =>
    rw [recodePath_slash] at h
    refine ih ?_ h
    by_cases hempty : output = []
    · rw [if_pos hempty]
      exact .nil
    · rw [if_neg hempty]
      exact hout.append (by simp [plus, slash]) fun h => (hempty h).elim
  | component name rest hne hname hrest ih =>
    rw [recodePath_component _ _ hne hname hrest] at h
    cases hcode : NameIO.codeComponent (K.naming chainedNameIV).maxEncodedNameLen
        (K.naming chainedNameIV).encodeName name iv with
    | error e =>
      rw [hcode] at h
      cases h
    | ok r =>
      obtain ⟨encoded, iv₁⟩ := r
      rw [hcode] at h
      have hchars := codeComponent_unmarked hname hcode
      refine ih (hout.append (fun c hc => (hchars c hc).1) fun _ c hc => ?_) h
      exact (hchars c (List.mem_of_mem_head? hc)).2

end NameCoder

def Rooted (rootDir : Bytes) : Prop :=
  rootDir.head? = some slash ∨ rootDir[1]? = some 58

lemma Rooted.not_prefix {rootDir p : Bytes} (hroot : Rooted rootDir)
    (hhead : p.head? ≠ some slash) (hcolon : p[1]? ≠ some 58) : ¬ rootDir <+: p := by
  rintro ⟨rest, rfl⟩
  rcases hroot with h | h
  · refine hhead ?_
    rw [List.head?_append, h]
    rfl
  · refine hcolon ?_
    rw [List.getElem?_append_left, h]
    by_contra hlen
    rw [List.getElem?_eq_none (Nat.not_lt.mp hlen)] at h
    cases h

section Targets

variable {D : DirNode} {K : NameCoder} {chainedNameIV : Bool}

lemma not_prefix_marked (hroot : Rooted D.rootDir) {e name : Bytes} {iv iv' : Option UInt64}
    (h : (K.naming chainedNameIV).encodeName name iv = .ok (e, iv')) : ¬ D.rootDir <+: plus :: e := by
  apply hroot.not_prefix
  · exact fun h => absurd (Option.some.inj h) (by decide)
  · intro hcolon
    have hmem : (58 : UInt8) ∈ e := List.mem_of_getElem? (i := 0) hcolon
    exact (NameCoder.encodeName_unmarked h 58 hmem).1.2 rfl

lemma plainPath_eq {p q : Bytes} (h : D.decodeTarget p = .ok q) : D.plainPath p = q := by
  rw [DirNode.plainPath, h]

lemma relativeCipherPath_eq {p q : Bytes} (h : D.encodeTarget p = .ok q) :
    D.relativeCipherPath p = q := by
  rw [DirNode.relativeCipherPath, h]

lemma decodeTarget_relative {p : Bytes} (hroot : ¬ D.rootDir <+: p) (hmark : p.head? ≠ some plus) :
    D.decodeTarget p = D.naming.decodePath p := by
  refine (if_neg hroot).trans ?_
  cases p with
  | nil => rfl
  | cons c p => exact if_neg fun h => hmark (congrArg some h)

lemma decodeTarget_marked {p : Bytes} (hroot : ¬ D.rootDir <+: plus :: p) :
    D.decodeTarget (plus :: p) = (D.naming.decodeNameString p).map (slash :: ·) := by
  refine (if_neg hroot).trans ((if_pos rfl).trans ?_)
  cases D.naming.decodeNameString p with
  | error e => rfl
  | ok name => rfl

lemma encodeTarget_absolute (p : Bytes) :
    D.encodeTarget (slash :: p) = (D.naming.encodeNameString p).map (plus :: ·) := by
  rw [DirNode.encodeTarget, if_pos rfl]
  cases D.naming.encodeNameString p with
  | error e => rfl
  | ok name => rfl

lemma plainPath_relative (hD : D.naming = K.naming chainedNameIV) (hK : K.Inverse)
    (hroot : Rooted D.rootDir) {p : Bytes} (hnull : (0 : UInt8) ∉ p)
    (hp : p.head? ≠ some slash) : D.plainPath (D.relativeCipherPath p) = p := by
  obtain ⟨q, iv', hiv, hrec, hback⟩ := NameIO.encodePathIV_ok (hK.lawful chainedNameIV)
    (NameCoder.forward K) hnull 0
  have hq := NameCoder.recodePath_unmarked p .nil hrec
  have henc : D.encodeTarget p = .ok q := by
    have hpath : D.naming.encodePath p = .ok q := by
      rw [hD, NameIO.encodePath, hiv]
      rfl
    cases p with
    | nil => exact hpath
    | cons c p =>
      have hc : c ≠ slash := fun h => hp (congrArg some h)
      exact (if_neg hc).trans hpath
  have hdec : D.decodeTarget q = .ok p := by
    have hstrip : p.dropWhile (· == slash) = p := by
      cases p with
      | nil => rfl
      | cons c p =>
        have hc : c ≠ slash := fun h => hp (congrArg some h)
        exact List.dropWhile_cons_of_neg (by simpa using hc)
    have hfree : ¬ D.rootDir <+: q := by
      apply hroot.not_prefix
      · exact fun h => hq.relative slash h rfl
      · exact fun h => (hq.chars 58 (List.mem_of_getElem? h)).2 rfl
    have hmark : q.head? ≠ some plus := fun h => (hq.chars plus (List.mem_of_mem_head? h)).1 rfl
    rw [decodeTarget_relative hfree hmark, hD, NameIO.decodePath, hback, hstrip]
    rfl
  rw [relativeCipherPath_eq henc, plainPath_eq hdec]

open NameIO in
lemma plainPath_absolute (hD : D.naming = K.naming chainedNameIV) (hK : K.Inverse)
    (hroot : Rooted D.rootDir) {p : Bytes} (hnull : (0 : UInt8) ∉ p)
    (hp : p ≠ [] ∨ ∃ B, K = .block B) : D.plainPath (D.relativeCipherPath (slash :: p)) = slash :: p := by
  obtain ⟨e, iv', h⟩ := hK.codes chainedNameIV hp none
  have hforward : D.naming.reverseEncryption = false := by rw [hD, NameCoder.forward]
  have hname : D.naming.encodeNameString p = .ok e := by
    have hnull : (0 : UInt8) ∉ e := fun hm => (h.plain 0 hm).1 rfl
    rw [encodeNameString, hforward, if_neg (by simp), hD, NameIO.recodeWhole, h.encode]
    change (if (e.length : ℤ) ≤ _ then pure (cString e) else _) = _
    rw [if_pos h.encoded_fits, NameIO.cString_eq hnull]
    rfl
  have hback : D.naming.decodeNameString e = .ok p := by
    rw [decodeNameString, hforward, if_neg (by simp), hD, NameIO.recodeWhole, h.decode]
    change (if (p.length : ℤ) ≤ _ then pure (cString p) else _) = _
    rw [if_pos h.name_fits, NameIO.cString_eq hnull]
    rfl
  have henc : D.encodeTarget (slash :: p) = .ok (plus :: e) := by
    rw [encodeTarget_absolute, hname]
    rfl
  have hdec : D.decodeTarget (plus :: e) = .ok (slash :: p) := by
    rw [decodeTarget_marked (not_prefix_marked hroot h.encode), hback]
    rfl
  rw [relativeCipherPath_eq henc, plainPath_eq hdec]

open StreamNameIO in
lemma empty_name {S : StreamNameIO} {bs : ℕ} (hC : S.cipher.NamesLawful bs) {e : Bytes}
    {iv' : Option UInt64} (h : S.encodeName [] none = .ok (e, iv')) :
    e.length = 3 ∧ (0 : UInt8) ∉ e ∧ S.decodeName e none = .error .nameTooSmall := by
  have hascii : ∃ src : Bytes, src.length = 2 ∧ e = bytesToAscii src := by
    rw [encodeName] at h
    split at h
    · cases h
    · refine ⟨_, ?_, (Prod.mk.inj (Except.ok.inj h)).1.symm⟩
      split
      · rw [List.length_append, hC.streamEncode_length]
        rfl
      · rw [List.length_append, hC.streamEncode_length]
        rfl
  obtain ⟨src, hlen, rfl⟩ := hascii
  have hne : src ≠ [] := List.ne_nil_of_length_pos (by omega)
  have hthree : (bytesToAscii src).length = 3 := by
    rw [bytesToAscii_length hne, hlen]
    rfl
  refine ⟨hthree, fun hm => (bytesToAscii_plain hne hm).1 rfl, ?_⟩
  rw [decodeName, hthree]
  rfl

lemma plainPath_root {S : StreamNameIO} (hD : D.naming = NameCoder.naming chainedNameIV (.stream S))
    (hK : (NameCoder.stream S).Inverse) (hroot : Rooted D.rootDir) :
    D.plainPath (D.relativeCipherPath [slash]) = [] := by
  obtain ⟨bs, hC⟩ := hK
  have hforward : D.naming.reverseEncryption = false := by rw [hD, NameCoder.forward]
  have hcode : D.naming.encodeName [] none = S.encodeName [] none := by rw [hD]; rfl
  have hdecode (e : Bytes) : D.naming.decodeName e none = S.decodeName e none := by rw [hD]; rfl
  have hmax : D.naming.maxEncodedNameLen 0 = 3 := by rw [hD]; rfl
  cases hempty : S.encodeName [] none with
  | error err =>
    have henc : D.encodeTarget [slash] = .error err := by
      rw [encodeTarget_absolute, NameIO.encodeNameString, hforward, if_neg (by simp),
        NameIO.recodeWhole, hcode, hempty]
      rfl
    have hdec : D.decodeTarget [] = .ok [] := by
      rw [decodeTarget_relative (hroot.not_prefix (by simp) (by simp)) (by simp),
        NameIO.decodePath, NameIO.decodePathIV, hforward, if_neg (by simp), NameIO.backwardPath,
        NameIO.recodePath_nil]
      rfl
    rw [DirNode.relativeCipherPath, henc, plainPath_eq hdec]
  | ok r =>
    obtain ⟨e, iv'⟩ := r
    obtain ⟨hthree, hnull, hshort⟩ := empty_name hC hempty
    have henc : D.encodeTarget [slash] = .ok (plus :: e) := by
      rw [encodeTarget_absolute, NameIO.encodeNameString, hforward, if_neg (by simp),
        NameIO.recodeWhole, hcode, hempty]
      change Except.map _ (if (e.length : ℤ) ≤ D.naming.maxEncodedNameLen 0
        then pure (cString e) else _) = _
      rw [if_pos (by rw [hmax, hthree]; decide), NameIO.cString_eq hnull]
      rfl
    have hdec : D.decodeTarget (plus :: e) = .error .nameTooSmall := by
      have hencode : ((NameCoder.stream S).naming chainedNameIV).encodeName [] none = .ok (e, iv') :=
        hempty
      rw [decodeTarget_marked (not_prefix_marked hroot hencode), NameIO.decodeNameString, hforward, if_neg (by simp),
        NameIO.recodeWhole, hdecode, hshort]
      rfl
    rw [relativeCipherPath_eq henc, DirNode.plainPath, hdec]

/-- The target of a link comes back, unless it is the root and names are coded as streams. -/
theorem link_targets (hD : D.naming = K.naming chainedNameIV) (hK : K.Inverse)
    (hroot : Rooted D.rootDir) {p : Bytes} (hnull : (0 : UInt8) ∉ p) :
    D.plainPath (D.relativeCipherPath p) = p ↔ p ≠ [slash] ∨ ∃ B, K = .block B := by
  by_cases hp : p.head? = some slash
  · cases p with
    | nil => cases hp
    | cons c p =>
      obtain rfl := Option.some.inj hp
      have hnull' : (0 : UInt8) ∉ p := fun h => hnull (List.mem_cons_of_mem _ h)
      constructor
      · intro h
        by_contra hnot
        obtain ⟨hroot', hstream⟩ := not_or.mp hnot
        obtain rfl : p = [] := by simpa using hroot'
        cases K with
        | stream S =>
          rw [plainPath_root hD hK hroot] at h
          cases h
        | block B => exact hstream ⟨B, rfl⟩
      · intro h
        refine plainPath_absolute hD hK hroot hnull' (h.imp_left fun hne hnil => hne ?_)
        rw [hnil]
  · refine iff_of_true (plainPath_relative hD hK hroot hnull hp) (.inl ?_)
    rintro rfl
    exact hp rfl

end Targets

def streamVolume : DirNode :=
  ⟨[47, 114, 47], (NameCoder.stream NameIO.maskStreamNames).naming true⟩

lemma streamVolume_inverse : (NameCoder.stream NameIO.maskStreamNames).Inverse :=
  ⟨8, NameIO.maskCipher_namesLawful 8⟩

theorem not_link_targets :
    streamVolume.plainPath (streamVolume.relativeCipherPath [slash]) ≠ [slash] := by
  have h : streamVolume.plainPath (streamVolume.relativeCipherPath [slash]) = [] :=
    plainPath_root rfl streamVolume_inverse (.inl rfl)
  rw [h]
  exact (List.cons_ne_nil _ _).symm

theorem link_targets_streamVolume :
    streamVolume.plainPath (streamVolume.relativeCipherPath [47, 97]) = [47, 97] :=
  (link_targets rfl streamVolume_inverse (.inl rfl) (by decide)).mpr (.inl (by decide))

end EncFS
