import EncFS.DirNode
import EncFS.NameIO.Coders
import Mathlib.Data.List.Forall2

set_option autoImplicit false

namespace EncFS

def Boundary (path : Bytes) : Prop :=
  ∀ c ∈ path.head?, c = slash

lemma boundary_nil : Boundary [] := fun _ h => by cases h

lemma boundary_slash (path : Bytes) : Boundary (slash :: path) :=
  fun _ h => (Option.some.inj h).symm

lemma Boundary.append {p q : Bytes} (hp : Boundary p) (hq : Boundary q) : Boundary (p ++ q) := by
  cases p with
  | nil => exact hq
  | cons c p => exact hp

section Components

variable {name rest : Bytes}

lemma firstComponent_append (hname : slash ∉ name) (hrest : Boundary rest) :
    firstComponent (name ++ rest) = name := by
  rw [firstComponent, List.takeWhile_append_of_pos]
  · cases rest with
    | nil => rw [List.takeWhile_nil, List.append_nil]
    | cons c rest =>
      have hc : c = slash := hrest c rfl
      rw [hc, List.takeWhile_cons_of_neg (by simp), List.append_nil]
  · intro c hc
    have : c ≠ slash := fun h => hname (h ▸ hc)
    simpa using this

lemma afterComponent_append (hname : slash ∉ name) (hrest : Boundary rest) :
    afterComponent (name ++ rest) = rest := by
  rw [afterComponent, List.dropWhile_append_of_pos]
  · cases rest with
    | nil => rfl
    | cons c rest =>
      have hc : c = slash := hrest c rfl
      rw [hc, List.dropWhile_cons_of_neg (by simp)]
  · intro c hc
    have : c ≠ slash := fun h => hname (h ▸ hc)
    simpa using this

lemma afterComponent_boundary (path : Bytes) : Boundary (afterComponent path) := by
  intro c hc
  have := List.head?_dropWhile_not (· != slash) path
  rw [afterComponent] at hc
  rw [Option.mem_def.mp hc] at this
  simpa using this

lemma firstComponent_no_slash (path : Bytes) : slash ∉ firstComponent path := by
  intro h
  have := List.mem_takeWhile_imp h
  simp at this

theorem path_induction {P : Bytes → Prop} (nil : P [])
    (slashed : ∀ path, P path → P (slash :: path))
    (component : ∀ name rest, name ≠ [] → slash ∉ name → Boundary rest → P rest → P (name ++ rest))
    (path : Bytes) : P path := by
  induction hn : path.length using Nat.strongRecOn generalizing path with
  | ind n ih =>
    cases path with
    | nil => exact nil
    | cons c path =>
      by_cases hc : c = slash
      · subst hc
        exact slashed path (ih path.length (by rw [← hn]; exact Nat.lt_succ_self _) path rfl)
      · have hrest := ih _ (hn ▸ afterComponent_length_lt hc) (afterComponent (c :: path)) rfl
        have hname : firstComponent (c :: path) ≠ [] := by
          rw [firstComponent, List.takeWhile_cons_of_pos (by simpa using hc)]
          exact List.cons_ne_nil _ _
        have := component _ _ hname (firstComponent_no_slash _) (afterComponent_boundary _) hrest
        rwa [firstComponent, afterComponent, List.takeWhile_append_dropWhile] at this

end Components

namespace NameIO

section Recode

variable (length : ℕ → ℤ) (code : NameCoding)

@[simp] lemma recodePath_nil (iv : Option UInt64) (output : Bytes) :
    recodePath length code [] iv output = pure (output, iv) := by
  rw [recodePath]

lemma recodePath_slash (path : Bytes) (iv : Option UInt64) (output : Bytes) :
    recodePath length code (slash :: path) iv output =
      recodePath length code path iv (if output = [] then [] else output ++ [slash]) := by
  rw [recodePath, if_pos rfl]

def codeComponent : NameCoding := fun name iv =>
  if isDots name then pure (name, iv) else recodeName length code name iv

lemma recodePath_component {name rest : Bytes} (hne : name ≠ []) (hname : slash ∉ name)
    (hrest : Boundary rest) (iv : Option UInt64) (output : Bytes) :
    recodePath length code (name ++ rest) iv output = (do
      let (coded, iv) ← codeComponent length code name iv
      recodePath length code rest iv (output ++ coded)) := by
  have hfirst := firstComponent_append hname hrest
  have hafter := afterComponent_append hname hrest
  cases name with
  | nil => exact absurd rfl hne
  | cons c name =>
    have hc : c ≠ slash := fun h => hname (h ▸ List.mem_cons_self)
    rw [List.cons_append] at hfirst hafter ⊢
    rw [recodePath, if_neg hc]
    simp only [hfirst, hafter, codeComponent]
    split <;> rfl

lemma recodePath_append (p : Bytes) {q : Bytes} (hq : Boundary q) (iv : Option UInt64)
    (output : Bytes) :
    recodePath length code (p ++ q) iv output = (do
      let (output, iv) ← recodePath length code p iv output
      recodePath length code q iv output) := by
  induction p using path_induction generalizing iv output with
  | nil =>
    rw [List.nil_append, recodePath_nil]
    rfl
  | slashed p ih => rw [List.cons_append, recodePath_slash, recodePath_slash, ih]
  | component name rest hne hname hrest ih =>
    rw [List.append_assoc, recodePath_component length code hne hname (hrest.append hq),
      recodePath_component length code hne hname hrest]
    cases codeComponent length code name iv with
    | error e => rfl
    | ok r => exact ih _ _

end Recode

section Names

variable {N : NameIO} {iv iv' : Option UInt64} {name encoded : Bytes}

lemma cString_eq {buf : Bytes} (h : (0 : UInt8) ∉ buf) : cString buf = buf := by
  refine List.takeWhile_eq_self_iff.mpr fun c hc => ?_
  have : c ≠ 0 := fun hz => h (hz ▸ hc)
  simpa using this

lemma Codes.recode_encode (h : N.Codes iv name encoded iv') :
    recodeName N.maxEncodedNameLen N.encodeName name iv = .ok (encoded, iv') := by
  have hpos := List.length_pos_iff.mpr h.ne_nil
  have hfits := h.encoded_fits
  have hnull : (0 : UInt8) ∉ encoded := fun hm => (h.plain 0 hm).1 rfl
  rw [recodeName, if_neg (by omega), h.encode]
  change (if (encoded.length : ℤ) ≤ _ then pure (cString encoded, iv') else _) = _
  rw [if_pos hfits, cString_eq hnull]
  rfl

lemma Codes.recode_decode (h : N.Codes iv name encoded iv') (hname : ValidName name) :
    recodeName N.maxDecodedNameLen N.decodeName encoded iv = .ok (name, iv') := by
  have hpos := List.length_pos_iff.mpr hname.ne_nil
  have hfits := h.name_fits
  rw [recodeName, if_neg (by omega), h.decode]
  change (if (name.length : ℤ) ≤ _ then pure (cString name, iv') else _) = _
  rw [if_pos hfits, cString_eq hname.no_null]
  rfl

lemma PlainChars.no_slash (h : PlainChars name) : slash ∉ name :=
  fun hm => (h slash hm).2.2 rfl

lemma PlainChars.not_dots (h : PlainChars name) (hne : name ≠ []) : isDots name = false := by
  cases name with
  | nil => exact absurd rfl hne
  | cons c name =>
    have hc : c ≠ dot := (h c List.mem_cons_self).2.1
    simp [isDots, hc]

end Names

section RoundTrip

variable {N : NameIO} (hN : N.Lawful)
include hN

lemma component_codes {name : Bytes} (hne : name ≠ []) (hname : slash ∉ name)
    (hnull : (0 : UInt8) ∉ name) (iv : Option UInt64) :
    ∃ e iv', codeComponent N.maxEncodedNameLen N.encodeName name iv = .ok (e, iv') ∧
      codeComponent N.maxDecodedNameLen N.decodeName e iv = .ok (name, iv') ∧
      e ≠ [] ∧ slash ∉ e ∧ iv'.isSome = iv.isSome := by
  cases hdots : isDots name with
  | true =>
    refine ⟨name, iv, ?_, ?_, hne, hname, rfl⟩
    · rw [codeComponent, if_pos hdots]
      rfl
    · rw [codeComponent, if_pos hdots]
      rfl
  | false =>
    obtain ⟨e, iv', h⟩ := hN iv name ⟨hne, hname, hnull, hdots⟩
    have hdots' := PlainChars.not_dots h.plain h.ne_nil
    refine ⟨e, iv', ?_, ?_, h.ne_nil, PlainChars.no_slash h.plain, h.iv_isSome⟩
    · rw [codeComponent, if_neg (by simp [hdots]), h.recode_encode]
    · rw [codeComponent, if_neg (by simp [hdots']), h.recode_decode ⟨hne, hname, hnull, hdots⟩]

lemma recodePath_recodePath (p : Bytes) (hnull : (0 : UInt8) ∉ p) (iv : Option UInt64)
    (output output' : Bytes) (hout : output = [] ↔ output' = []) :
    ∃ q iv', recodePath N.maxEncodedNameLen N.encodeName p iv output = .ok (output ++ q, iv') ∧
      recodePath N.maxDecodedNameLen N.decodeName q iv output' =
        .ok (output' ++ (if output = [] then p.dropWhile (· == slash) else p), iv') ∧
      (output ≠ [] → Boundary p → Boundary q) ∧ iv'.isSome = iv.isSome := by
  induction p using path_induction generalizing iv output output' with
  | nil =>
    refine ⟨[], iv, ?_, ?_, fun _ _ => boundary_nil, rfl⟩
    · rw [recodePath_nil, List.append_nil]
      rfl
    · rw [recodePath_nil, List.dropWhile_nil, ite_self, List.append_nil]
      rfl
  | slashed p ih =>
    have hnull' : (0 : UInt8) ∉ p := fun h => hnull (List.mem_cons_of_mem _ h)
    by_cases hempty : output = []
    · have hempty' := hout.mp hempty
      obtain ⟨q, iv', henc, hdec, -, hiv⟩ := ih hnull' iv [] [] Iff.rfl
      subst hempty hempty'
      refine ⟨q, iv', ?_, ?_, fun h => absurd rfl h, hiv⟩
      · rw [recodePath_slash, if_pos rfl, henc]
      · rw [hdec, if_pos rfl, if_pos rfl, List.dropWhile_cons_of_pos (by simp)]
    · have hempty' : output' ≠ [] := fun h => hempty (hout.mpr h)
      obtain ⟨q, iv', henc, hdec, -, hiv⟩ :=
        ih hnull' iv (output ++ [slash]) (output' ++ [slash]) (by simp)
      rw [if_neg (by simp)] at hdec
      refine ⟨slash :: q, iv', ?_, ?_, fun _ _ => boundary_slash q, hiv⟩
      · rw [recodePath_slash, if_neg hempty, henc, List.append_assoc]
        rfl
      · rw [recodePath_slash, if_neg hempty', hdec, if_neg hempty, List.append_assoc]
        rfl
  | component name rest hne hname hrest ih =>
    have hnull₁ : (0 : UInt8) ∉ name := fun h => hnull (List.mem_append_left _ h)
    have hnull₂ : (0 : UInt8) ∉ rest := fun h => hnull (List.mem_append_right _ h)
    obtain ⟨e, iv₁, henc, hdec, he, hs, hiv₁⟩ := component_codes hN hne hname hnull₁ iv
    obtain ⟨q, iv', henc', hdec', hq, hiv'⟩ :=
      ih hnull₂ iv₁ (output ++ e) (output' ++ name) (by simp [he, hne])
    rw [if_neg (by simp [he])] at hdec'
    have hq := hq (by simp [he]) hrest
    obtain ⟨c, hhead, hc⟩ : ∃ c, (name ++ rest).head? = some c ∧ c ≠ slash := by
      cases name with
      | nil => exact absurd rfl hne
      | cons c name => exact ⟨c, rfl, fun h => hname (h ▸ List.mem_cons_self)⟩
    have hstrip : (name ++ rest).dropWhile (· == slash) = name ++ rest := by
      cases name with
      | nil => exact absurd rfl hne
      | cons d name =>
        rw [List.cons_append] at hhead ⊢
        rw [Option.some.inj hhead]
        exact List.dropWhile_cons_of_neg (by simpa using hc)
    refine ⟨e ++ q, iv', ?_, ?_, fun _ h => absurd (h c hhead) hc, hiv'.trans hiv₁⟩
    · rw [recodePath_component _ _ hne hname hrest, henc]
      exact henc'.trans (by rw [List.append_assoc])
    · rw [recodePath_component _ _ he hs hq, hdec, hstrip, ite_self]
      exact hdec'.trans (by rw [List.append_assoc])

end RoundTrip

def childPath (dir name : Bytes) : Bytes :=
  if dir = [] then name else dir ++ slash :: name

lemma childPath_injective (dir : Bytes) : Function.Injective (childPath dir) := by
  intro e e' h
  rw [childPath, childPath] at h
  split at h
  · exact h
  · exact List.tail_eq_of_cons_eq (List.append_cancel_left h)

inductive Entry (N : NameIO) (iv : UInt64) (name : Bytes) : Bytes → Prop
  | dots (h : isDots name = true) : Entry N iv name name
  | name {e : Bytes} {iv' : Option UInt64} (h : ValidName name)
      (code : N.encodeName name (N.chained iv) = .ok (e, iv')) : Entry N iv name e

lemma isDots_iff {name : Bytes} : isDots name = true ↔ name = [dot] ∨ name = [dot, dot] := by
  rcases name with _ | ⟨a, _ | ⟨b, _ | ⟨c, name⟩⟩⟩ <;> simp [isDots]

lemma chained_getD {N : NameIO} {iv : UInt64} {iv' : Option UInt64}
    (h : iv'.isSome = (N.chained iv).isSome) : N.chained (iv'.getD iv) = iv' := by
  rw [chained] at h ⊢
  cases hc : N.chainedNameIV with
  | true =>
    rw [hc, if_pos rfl, Option.isSome_some, Option.isSome_iff_exists] at h
    obtain ⟨v, rfl⟩ := h
    rfl
  | false =>
    rw [hc, if_neg (by simp), Option.isSome_none, Option.isSome_eq_false_iff,
      Option.isNone_iff_eq_none] at h
    rw [h, if_neg (by simp)]

section Paths

variable {N : NameIO} (hN : N.Lawful) (hforward : N.reverseEncryption = false)
include hN hforward

lemma encodePathIV_ok {p : Bytes} (hnull : (0 : UInt8) ∉ p) (iv : UInt64) :
    ∃ q iv', N.encodePathIV p iv = .ok (q, iv') ∧
      recodePath N.maxEncodedNameLen N.encodeName p (N.chained iv) [] = .ok (q, N.chained iv') ∧
      N.decodePathIV q iv = .ok (p.dropWhile (· == slash), iv') := by
  obtain ⟨q, iv', henc, hdec, -, hiv⟩ :=
    recodePath_recodePath hN p hnull (N.chained iv) [] [] Iff.rfl
  rw [List.nil_append] at henc
  rw [if_pos rfl, List.nil_append] at hdec
  refine ⟨q, iv'.getD iv, ?_, ?_, ?_⟩
  · rw [encodePathIV, hforward, if_neg (by simp), forwardPath, henc]
    rfl
  · rw [henc, chained_getD hiv]
  · rw [decodePathIV, hforward, if_neg (by simp), backwardPath, hdec]
    rfl

lemma encodePathIV_component {d q name e : Bytes} {iv : UInt64} {iv' : Option UInt64}
    (hnull : (0 : UInt8) ∉ d) (hd : N.encodePathIV d 0 = .ok (q, iv)) (hne : name ≠ [])
    (hname : slash ∉ name) (he : codeComponent N.maxEncodedNameLen N.encodeName name
      (N.chained iv) = .ok (e, iv')) :
    N.encodePathIV (d ++ slash :: name) 0 = .ok (childPath q e, iv'.getD 0) := by
  obtain ⟨q', iv₁, hq', hrec, -⟩ := encodePathIV_ok hN hforward hnull 0
  rw [hd] at hq'
  obtain ⟨rfl, rfl⟩ := Prod.mk.inj (Except.ok.inj hq')
  have hcomp := recodePath_component N.maxEncodedNameLen N.encodeName hne hname boundary_nil
    (N.chained iv) (if q = [] then [] else q ++ [slash])
  rw [List.append_nil, he] at hcomp
  have hfull : recodePath N.maxEncodedNameLen N.encodeName (d ++ slash :: name) (N.chained 0) [] =
      .ok (childPath q e, iv') := by
    rw [recodePath_append _ _ d (boundary_slash name), hrec]
    change recodePath N.maxEncodedNameLen N.encodeName (slash :: name) (N.chained iv) q = _
    rw [recodePath_slash, hcomp]
    change recodePath N.maxEncodedNameLen N.encodeName [] iv' _ = _
    rw [recodePath_nil, childPath]
    split
    · rfl
    · rw [List.append_assoc]
      rfl
  rw [encodePathIV, hforward, if_neg (by simp), forwardPath, hfull]
  rfl

lemma encodePath_child {d q name e : Bytes} {iv : UInt64} {iv' : Option UInt64}
    (hnull : (0 : UInt8) ∉ d) (hd : N.encodePathIV d 0 = .ok (q, iv)) (hne : name ≠ [])
    (hname : slash ∉ name) (he : codeComponent N.maxEncodedNameLen N.encodeName name
      (N.chained iv) = .ok (e, iv')) :
    N.encodePath (d ++ slash :: name) = .ok (childPath q e) := by
  rw [encodePath, encodePathIV_component hN hforward hnull hd hne hname he]
  rfl

omit hforward in
lemma Entry.component {iv : UInt64} {name e : Bytes} (h : N.Entry iv name e) :
    name ≠ [] ∧ slash ∉ name ∧ e ≠ [] ∧ slash ∉ e ∧ ∃ iv',
      codeComponent N.maxEncodedNameLen N.encodeName name (N.chained iv) = .ok (e, iv') ∧
      codeComponent N.maxDecodedNameLen N.decodeName e (N.chained iv) = .ok (name, iv') := by
  cases h with
  | dots h =>
    have hne : name ≠ [] ∧ slash ∉ name := by
      rcases isDots_iff.mp h with rfl | rfl <;> decide
    refine ⟨hne.1, hne.2, hne.1, hne.2, N.chained iv, ?_, ?_⟩
    · rw [codeComponent, if_pos h]
      rfl
    · rw [codeComponent, if_pos h]
      rfl
  | @name _ iv₁ h code =>
    obtain ⟨e', iv', hcodes⟩ := hN (N.chained iv) name h
    have heq := code.symm.trans hcodes.encode
    obtain ⟨rfl, rfl⟩ := Prod.mk.inj (Except.ok.inj heq)
    have hdots' := PlainChars.not_dots hcodes.plain hcodes.ne_nil
    refine ⟨h.ne_nil, h.no_slash, hcodes.ne_nil, PlainChars.no_slash hcodes.plain, iv₁, ?_, ?_⟩
    · rw [codeComponent, if_neg (by simp [h.not_dots]), hcodes.recode_encode]
    · rw [codeComponent, if_neg (by simp [hdots']), hcodes.recode_decode h]

lemma Entry.decode {iv : UInt64} {name e : Bytes} (h : N.Entry iv name e) :
    ∃ iv', N.decodePathIV e iv = .ok (name, iv') := by
  obtain ⟨-, -, hne, hslash, iv', -, hdec⟩ := h.component hN
  have hcomp := recodePath_component N.maxDecodedNameLen N.decodeName hne hslash boundary_nil
    (N.chained iv) []
  rw [List.append_nil, hdec] at hcomp
  refine ⟨iv'.getD iv, ?_⟩
  rw [decodePathIV, hforward, if_neg (by simp), backwardPath, hcomp]
  change (do
    let (output, iv') ← recodePath N.maxDecodedNameLen N.decodeName [] iv' ([] ++ name)
    pure (output, iv'.getD iv)) = _
  rw [recodePath_nil]
  rfl

lemma nextNames_entries {iv : UInt64} {names entries : List Bytes}
    (h : List.Forall₂ (N.Entry iv) names entries) {fuel : ℕ} (hfuel : entries.length < fuel) :
    DirTraverse.nextNames N iv fuel entries = names := by
  induction h generalizing fuel with
  | nil =>
    cases fuel with
    | zero => cases hfuel
    | succ fuel => rfl
  | @cons name e names entries hentry _ ih =>
    cases fuel with
    | zero => cases hfuel
    | succ fuel =>
      obtain ⟨iv', hdec⟩ := hentry.decode hN hforward
      have hne := (hentry.component hN).1
      rw [DirTraverse.nextNames, DirTraverse.nextPlaintextName, hdec]
      simp only [if_neg hne]
      rw [ih (Nat.lt_of_succ_lt_succ hfuel)]

omit hN hforward in
lemma exists_names {iv : UInt64} {entries : List Bytes}
    (h : ∀ e ∈ entries, ∃ name, N.Entry iv name e) :
    ∃ names, List.Forall₂ (N.Entry iv) names entries := by
  induction entries with
  | nil => exact ⟨[], .nil⟩
  | cons e entries ih =>
    obtain ⟨name, hname⟩ := h e List.mem_cons_self
    obtain ⟨names, hnames⟩ := ih fun e' he' => h e' (List.mem_cons_of_mem e he')
    exact ⟨name :: names, .cons hname hnames⟩

lemma mem_names {iv : UInt64} {names entries : List Bytes}
    (h : List.Forall₂ (N.Entry iv) names entries) (name : Bytes) :
    name ∈ names ↔ ∃ e ∈ entries, N.Entry iv name e := by
  induction h with
  | nil => simp
  | @cons name' e names entries hentry _ ih =>
    rw [List.mem_cons, ih]
    constructor
    · rintro (rfl | ⟨e', he', hentry'⟩)
      · exact ⟨e, List.mem_cons_self, hentry⟩
      · exact ⟨e', List.mem_cons_of_mem e he', hentry'⟩
    · rintro ⟨e', he', hentry'⟩
      rcases List.mem_cons.mp he' with rfl | he'
      · obtain ⟨iv₁, h₁⟩ := hentry.decode hN hforward
        obtain ⟨iv₂, h₂⟩ := hentry'.decode hN hforward
        rw [h₁] at h₂
        exact .inl (Prod.mk.inj (Except.ok.inj h₂)).1.symm
      · exact .inr ⟨e', he', hentry'⟩

lemma decodePath_encodePath {p : Bytes} (hnull : (0 : UInt8) ∉ p) :
    ∃ q, N.encodePath p = .ok q ∧ N.decodePath q = .ok (p.dropWhile (· == slash)) := by
  obtain ⟨q, iv', henc, -, hdec⟩ := encodePathIV_ok hN hforward hnull 0
  refine ⟨q, ?_, ?_⟩
  · rw [encodePath, henc]
    rfl
  · rw [decodePath, hdec]
    rfl

lemma encodePath_name {d name q : Bytes} {iv : UInt64} (hnull : (0 : UInt8) ∉ d)
    (hname : ValidName name) (hd : N.encodePathIV d 0 = .ok (q, iv)) :
    N.encodePath (d ++ slash :: name) =
      (N.encodeName name (N.chained iv)).map fun r => childPath q r.1 := by
  obtain ⟨e, iv', hcodes⟩ := hN (N.chained iv) name hname
  have hentry : N.Entry iv name e := .name hname hcodes.encode
  obtain ⟨hne, hslash, -, -, iv₁, henc, -⟩ := hentry.component hN
  rw [encodePath_child hN hforward hnull hd hne hslash henc, hcodes.encode]
  rfl

lemma cipherPath_entry {D : DirNode} (hD : D.naming = N) {d name q e : Bytes} {iv : UInt64}
    (hnull : (0 : UInt8) ∉ d) (hd : N.encodePathIV d 0 = .ok (q, iv)) (h : N.Entry iv name e) :
    D.cipherPath (d ++ slash :: name) = .ok (D.rootDir ++ childPath q e) := by
  obtain ⟨hne, hslash, -, -, iv', henc, -⟩ := h.component hN
  rw [DirNode.cipherPath, hD, encodePath_child hN hforward hnull hd hne hslash henc]
  rfl

lemma entry_iff {D : DirNode} (hD : D.naming = N) {d name q e : Bytes} {iv : UInt64}
    (hnull : (0 : UInt8) ∉ d) (hd : N.encodePathIV d 0 = .ok (q, iv)) :
    N.Entry iv name e ↔ (isDots name = true ∨ ValidName name) ∧
      D.cipherPath (d ++ slash :: name) = .ok (D.rootDir ++ childPath q e) := by
  constructor
  · intro h
    refine ⟨?_, cipherPath_entry hN hforward hD hnull hd h⟩
    cases h with
    | dots h => exact .inl h
    | name h _ => exact .inr h
  · rintro ⟨hname, hpath⟩
    obtain ⟨e', hentry⟩ : ∃ e', N.Entry iv name e' := by
      rcases hname with hdots | hvalid
      · exact ⟨name, .dots hdots⟩
      · obtain ⟨e', iv', hcodes⟩ := hN (N.chained iv) name hvalid
        exact ⟨e', .name hvalid hcodes.encode⟩
    rw [cipherPath_entry hN hforward hD hnull hd hentry] at hpath
    rwa [← childPath_injective q (List.append_cancel_left (Except.ok.inj hpath))]

lemma openDir_names {D : DirNode} (hD : D.naming = N) {opendir : Bytes → Option (List Bytes)}
    {d q : Bytes} {iv : UInt64} {entries : List Bytes} (hnull : (0 : UInt8) ∉ d)
    (hd : N.encodePathIV d 0 = .ok (q, iv)) (hopen : opendir (D.rootDir ++ q) = some entries)
    (hentries : ∀ e ∈ entries, ∃ name, N.Entry iv name e) :
    ∃ t, D.openDir opendir d = .ok (some t) ∧ ∀ name, name ∈ t.plaintextNames ↔
      (isDots name = true ∨ ValidName name) ∧ ∃ e ∈ entries,
        D.cipherPath (d ++ slash :: name) = .ok (D.rootDir ++ childPath q e) := by
  have hchain : N.chained (if N.chainedNameIV then iv else 0) = N.chained iv := by
    cases hc : N.chainedNameIV <;> simp [chained, hc]
  have hentry {name e : Bytes} (h : N.Entry iv name e) :
      N.Entry (if N.chainedNameIV then iv else 0) name e := by
    cases h with
    | dots h => exact .dots h
    | name h code => exact .name h (hchain ▸ code)
  obtain ⟨names, hnames⟩ := exists_names hentries
  refine ⟨⟨entries, if N.chainedNameIV then iv else 0, N⟩, ?_, fun name => ?_⟩
  · have hpath : D.cipherPath d = .ok (D.rootDir ++ q) := by
      rw [DirNode.cipherPath, hD, encodePath, hd]
      rfl
    rw [DirNode.openDir, hpath]
    dsimp only [bind, Except.bind]
    rw [hopen, hD, hd]
    rfl
  · have hlist := nextNames_entries hN hforward (hnames.imp fun _ _ => hentry)
      (Nat.lt_succ_self entries.length)
    rw [DirTraverse.plaintextNames, hlist, mem_names hN hforward hnames]
    simp only [entry_iff hN hforward hD hnull hd]
    constructor
    · rintro ⟨e, he, hname, hpath⟩
      exact ⟨hname, e, he, hpath⟩
    · rintro ⟨hname, e, he, hpath⟩
      exact ⟨e, he, hname, hpath⟩

end Paths

/-- The two coders at the interface versions that they support, with chaining or without. -/
inductive Supported : NameIO → Prop
  | stream (S : StreamNameIO) (bs : ℕ) (cipher : S.cipher.NamesLawful bs)
      (interface : S.interface ≤ 2) (chainedNameIV : Bool) : Supported (S.nameIO chainedNameIV false)
  | block (B : BlockNameIO) (cipher : B.cipher.NamesLawful B.bs)
      (interface : B.interface = 2 ∨ B.interface = 3) (chainedNameIV : Bool) :
      Supported (B.nameIO chainedNameIV false)

lemma Supported.lawful {N : NameIO} (h : N.Supported) : N.Lawful := by
  cases h with
  | stream S bs cipher _ chainedNameIV => exact stream_lawful S cipher chainedNameIV false
  | block B cipher _ chainedNameIV => exact block_lawful B cipher chainedNameIV false

lemma Supported.forward {N : NameIO} (h : N.Supported) : N.reverseEncryption = false := by
  cases h <;> rfl

/-- Paths come back from their encodings, a name is encoded after its directory, and the listing of a
directory has the names whose paths lead to its entries. -/
theorem path_coding {N : NameIO} (h : N.Supported) :
    (∀ p, (0 : UInt8) ∉ p →
      ∃ q, N.encodePath p = .ok q ∧ N.decodePath q = .ok (p.dropWhile (· == slash))) ∧
    (∀ d name, (0 : UInt8) ∉ d → ValidName name → ∃ q iv, N.encodePathIV d 0 = .ok (q, iv) ∧
      N.encodePath (d ++ slash :: name) =
        (N.encodeName name (N.chained iv)).map fun r => childPath q r.1) ∧
    (∀ (D : DirNode) (opendir : Bytes → Option (List Bytes)) (d q : Bytes) (iv : UInt64)
      (entries : List Bytes), D.naming = N → (0 : UInt8) ∉ d → N.encodePathIV d 0 = .ok (q, iv) →
      opendir (D.rootDir ++ q) = some entries → (∀ e ∈ entries, ∃ name, N.Entry iv name e) →
      ∃ t, D.openDir opendir d = .ok (some t) ∧ ∀ name, name ∈ t.plaintextNames ↔
        (isDots name = true ∨ ValidName name) ∧ ∃ e ∈ entries,
          D.cipherPath (d ++ slash :: name) = .ok (D.rootDir ++ childPath q e)) := by
  have hN := h.lawful
  have hforward := h.forward
  refine ⟨fun p hnull => decodePath_encodePath hN hforward hnull, fun d name hnull hname => ?_,
    fun D opendir d q iv entries hD hnull hd hopen hentries =>
      openDir_names hN hforward hD hnull hd hopen hentries⟩
  obtain ⟨q, iv, hd, -, -⟩ := encodePathIV_ok hN hforward hnull 0
  exact ⟨q, iv, hd, encodePath_name hN hforward hnull hname hd⟩

lemma maskCipher_namesLawful (bs : ℕ) : maskCipher.NamesLawful bs where
  streamEncode_length _ _ := List.length_map _
  streamDecode_streamEncode _ d := mask_mask _ d
  blockEncode_length _ _ _ := List.length_map _
  blockDecode_blockEncode _ d _ := mask_mask _ d

def maskStreamNames : StreamNameIO where
  interface := 2
  cipher := maskCipher

lemma maskStreamNames_dir : (maskStreamNames.nameIO true false).encodePathIV [47, 97] 0 =
    .ok ([45, 99, 49, 74], 314) := by
  have hcode : codeComponent (maskStreamNames.nameIO true false).maxEncodedNameLen
      (maskStreamNames.nameIO true false).encodeName [97] (some 0) = .ok ([45, 99, 49, 74], some 314) := by
    decide +kernel
  have hrec := recodePath_component (maskStreamNames.nameIO true false).maxEncodedNameLen
    (maskStreamNames.nameIO true false).encodeName (List.cons_ne_nil 97 []) (by decide) boundary_nil (some 0) []
  rw [hcode] at hrec
  change (do
    let (output, iv') ← recodePath _ _ (slash :: [97]) (some 0) []
    pure (output, iv'.getD 0)) = _
  rw [recodePath_slash]
  change (do
    let (output, iv') ← recodePath _ _ ([97] ++ []) (some 0) []
    pure (output, iv'.getD 0)) = _
  rw [hrec]
  change (do
    let (output, iv') ← recodePath _ _ [] (some 314) [45, 99, 49, 74]
    pure (output, iv'.getD 0)) = _
  rw [recodePath_nil]
  rfl

theorem path_coding_maskStreamNames :
    (∃ q, (maskStreamNames.nameIO true false).encodePath
        [47, 47, 97, 47, 46, 46, 47, 98, 99, 47] = .ok q ∧
      (maskStreamNames.nameIO true false).decodePath q =
        .ok [97, 47, 46, 46, 47, 98, 99, 47]) ∧
    (∃ q iv, (maskStreamNames.nameIO true false).encodePathIV [47, 97] 0 = .ok (q, iv) ∧
      (maskStreamNames.nameIO true false).encodePath [47, 97, 47, 98, 99] =
        ((maskStreamNames.nameIO true false).encodeName [98, 99]
          ((maskStreamNames.nameIO true false).chained iv)).map fun r => childPath q r.1) ∧
    ∃ t, (DirNode.mk [47, 114, 47] (maskStreamNames.nameIO true false)).openDir
        (fun _ => some [[46], [45, 80, 73, 50, 69, 44]]) [47, 97] = .ok (some t) ∧
      ∀ name, name ∈ t.plaintextNames ↔ (isDots name = true ∨ ValidName name) ∧
        ∃ e ∈ [[46], [45, 80, 73, 50, 69, 44]],
          (DirNode.mk [47, 114, 47] (maskStreamNames.nameIO true false)).cipherPath
            ([47, 97] ++ slash :: name) = .ok ([47, 114, 47] ++ childPath [45, 99, 49, 74] e) := by
  have hnames : (maskStreamNames.nameIO true false).Supported :=
    .stream maskStreamNames 8 (maskCipher_namesLawful 8) (by decide) true
  have hvalid : ValidName [98, 99] := ⟨by decide, by decide, by decide, by decide⟩
  obtain ⟨hround, hname, hdir⟩ := path_coding hnames
  refine ⟨hround _ (by decide), hname [47, 97] _ (by decide) hvalid,
    hdir _ _ [47, 97] [45, 99, 49, 74] 314 _ rfl (by decide) maskStreamNames_dir rfl ?_⟩
  intro e he
  rcases List.mem_cons.mp he with rfl | he
  · exact ⟨_, .dots (by decide)⟩
  · obtain rfl := List.mem_singleton.mp he
    exact ⟨[98, 99], @Entry.name _ _ _ _ (some 311618) hvalid (by decide +kernel)⟩

end NameIO

end EncFS
