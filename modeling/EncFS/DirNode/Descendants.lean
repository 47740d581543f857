import EncFS.DirNode.Rename
import EncFS.NameIO.PathCoding

set_option autoImplicit false

namespace EncFS

open NameIO (childPath)

lemma Boundary.left {p q : Bytes} (h : Boundary (p ++ q)) : Boundary p := by
  cases p with
  | nil => exact boundary_nil
  | cons c p => exact h

section Components

@[simp] lemma components_nil : components [] = [] := rfl

lemma components_append (p q : Bytes) :
    components (p ++ slash :: q) = components p ++ components q := by
  simp [components, List.splitOn_eq_splitOnP, List.splitOnP_append_cons]

lemma components_name {e : Bytes} (hne : e ≠ []) (hslash : slash ∉ e) : components e = [e] := by
  rw [components, List.splitOn_eq_splitOnP, List.splitOnP_eq_singleton]
  · simp [hne]
  · intro c hc
    simpa using fun h : c = slash => hslash (h ▸ hc)

@[simp] lemma components_slash (p : Bytes) : components (slash :: p) = components p := by
  rw [← List.nil_append (slash :: p), components_append]
  rfl

lemma components_cons {e rest : Bytes} (hne : e ≠ []) (hslash : slash ∉ e) (hrest : Boundary rest) :
    components (e ++ rest) = e :: components rest := by
  cases rest with
  | nil =>
    rw [List.append_nil, components_name hne hslash]
    rfl
  | cons c rest =>
    rw [hrest c rfl, components_append, components_name hne hslash, components_slash]
    rfl

lemma components_of_slash_end {root : Bytes} (hroot : root.getLast? = some slash) (q : Bytes) :
    components (root ++ q) = components root ++ components q := by
  obtain ⟨r, rfl⟩ := List.getLast?_eq_some_iff.mp hroot
  have hself : components (r ++ [slash]) = components r := by
    rw [components_append, components_nil, List.append_nil]
  rw [List.append_assoc, List.singleton_append, components_append, hself]

lemma components_childPath (q : Bytes) {e : Bytes} (hne : e ≠ []) (hslash : slash ∉ e) :
    components (childPath q e) = components q ++ [e] := by
  rw [childPath]
  split
  · rename_i h
    rw [h, components_nil, components_name hne hslash]
    rfl
  · rw [components_append, components_name hne hslash]

end Components

def below (p : Bytes) (names : List Bytes) : Bytes := p ++ names.flatMap fun n => slash :: n

section Below

variable {p q n : Bytes} {x y : List Bytes}

@[simp] lemma below_nil : below p [] = p := List.append_nil p

lemma below_cons : below p (n :: x) = below (p ++ slash :: n) x := by
  simp [below]

@[simp] lemma below_singleton : below p [n] = p ++ slash :: n := by
  rw [below_cons, below_nil]

lemma below_inj_left : below p x = below q x ↔ p = q :=
  List.append_left_inj _

lemma boundary_flatMap (x : List Bytes) : Boundary (x.flatMap fun n => slash :: n) := by
  cases x with
  | nil => exact boundary_nil
  | cons n x => exact boundary_slash _

lemma below_injective (hx : ∀ n ∈ x, slash ∉ n) (hy : ∀ n ∈ y, slash ∉ n)
    (h : below p x = below p y) : x = y := by
  have hflat := List.append_cancel_left h
  clear h
  induction x generalizing y with
  | nil =>
    cases y with
    | nil => rfl
    | cons m y => cases hflat
  | cons n x ih =>
    cases y with
    | nil => cases hflat
    | cons m y =>
      rw [List.flatMap_cons, List.flatMap_cons, List.cons_append, List.cons_append] at hflat
      have htail := List.tail_eq_of_cons_eq hflat
      have hn := hx n List.mem_cons_self
      have hm := hy m List.mem_cons_self
      have hfirst := congrArg firstComponent htail
      rw [firstComponent_append hn (boundary_flatMap x),
        firstComponent_append hm (boundary_flatMap y)] at hfirst
      subst hfirst
      rw [ih (fun k hk => hx k (List.mem_cons_of_mem _ hk))
        (fun k hk => hy k (List.mem_cons_of_mem _ hk)) (List.append_cancel_left htail)]

lemma below_ne (hx : x ≠ []) : below p x ≠ p := by
  intro h
  cases x with
  | nil => exact hx rfl
  | cons n x =>
    have hnil := List.append_right_eq_self.mp h
    cases hnil

end Below

namespace NameIO

variable {N : NameIO} (hN : N.Lawful) (hforward : N.reverseEncryption = false)
include hN hforward

lemma encodePathIV_unchained (hchain : N.chainedNameIV = false) {d q : Bytes} {iv : UInt64}
    (hnull : (0 : UInt8) ∉ d) (hd : N.encodePathIV d 0 = .ok (q, iv)) : iv = 0 := by
  rw [encodePathIV, hforward, if_neg (by simp), forwardPath] at hd
  obtain ⟨q', iv', hrec, -, -, hiv⟩ := recodePath_recodePath hN d hnull (N.chained 0) [] [] Iff.rfl
  have hnone : iv' = none := by simpa [chained, hchain] using hiv
  rw [hrec, hnone] at hd
  exact (Prod.mk.inj (Except.ok.inj hd)).2.symm

lemma encodePathIV_child {d q n : Bytes} {iv : UInt64} (hnull : (0 : UInt8) ∉ d)
    (hd : N.encodePathIV d 0 = .ok (q, iv)) (hn : ValidName n) :
    ∃ e iv₁, N.Entry iv n e ∧ e ≠ [] ∧ slash ∉ e ∧ isDots e = false ∧
      N.encodePathIV n iv = .ok (e, iv₁) ∧ N.decodePathIV e iv = .ok (n, iv₁) ∧
      N.encodePathIV (d ++ slash :: n) 0 = .ok (childPath q e, iv₁) := by
  obtain ⟨e, iv', hcodes⟩ := hN (N.chained iv) n hn
  have hentry : N.Entry iv n e := .name hn hcodes.encode
  have hslash := PlainChars.no_slash hcodes.plain
  have hdots := PlainChars.not_dots hcodes.plain hcodes.ne_nil
  have henc : codeComponent N.maxEncodedNameLen N.encodeName n (N.chained iv) = .ok (e, iv') := by
    rw [codeComponent, if_neg (by simp [hn.not_dots]), hcodes.recode_encode]
  have hdec : codeComponent N.maxDecodedNameLen N.decodeName e (N.chained iv) = .ok (n, iv') := by
    rw [codeComponent, if_neg (by simp [hdots]), hcodes.recode_decode hn]
  have hiv : iv'.getD 0 = iv'.getD iv := by
    cases hchain : N.chainedNameIV with
    | true =>
      have hsome : iv'.isSome = true := by simpa [chained, hchain] using hcodes.iv_isSome
      obtain ⟨v, rfl⟩ := Option.isSome_iff_exists.mp hsome
      rfl
    | false => rw [encodePathIV_unchained hN hforward hchain hnull hd]
  refine ⟨e, iv'.getD iv, hentry, hcodes.ne_nil, hslash, hdots, ?_, ?_, ?_⟩
  · have hrec := recodePath_component N.maxEncodedNameLen N.encodeName hn.ne_nil hn.no_slash
      boundary_nil (N.chained iv) []
    rw [List.append_nil, henc] at hrec
    rw [encodePathIV, hforward, if_neg (by simp), forwardPath, hrec]
    dsimp only [bind, Except.bind]
    rw [recodePath_nil]
    rfl
  · have hrec := recodePath_component N.maxDecodedNameLen N.decodeName hcodes.ne_nil hslash
      boundary_nil (N.chained iv) []
    rw [List.append_nil, hdec] at hrec
    rw [decodePathIV, hforward, if_neg (by simp), backwardPath, hrec]
    dsimp only [bind, Except.bind]
    rw [recodePath_nil]
    rfl
  · rw [← hiv]
    exact encodePathIV_component hN hforward hnull hd hn.ne_nil hn.no_slash henc

omit hN hforward in
variable (N) in
/-- The components of a path and of its encoding, with the IV before and after them. -/
inductive Walk : Option UInt64 → List Bytes → List Bytes → Option UInt64 → Prop
  | nil (iv : Option UInt64) : Walk iv [] [] iv
  | cons {iv iv₁ iv₂ : Option UInt64} {n e : Bytes} {x es : List Bytes}
      (encode : codeComponent N.maxEncodedNameLen N.encodeName n iv = .ok (e, iv₁))
      (decode : codeComponent N.maxDecodedNameLen N.decodeName e iv = .ok (n, iv₁))
      (rest : Walk iv₁ x es iv₂) : Walk iv (n :: x) (e :: es) iv₂

omit hN hforward in
lemma Walk.iv_eq {iv iv' : Option UInt64} {x : List Bytes} (h : N.Walk iv x [] iv') : iv' = iv := by
  cases h
  rfl

omit hforward in
lemma recodePath_walk {p : Bytes} (hnull : (0 : UInt8) ∉ p) {iv iv' : Option UInt64}
    {output q : Bytes}
    (h : recodePath N.maxEncodedNameLen N.encodeName p iv output = .ok (output ++ q, iv')) :
    N.Walk iv (components p) (components q) iv' := by
  induction p using path_induction generalizing iv output q with
  | nil =>
    rw [recodePath_nil] at h
    obtain ⟨hout, rfl⟩ := Prod.mk.inj (Except.ok.inj h)
    rw [List.self_eq_append_right.mp hout]
    exact .nil iv
  | slashed p ih =>
    have hnull' : (0 : UInt8) ∉ p := fun h => hnull (List.mem_cons_of_mem _ h)
    rw [recodePath_slash] at h
    rw [components_slash]
    by_cases hempty : output = []
    · rw [if_pos hempty, hempty] at h
      exact ih hnull' h
    · rw [if_neg hempty] at h
      obtain ⟨q', iv₁, hrec, -⟩ :=
        recodePath_recodePath hN p hnull' iv (output ++ [slash]) (output ++ [slash]) Iff.rfl
      rw [hrec] at h
      obtain ⟨hout, rfl⟩ := Prod.mk.inj (Except.ok.inj h)
      rw [List.append_assoc] at hout
      rw [← List.append_cancel_left hout, List.singleton_append, components_slash]
      exact ih hnull' hrec
  | component name rest hne hname hrest ih =>
    have hnull₁ : (0 : UInt8) ∉ name := fun h => hnull (List.mem_append_left _ h)
    have hnull₂ : (0 : UInt8) ∉ rest := fun h => hnull (List.mem_append_right _ h)
    obtain ⟨e, iv₁, henc, hdec, he, hs, -⟩ := component_codes hN hne hname hnull₁ iv
    obtain ⟨q', iv₂, hrec, -, hbound, -⟩ :=
      recodePath_recodePath hN rest hnull₂ iv₁ (output ++ e) (output ++ e) Iff.rfl
    rw [recodePath_component _ _ hne hname hrest, henc] at h
    change recodePath N.maxEncodedNameLen N.encodeName rest iv₁ (output ++ e) = _ at h
    rw [hrec, List.append_assoc] at h
    obtain ⟨hout, rfl⟩ := Prod.mk.inj (Except.ok.inj h)
    rw [← List.append_cancel_left hout, components_cons hne hname hrest,
      components_cons he hs (hbound (by simp [he]) hrest)]
    exact .cons henc hdec (ih hnull₂ hrec)

lemma encodePathIV_walk {d q : Bytes} {iv : UInt64} (hnull : (0 : UInt8) ∉ d)
    (hd : N.encodePathIV d 0 = .ok (q, iv)) :
    N.Walk (N.chained 0) (components d) (components q) (N.chained iv) := by
  obtain ⟨q', iv', henc, hrec, -⟩ := encodePathIV_ok hN hforward hnull 0
  rw [hd] at henc
  obtain ⟨rfl, rfl⟩ := Prod.mk.inj (Except.ok.inj henc)
  exact recodePath_walk hN hnull hrec

lemma encodePathIV_append {d u q q' : Bytes} {iv iv' : UInt64} (hd : (0 : UInt8) ∉ d)
    (hu : (0 : UInt8) ∉ u) (henc : N.encodePathIV d 0 = .ok (q, iv))
    (henc' : N.encodePathIV (d ++ slash :: u) 0 = .ok (q', iv')) :
    ∃ r, components q' = components q ++ r ∧ (r = [] → iv' = iv) := by
  obtain ⟨q₁, iv₁, h₁, hrec, -⟩ := encodePathIV_ok hN hforward hd 0
  rw [henc] at h₁
  obtain ⟨rfl, rfl⟩ := Prod.mk.inj (Except.ok.inj h₁)
  have hdu : (0 : UInt8) ∉ d ++ slash :: u := by
    simp only [List.mem_append, List.mem_cons, not_or]
    exact ⟨hd, by decide, hu⟩
  obtain ⟨q₂, iv₂, h₂, hrec', -⟩ := encodePathIV_ok hN hforward hdu 0
  rw [henc'] at h₂
  obtain ⟨rfl, rfl⟩ := Prod.mk.inj (Except.ok.inj h₂)
  rw [recodePath_append _ _ d (boundary_slash u), hrec] at hrec'
  change recodePath N.maxEncodedNameLen N.encodeName (slash :: u) (N.chained iv) q = _ at hrec'
  rw [recodePath_slash] at hrec'
  obtain ⟨r, iv₃, h₃, -⟩ := recodePath_recodePath hN u hu (N.chained iv)
    (if q = [] then [] else q ++ [slash]) (if q = [] then [] else q ++ [slash]) Iff.rfl
  rw [h₃] at hrec'
  obtain ⟨hq', hiv⟩ := Prod.mk.inj (Except.ok.inj hrec')
  refine ⟨components r, ?_, fun hr => ?_⟩
  · rw [← hq']
    split
    · rename_i hnil
      rw [hnil]
      rfl
    · rw [List.append_assoc, List.singleton_append, components_append]
  · have hwalk := recodePath_walk hN hu h₃
    rw [hr, hiv] at hwalk
    have heq := hwalk.iv_eq
    cases hchain : N.chainedNameIV with
    | true => simpa [chained, hchain] using heq
    | false =>
      rw [encodePathIV_unchained hN hforward hchain hd henc,
        encodePathIV_unchained hN hforward hchain hdu henc']

omit hforward in
variable (N) in
inductive Coded : UInt64 → List Bytes → List Bytes → Prop
  | nil (iv : UInt64) : Coded iv [] []
  | cons {iv iv₁ : UInt64} {n e : Bytes} {x es : List Bytes} (ne_nil : e ≠ [])
      (no_slash : slash ∉ e) (not_dots : isDots e = false)
      (encode : N.encodePathIV n iv = .ok (e, iv₁)) (decode : N.decodePathIV e iv = .ok (n, iv₁))
      (rest : Coded iv₁ x es) : Coded iv (n :: x) (e :: es)

omit hN hforward in
lemma Coded.unique {iv : UInt64} {x es es' : List Bytes} (h : N.Coded iv x es)
    (h' : N.Coded iv x es') : es = es' := by
  induction h generalizing es' with
  | nil =>
    cases h'
    rfl
  | cons _ _ _ encode _ _ ih =>
    cases h' with
    | cons _ _ _ encode' _ rest' =>
      rw [encode] at encode'
      obtain ⟨rfl, rfl⟩ := Prod.mk.inj (Except.ok.inj encode')
      rw [ih rest']

lemma encodePathIV_below {d q : Bytes} {iv : UInt64} {x : List Bytes} (hnull : (0 : UInt8) ∉ d)
    (hd : N.encodePathIV d 0 = .ok (q, iv)) (hx : ∀ n ∈ x, ValidName n) :
    ∃ es q' iv', N.Coded iv x es ∧ N.encodePathIV (below d x) 0 = .ok (q', iv') ∧
      components q' = components q ++ es := by
  induction x generalizing d q iv with
  | nil => exact ⟨[], q, iv, .nil iv, by rwa [below_nil], (List.append_nil _).symm⟩
  | cons n x ih =>
    have hn := hx n List.mem_cons_self
    obtain ⟨e, iv₁, -, hne, hslash, hdots, henc, hdec, hchild⟩ :=
      encodePathIV_child hN hforward hnull hd hn
    have hnull' : (0 : UInt8) ∉ d ++ slash :: n := by
      simp only [List.mem_append, List.mem_cons, not_or]
      exact ⟨hnull, by decide, hn.no_null⟩
    obtain ⟨es, q', iv', hcoded, hbelow, hcomp⟩ :=
      ih hnull' hchild fun m hm => hx m (List.mem_cons_of_mem _ hm)
    refine ⟨e :: es, q', iv', .cons hne hslash hdots henc hdec hcoded, ?_, ?_⟩
    · rw [below_cons]
      exact hbelow
    · rw [hcomp, components_childPath q hne hslash, List.append_assoc]
      rfl

end NameIO

end EncFS
