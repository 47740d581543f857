import EncFS.DirNode.Descendants
import EncFS.FileTree.Coding

set_option autoImplicit false

namespace EncFS

namespace NameIO

variable (N : NameIO)

variable {N} in
lemma Codes.entry {iv iv' : Option UInt64} {name e : Bytes} (h : N.Codes iv name e iv') :
    ValidName e :=
  ⟨h.ne_nil, PlainChars.no_slash h.plain, fun hm => (h.plain 0 hm).1 rfl,
    PlainChars.not_dots h.plain h.ne_nil⟩

inductive CodedTo : UInt64 → List Bytes → List Bytes → UInt64 → Prop
  | nil (iv : UInt64) : CodedTo iv [] [] iv
  | cons {iv iv₁ iv₂ : UInt64} {n e : Bytes} {x es : List Bytes} (name : ValidName n)
      (entry : ValidName e) (encode : N.encodePathIV n iv = .ok (e, iv₁))
      (decode : N.decodePathIV e iv = .ok (n, iv₁)) (rest : CodedTo iv₁ x es iv₂) :
      CodedTo iv (n :: x) (e :: es) iv₂

namespace CodedTo

variable {N} {iv iv₁ iv₂ : UInt64} {x y es fs : List Bytes}

lemma coded (h : N.CodedTo iv x es iv₁) : N.Coded iv x es := by
  induction h with
  | nil iv => exact .nil iv
  | cons _ entry encode decode _ ih =>
    exact .cons entry.ne_nil entry.no_slash entry.not_dots encode decode ih

lemma valid_names (h : N.CodedTo iv x es iv₁) : ∀ n ∈ x, ValidName n := by
  induction h with
  | nil _ => exact fun n hn => absurd hn List.not_mem_nil
  | cons name _ _ _ _ ih =>
    intro m hm
    rcases List.mem_cons.mp hm with rfl | hm
    · exact name
    · exact ih m hm

lemma functional (h : N.CodedTo iv x es iv₁) (h' : N.CodedTo iv x fs iv₂) : es = fs ∧ iv₁ = iv₂ := by
  induction h generalizing fs with
  | nil _ =>
    cases h'
    exact ⟨rfl, rfl⟩
  | cons _ _ encode _ _ ih =>
    cases h' with
    | cons _ _ encode' _ rest' =>
      rw [encode] at encode'
      obtain ⟨rfl, rfl⟩ := Prod.mk.inj (Except.ok.inj encode')
      obtain ⟨rfl, rfl⟩ := ih rest'
      exact ⟨rfl, rfl⟩

lemma injective (h : N.CodedTo iv x es iv₁) (h' : N.CodedTo iv y es iv₂) : x = y := by
  induction h generalizing y with
  | nil _ =>
    cases h'
    rfl
  | cons _ _ _ decode _ ih =>
    cases h' with
    | cons _ _ _ decode' rest' =>
      rw [decode] at decode'
      obtain ⟨rfl, rfl⟩ := Prod.mk.inj (Except.ok.inj decode')
      rw [ih rest']

lemma append (h : N.CodedTo iv x es iv₁) (h' : N.CodedTo iv₁ y fs iv₂) :
    N.CodedTo iv (x ++ y) (es ++ fs) iv₂ := by
  induction h with
  | nil _ => exact h'
  | cons name entry encode decode _ ih => exact .cons name entry encode decode (ih h')

lemma split (h : N.CodedTo iv (x ++ y) fs iv₂) :
    ∃ es gs iv₁, fs = es ++ gs ∧ N.CodedTo iv x es iv₁ ∧ N.CodedTo iv₁ y gs iv₂ := by
  induction x generalizing iv fs with
  | nil => exact ⟨[], fs, iv, rfl, .nil iv, h⟩
  | cons n x ih =>
    cases h with
    | cons name entry encode decode rest =>
      obtain ⟨es, gs, iv₁, rfl, hx, hy⟩ := ih rest
      exact ⟨_, gs, iv₁, rfl, .cons name entry encode decode hx, hy⟩

lemma split_right (h : N.CodedTo iv y (es ++ fs) iv₂) :
    ∃ x z iv₁, y = x ++ z ∧ N.CodedTo iv x es iv₁ ∧ N.CodedTo iv₁ z fs iv₂ := by
  induction es generalizing iv y with
  | nil => exact ⟨[], y, iv, rfl, .nil iv, h⟩
  | cons e es ih =>
    cases h with
    | cons name entry encode decode rest =>
      obtain ⟨x, z, iv₁, rfl, hx, hz⟩ := ih rest
      exact ⟨_, z, iv₁, rfl, .cons name entry encode decode hx, hz⟩

lemma singleton {n e : Bytes} (h : N.CodedTo iv [n] [e] iv₁) :
    N.encodePathIV n iv = .ok (e, iv₁) ∧ N.decodePathIV e iv = .ok (n, iv₁) := by
  cases h with
  | cons _ _ encode decode rest =>
    cases rest
    exact ⟨encode, decode⟩

end CodedTo

def pathCode : PathCode Bytes Bytes where
  Codes x es := ∃ iv, N.CodedTo 0 x es iv
  nil := ⟨0, .nil 0⟩
  functional := fun ⟨_, h⟩ ⟨_, h'⟩ => (h.functional h').1
  injective := fun ⟨_, h⟩ ⟨_, h'⟩ => h.injective h'
  init_left := by
    rintro p n q ⟨iv, h⟩
    obtain ⟨es, gs, iv₁, rfl, hp, hn⟩ := h.split
    cases hn with
    | cons _ _ _ _ rest =>
      cases rest
      exact ⟨es, _, rfl, iv₁, hp⟩
  init_right := by
    rintro p q e ⟨iv, h⟩
    obtain ⟨x, z, iv₁, rfl, hq, he⟩ := h.split_right
    cases he with
    | cons _ _ _ _ rest =>
      cases rest
      exact ⟨x, _, rfl, iv₁, hq⟩

def Undecodable (e : Bytes) : Prop :=
  ∃ error, N.decodePathIV e 0 = .error error

lemma undecodable_apart : FileTree.Apart N.pathCode N.Undecodable := by
  rintro p j r ⟨iv, h⟩ ⟨error, herror⟩
  cases h with
  | cons _ _ _ decode _ =>
    rw [decode] at herror
    cases herror

instance ValidName.decidable (name : Bytes) : Decidable (ValidName name) :=
  decidable_of_iff (name ≠ [] ∧ slash ∉ name ∧ (0 : UInt8) ∉ name ∧ isDots name = false)
    ⟨fun ⟨h₁, h₂, h₃, h₄⟩ => ⟨h₁, h₂, h₃, h₄⟩, fun h => ⟨h.ne_nil, h.no_slash, h.no_null, h.not_dots⟩⟩

structure PlainPath (path : Bytes) : Prop where
  no_null : (0 : UInt8) ∉ path
  valid : ∀ n ∈ components path, ValidName n

instance PlainPath.decidable (path : Bytes) : Decidable (PlainPath path) :=
  decidable_of_iff ((0 : UInt8) ∉ path ∧ ∀ n ∈ components path, ValidName n)
    ⟨fun h => ⟨h.1, h.2⟩, fun h => ⟨h.no_null, h.valid⟩⟩

/-- The paths that `Good` takes are encoded name by name, and `'.'` and `'..'` decode to themselves. -/
structure CodesPaths (Good : Bytes → Prop) : Prop where
  encode {path : Bytes} : Good path →
    ∃ q iv, N.encodePathIV path 0 = .ok (q, iv) ∧ N.CodedTo 0 (components path) (components q) iv
  unchained {path q : Bytes} {iv : UInt64} : N.chainedNameIV = false → Good path →
    N.encodePathIV path 0 = .ok (q, iv) → iv = 0
  dots (name : Bytes) (iv : UInt64) : isDots name = true →
    ∃ iv', N.decodePathIV name iv = .ok (name, iv')
  chained : N.chainedNameIV = true →
    N.Lawful ∧ N.reverseEncryption = false ∧ ∀ path, Good path ↔ PlainPath path

variable {N} (hN : N.Lawful) (hforward : N.reverseEncryption = false)
include hN hforward

omit hN in
lemma encodePathIV_name {n e : Bytes} {a : UInt64} {iv : Option UInt64} (hne : n ≠ [])
    (hslash : slash ∉ n)
    (h : codeComponent N.maxEncodedNameLen N.encodeName n (N.chained a) = .ok (e, iv)) :
    N.encodePathIV n a = .ok (e, iv.getD a) := by
  have hrec := recodePath_component N.maxEncodedNameLen N.encodeName hne hslash boundary_nil
    (N.chained a) []
  rw [List.append_nil, h] at hrec
  rw [encodePathIV, hforward, if_neg (by simp), forwardPath, hrec]
  dsimp only [bind, Except.bind]
  rw [recodePath_nil]
  rfl

omit hN in
lemma decodePathIV_name {n e : Bytes} {a : UInt64} {iv : Option UInt64} (hne : e ≠ [])
    (hslash : slash ∉ e)
    (h : codeComponent N.maxDecodedNameLen N.decodeName e (N.chained a) = .ok (n, iv)) :
    N.decodePathIV e a = .ok (n, iv.getD a) := by
  have hrec := recodePath_component N.maxDecodedNameLen N.decodeName hne hslash boundary_nil
    (N.chained a) []
  rw [List.append_nil, h] at hrec
  rw [decodePathIV, hforward, if_neg (by simp), backwardPath, hrec]
  dsimp only [bind, Except.bind]
  rw [recodePath_nil]
  rfl

lemma Walk.codedTo {iv iv' : Option UInt64} {x es : List Bytes} (h : N.Walk iv x es iv')
    (hx : ∀ n ∈ x, ValidName n) {a : UInt64} (ha : iv = N.chained a) :
    ∃ b, N.CodedTo a x es b ∧ iv' = N.chained b ∧ (N.chainedNameIV = false → b = a) := by
  induction h generalizing a with
  | nil iv => exact ⟨a, .nil a, ha, fun _ => rfl⟩
  | @cons iv iv₁ iv₂ n e x es encode decode _ ih =>
    subst ha
    have hn := hx n List.mem_cons_self
    obtain ⟨e', iv', hcodes⟩ := hN (N.chained a) n hn
    have hencode : codeComponent N.maxEncodedNameLen N.encodeName n (N.chained a) = .ok (e', iv') := by
      rw [codeComponent, if_neg (by simp [hn.not_dots]), hcodes.recode_encode]
    rw [encode] at hencode
    obtain ⟨rfl, rfl⟩ := Prod.mk.inj (Except.ok.inj hencode)
    have he := hcodes.entry
    obtain ⟨b, hrest, hb, hsame⟩ := ih (fun m hm => hx m (List.mem_cons_of_mem n hm))
      (chained_getD hcodes.iv_isSome).symm
    refine ⟨b, .cons hn he (encodePathIV_name hforward hn.ne_nil hn.no_slash encode)
      (decodePathIV_name hforward he.ne_nil he.no_slash decode) hrest, hb, fun hchain => ?_⟩
    have hnone : iv₁ = none := by simpa [chained, hchain] using hcodes.iv_isSome
    rw [hsame hchain, hnone]
    rfl

lemma PlainPath.encode {path : Bytes} (h : PlainPath path) :
    ∃ q iv, N.encodePathIV path 0 = .ok (q, iv) ∧ N.CodedTo 0 (components path) (components q) iv := by
  obtain ⟨q, iv, henc, -⟩ := encodePathIV_ok hN hforward h.no_null 0
  obtain ⟨b, hcoded, hb, hsame⟩ :=
    (encodePathIV_walk hN hforward h.no_null henc).codedTo hN hforward h.valid rfl
  have hiv : iv = b := by
    cases hchain : N.chainedNameIV with
    | true => simpa [chained, hchain] using hb
    | false => rw [hsame hchain, encodePathIV_unchained hN hforward hchain h.no_null henc]
  exact ⟨q, iv, henc, by rwa [hiv]⟩

lemma codesPaths : N.CodesPaths PlainPath where
  encode h := h.encode hN hforward
  unchained hchain h henc := encodePathIV_unchained hN hforward hchain h.no_null henc
  dots _ _ h := (Entry.dots h).decode hN hforward
  chained _ := ⟨hN, hforward, fun _ => Iff.rfl⟩

omit hN hforward in
lemma Supported.codesPaths (h : N.Supported) : N.CodesPaths PlainPath :=
  NameIO.codesPaths h.lawful h.forward

omit hN hforward in
lemma mem_components {p e : Bytes} (h : e ∈ components p) : e ≠ [] ∧ slash ∉ e := by
  induction p using path_induction with
  | nil => cases h
  | slashed p ih =>
    rw [components_slash] at h
    exact ih h
  | component name rest hne hname hrest ih =>
    rw [components_cons hne hname hrest] at h
    rcases List.mem_cons.mp h with rfl | h
    · exact ⟨hne, hname⟩
    · exact ih h

omit hforward in
lemma component_isSome {n e : Bytes} {iv iv₁ : Option UInt64} (hn : ValidName n)
    (h : codeComponent N.maxEncodedNameLen N.encodeName n iv = .ok (e, iv₁)) :
    iv₁.isSome = iv.isSome := by
  obtain ⟨e', iv', henc, -, -, -, hsome⟩ := component_codes hN hn.ne_nil hn.no_slash hn.no_null iv
  rw [h] at henc
  obtain ⟨-, rfl⟩ := Prod.mk.inj (Except.ok.inj henc)
  exact hsome

lemma Walk.names_eq {iv iv' : Option UInt64} {x y es : List Bytes} {a b : UInt64}
    (h : N.Walk iv x es iv') (ha : iv = N.chained a) (h' : N.CodedTo a y es b) : x = y := by
  induction h generalizing a y with
  | nil _ =>
    cases h'
    rfl
  | cons encode decode _ ih =>
    subst ha
    cases h' with
    | cons name entry _ decode' rest' =>
      have hdec := decodePathIV_name hforward entry.ne_nil entry.no_slash decode
      rw [decode'] at hdec
      obtain ⟨rfl, rfl⟩ := Prod.mk.inj (Except.ok.inj hdec)
      rw [ih (chained_getD (component_isSome hN name encode)).symm rest']

lemma plainPath_of_encode {d q : Bytes} {iv b : UInt64} {x : List Bytes} (hnull : (0 : UInt8) ∉ d)
    (hd : N.encodePathIV d 0 = .ok (q, iv)) (hx : N.CodedTo 0 x (components q) b) :
    PlainPath d ∧ x = components d ∧ b = iv := by
  have hnames := (encodePathIV_walk hN hforward hnull hd).names_eq hN hforward rfl hx
  have hplain : PlainPath d := ⟨hnull, fun n hn => hx.valid_names n (hnames ▸ hn)⟩
  obtain ⟨q', iv', henc, hcoded⟩ := hplain.encode hN hforward
  rw [hd] at henc
  obtain ⟨rfl, rfl⟩ := Prod.mk.inj (Except.ok.inj henc)
  rw [hnames] at hcoded
  exact ⟨hplain, hnames.symm, (hx.functional hcoded).2⟩

omit hN in
lemma Walk.decode_first {iv' : Option UInt64} {x es : List Bytes} {e : Bytes} {a : UInt64}
    (h : N.Walk (N.chained a) x (e :: es) iv') (hne : e ≠ []) (hslash : slash ∉ e) :
    ∃ n a', N.decodePathIV e a = .ok (n, a') := by
  cases h with
  | cons _ decode _ => exact ⟨_, _, decodePathIV_name hforward hne hslash decode⟩

end NameIO

end EncFS
