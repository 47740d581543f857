import EncFS.Fuse4Win.Utf16
import EncFS.NameIO.PathCoding

set_option autoImplicit false

namespace EncFS.Fuse4Win

open NameIO (cString_eq)

abbrev GetConvert := Bytes → Except ConvertError (ℕ × ICONV_CHAR)

abbrev PutConvert := Bytes → ICONV_CHAR → Except ConvertError (Bytes × ℕ)

def dummy : Bytes := List.replicate 8 0

def convertChar (get : GetConvert) (put : PutConvert) :
    (fuel : ℕ) → (src : Bytes) → (dest : Option Bytes) → Except ConvertError (ℕ × Bytes)
  | 0, _, dest => .ok (0, dest.getD [])
  | fuel + 1, src, dest =>
    if src = [] then .ok (0, dest.getD [])
    else do
      let (readed, c) ← get src
      let (buf, written) ← put (dest.getD dummy) c
      let (total, rest) ←
        convertChar get put fuel (src.drop readed) (dest.map fun _ => buf.drop written)
      return (written + total, (dest.map fun _ => buf.take written ++ rest).getD [])

def wcharToUtf8 (memory : ℕ → UInt8) (str : List UInt16) : Except ConvertError Bytes := do
  let src := wcharBytes (wcs str ++ [0])
  let (ln, _) ← convertChar getUtf16 putUtf8 src.length src none
  if ln = 0 then .error .invalid
  else do
    let (_, res) ← convertChar getUtf16 putUtf8 src.length src
      (some ((List.range ln).map memory))
    return res

def wcharToUtf8Cstr (memory : ℕ → UInt8) (str : List UInt16) : Except ConvertError Bytes := do
  let utf ← wcharToUtf8 memory str
  return cString utf

def utf8ToWcharBuf (src res : Bytes) (maxlen : ℕ) : Bytes :=
  if maxlen = 0 then res
  else
    let src := cString src ++ [0]
    match convertChar getUtf8 putUtf16 src.length src none with
    | .error _ => PUT_A2 res 0 0
    | .ok (ln, _) =>
      if ln = 0 ∨ maxlen < ln / 2 then PUT_A2 res 0 0
      else
        match convertChar getUtf8 putUtf16 src.length src (some res) with
        | .error _ => res
        | .ok (_, res) => res

section Conversion

structure Gets (get : GetConvert) (code : Char → Bytes) : Prop where
  code_ne_nil (c : Char) : code c ≠ []
  get_code (c : Char) (rest : Bytes) : get (code c ++ rest) = .ok ((code c).length, c.val)

/-- A character is put in a place of its size, whatever is there; `Out` tells what it leaves. -/
structure Puts (put : PutConvert) (size : Char → ℕ) (Out : Char → Bytes → Bytes → Prop) : Prop where
  size_le (c : Char) : size c ≤ dummy.length
  put_out (c : Char) {buf : Bytes} : size c ≤ buf.length → ∃ coded,
    put buf c.val = .ok (coded ++ buf.drop (size c), size c) ∧ coded.length = size c ∧
      Out c buf coded

inductive Outs (size : Char → ℕ) (Out : Char → Bytes → Bytes → Prop) :
    List Char → Bytes → Bytes → Prop
  | nil {buf : Bytes} : Outs size Out [] buf []
  | cons {c : Char} {text : List Char} {buf coded out : Bytes} : Out c buf coded →
      Outs size Out text (buf.drop (size c)) out → Outs size Out (c :: text) buf (coded ++ out)

variable {get : GetConvert} {put : PutConvert} {code : Char → Bytes} {size : Char → ℕ}
  {Out : Char → Bytes → Bytes → Prop}

lemma convert_count (hget : Gets get code) (hput : Puts put size Out) (text : List Char) {fuel : ℕ}
    (hfuel : (text.flatMap code).length ≤ fuel) :
    convertChar get put fuel (text.flatMap code) none = .ok ((text.map size).sum, []) := by
  induction text generalizing fuel with
  | nil => cases fuel <;> rfl
  | cons c text ih =>
    have hne := hget.code_ne_nil c
    have hpos := List.length_pos_iff.mpr hne
    rw [List.flatMap_cons, List.length_append] at hfuel
    obtain ⟨fuel, rfl⟩ : ∃ n, fuel = n + 1 := ⟨fuel - 1, by omega⟩
    obtain ⟨coded, hrun, -⟩ := hput.put_out c (hput.size_le c)
    rw [List.flatMap_cons, convertChar, if_neg (by simp [hne]), hget.get_code]
    change (put dummy c.val >>= _) = _
    rw [hrun]
    change (convertChar get put fuel ((code c ++ text.flatMap code).drop (code c).length) none >>=
      _) = _
    rw [List.drop_left, ih (by omega)]
    rfl

lemma convert_fill (hget : Gets get code) (hput : Puts put size Out) (text : List Char) {fuel : ℕ}
    (hfuel : (text.flatMap code).length ≤ fuel) {buf : Bytes}
    (hroom : (text.map size).sum ≤ buf.length) :
    ∃ out, convertChar get put fuel (text.flatMap code) (some buf) =
        .ok ((text.map size).sum, out ++ buf.drop (text.map size).sum) ∧
      out.length = (text.map size).sum ∧ Outs size Out text buf out := by
  induction text generalizing fuel buf with
  | nil =>
    refine ⟨[], ?_, rfl, .nil⟩
    cases fuel <;> rfl
  | cons c text ih =>
    have hne := hget.code_ne_nil c
    have hpos := List.length_pos_iff.mpr hne
    rw [List.flatMap_cons, List.length_append] at hfuel
    rw [List.map_cons, List.sum_cons] at hroom
    obtain ⟨fuel, rfl⟩ : ∃ n, fuel = n + 1 := ⟨fuel - 1, by omega⟩
    have hfits : size c ≤ buf.length := by omega
    have hleft : (text.flatMap code).length ≤ fuel := by omega
    have hbehind : (text.map size).sum ≤ (buf.drop (size c)).length := by
      rw [List.length_drop]
      omega
    obtain ⟨coded, hrun, hlen, hcoded⟩ := hput.put_out c hfits
    obtain ⟨out, hrest, hout, houts⟩ := ih hleft hbehind
    refine ⟨coded ++ out, ?_, ?_, .cons hcoded houts⟩
    · rw [List.flatMap_cons, convertChar, if_neg (by simp [hne]), hget.get_code]
      change (put buf c.val >>= _) = _
      rw [hrun]
      change (convertChar get put fuel ((code c ++ text.flatMap code).drop (code c).length)
        (some ((coded ++ buf.drop (size c)).drop (size c))) >>= _) = _
      rw [List.drop_left, List.drop_left' hlen, hrest]
      change Except.ok (_, (coded ++ buf.drop (size c)).take (size c) ++ _) = _
      rw [List.take_left' hlen, List.drop_drop, List.map_cons, List.sum_cons, List.append_assoc]
    · rw [List.length_append, hlen, hout, List.map_cons, List.sum_cons]

lemma Outs.eq_flatMap {f : Char → Bytes} {text : List Char} {buf out : Bytes}
    (h : Outs size Out text buf out)
    (hf : ∀ c ∈ text, ∀ buf coded, Out c buf coded → coded = f c) : out = text.flatMap f := by
  induction h with
  | nil => rfl
  | cons hout _ ih =>
    rw [List.flatMap_cons, hf _ List.mem_cons_self _ _ hout,
      ih fun c hc => hf c (List.mem_cons_of_mem _ hc)]

lemma Outs.split {text text' : List Char} {buf out : Bytes}
    (h : Outs size Out (text ++ text') buf out) :
    ∃ front back, out = front ++ back ∧ Outs size Out text buf front ∧
      Outs size Out text' (buf.drop (text.map size).sum) back := by
  induction text generalizing buf out with
  | nil => exact ⟨[], out, rfl, .nil, h⟩
  | cons c text ih =>
    cases h with
    | cons hout hrest =>
      obtain ⟨front, back, rfl, hfront, hback⟩ := ih hrest
      rw [List.drop_drop] at hback
      exact ⟨_ ++ front, back, (List.append_assoc _ _ _).symm, .cons hout hfront, hback⟩

end Conversion

section Codes

def utf16Code (c : Char) : Bytes := wcharBytes (utf16Units c)

lemma utf16Code_flatMap (text : List Char) :
    text.flatMap utf16Code = wcharBytes (text.flatMap utf16Units) := by
  rw [wcharBytes, List.flatMap_assoc]
  rfl

lemma wcharBytes_length (str : List UInt16) : (wcharBytes str).length = 2 * str.length := by
  induction str with
  | nil => rfl
  | cons u str ih =>
    change (wcharBytes str).length + 2 = 2 * (str.length + 1)
    omega

lemma utf16Units_ne_nil (c : Char) : utf16Units c ≠ [] := by
  rw [utf16Units]
  split <;> exact List.cons_ne_nil _ _

lemma gets_utf16 : Gets getUtf16 utf16Code where
  code_ne_nil c h := by
    have hlen := wcharBytes_length (utf16Units c)
    have hpos := List.length_pos_iff.mpr (utf16Units_ne_nil c)
    rw [utf16Code] at h
    rw [h, List.length_nil] at hlen
    omega
  get_code := getUtf16_spec

lemma gets_utf8 : Gets getUtf8 String.utf8EncodeChar where
  code_ne_nil _ := String.utf8EncodeChar_ne_nil
  get_code c rest := by rw [getUtf8_spec, String.length_utf8EncodeChar]

lemma puts_utf8 : Puts putUtf8 Char.utf8Size fun c buf coded =>
    (¬ LeadLost c → coded = String.utf8EncodeChar c) ∧ (LeadLost c → coded.head? = buf.head?) where
  size_le c := c.utf8Size_le_four.trans (by decide)
  put_out c buf hroom := by
    obtain ⟨coded, h⟩ := putUtf8_spec c hroom
    exact ⟨coded, h.run, h.length_eq, h.standard, h.lost⟩

lemma puts_utf16 : Puts putUtf16 (fun c => (utf16Code c).length)
    fun c _ coded => coded = utf16Code c where
  size_le c := by
    rcases utf16_cases c with ⟨u, hunits, -⟩ | ⟨hi, lo, hunits, -⟩
    · rw [utf16Code, hunits, wcharBytes_length]
      exact (by decide : 2 * 1 ≤ 8)
    · rw [utf16Code, hunits, wcharBytes_length]
      exact (by decide : 2 * 2 ≤ 8)
  put_out c buf hroom := ⟨utf16Code c, putUtf16_spec c hroom, rfl, rfl⟩

lemma or_ne_zero (x : UInt8) {y : UInt8} (hy : y ≠ 0) : (0 : UInt8) ≠ x ||| y := by
  intro h
  have hor := congrArg UInt8.toNat h
  rw [UInt8.toNat_or] at hor
  have hle := Nat.right_le_or (n := x.toNat) (m := y.toNat)
  rw [← hor] at hle
  exact hy (UInt8.toNat_inj.mp (Nat.le_zero.mp hle))

lemma utf8_ne_zero {c : Char} (hc : c.toNat ≠ 0) : (0 : UInt8) ∉ String.utf8EncodeChar c := by
  by_cases h₁ : c.toNat < 2 ^ 7
  · rw [(utf8_one h₁).2, List.mem_singleton]
    intro h
    have hbyte := congrArg UInt8.toNat h
    rw [UInt32.toNat_toUInt8] at hbyte
    change 0 = c.toNat % 2 ^ 8 at hbyte
    omega
  by_cases h₂ : c.toNat < 2 ^ 11
  · rw [(utf8_two (Nat.not_lt.mp h₁) h₂).2]
    simp [or_ne_zero]
  by_cases h₃ : c.toNat < 2 ^ 16
  · rw [(utf8_three (Nat.not_lt.mp h₂) h₃).2]
    simp [or_ne_zero]
  · rw [(utf8_four (Nat.not_lt.mp h₃)).2]
    simp [or_ne_zero]

lemma utf16_ne_zero {c : Char} (hc : c.toNat ≠ 0) : (0 : UInt16) ∉ utf16Units c := by
  have hzero : (0 : UInt16).toNat = 0 := rfl
  rcases utf16_cases c with ⟨u, hunits, hu, -⟩ | ⟨hi, lo, hunits, hhigh, hlow, -⟩
  · rw [hunits, List.mem_singleton]
    rintro rfl
    omega
  · rw [hunits]
    obtain ⟨hmin, -⟩ := hhigh
    obtain ⟨hmin', -⟩ := hlow
    simp only [List.mem_cons, List.not_mem_nil, or_false, not_or]
    constructor <;> rintro rfl <;> omega

end Codes

section Names

variable {text : List Char}

def NoNull (text : List Char) : Prop := ∀ c ∈ text, c.toNat ≠ 0

lemma utf8_no_null (h : NoNull text) : (0 : UInt8) ∉ text.flatMap String.utf8EncodeChar := by
  intro hm
  obtain ⟨c, hc, hz⟩ := List.mem_flatMap.mp hm
  exact utf8_ne_zero (h c hc) hz

lemma wcs_units (h : NoNull text) (rest : List UInt16) :
    wcs (text.flatMap utf16Units ++ 0 :: rest) = text.flatMap utf16Units := by
  have hunits : ∀ u ∈ text.flatMap utf16Units, (u != 0) = true := by
    intro u hu
    obtain ⟨c, hc, hm⟩ := List.mem_flatMap.mp hu
    exact bne_iff_ne.mpr fun hz => utf16_ne_zero (h c hc) (hz ▸ hm)
  rw [wcs, List.takeWhile_append_of_pos hunits, List.takeWhile_cons_of_neg (by decide),
    List.append_nil]

lemma wcs_units_self (h : NoNull text) :
    wcs (text.flatMap utf16Units) = text.flatMap utf16Units := by
  refine List.takeWhile_eq_self_iff.mpr fun u hu => ?_
  obtain ⟨c, hc, hm⟩ := List.mem_flatMap.mp hu
  exact bne_iff_ne.mpr fun hz => utf16_ne_zero (h c hc) (hz ▸ hm)

lemma wide_source (text : List Char) :
    wcharBytes (text.flatMap utf16Units ++ [0]) = (text ++ ['\x00']).flatMap utf16Code := by
  rw [utf16Code_flatMap, List.flatMap_append]
  rfl

lemma wcharToUtf8_spec (memory : ℕ → UInt8) (h : NoNull text) :
    ∃ out, wcharToUtf8 memory (text.flatMap utf16Units) = .ok out ∧
      Outs Char.utf8Size (fun c buf coded => (¬ LeadLost c → coded = String.utf8EncodeChar c) ∧
        (LeadLost c → coded.head? = buf.head?)) (text ++ ['\x00'])
        ((List.range ((text ++ ['\x00']).map Char.utf8Size).sum).map memory) out := by
  have hlen : ((List.range ((text ++ ['\x00']).map Char.utf8Size).sum).map memory).length =
      ((text ++ ['\x00']).map Char.utf8Size).sum := by
    rw [List.length_map, List.length_range]
  have hcount := convert_count gets_utf16 puts_utf8 (text ++ ['\x00']) (Nat.le_refl _)
  obtain ⟨out, hfill, hout, houts⟩ := convert_fill gets_utf16 puts_utf8 (text ++ ['\x00'])
    (Nat.le_refl _) (Nat.le_of_eq hlen.symm)
  have hpos : ((text ++ ['\x00']).map Char.utf8Size).sum ≠ 0 := by
    rw [List.map_append, List.sum_append]
    exact Nat.ne_of_gt (Nat.lt_of_lt_of_le (by decide) (Nat.le_add_left _ _))
  refine ⟨out, ?_, houts⟩
  rw [wcharToUtf8, wcs_units_self h, wide_source, hcount]
  change (if _ = 0 then _ else _) = _
  rw [if_neg hpos, hfill, List.drop_of_length_le (Nat.le_of_eq hlen), List.append_nil]
  rfl

lemma wcharToUtf8Cstr_good (memory : ℕ → UInt8) (h : NoNull text)
    (hgood : ∀ c ∈ text, ¬ LeadLost c) :
    wcharToUtf8Cstr memory (text.flatMap utf16Units) =
      .ok (text.flatMap String.utf8EncodeChar) := by
  obtain ⟨out, hrun, houts⟩ := wcharToUtf8_spec memory h
  have hout : out = (text ++ ['\x00']).flatMap String.utf8EncodeChar := by
    refine houts.eq_flatMap fun c hc buf coded hcoded => hcoded.1 ?_
    rcases List.mem_append.mp hc with hc | hc
    · exact hgood c hc
    · rw [List.mem_singleton.mp hc]
      decide
  rw [List.flatMap_append] at hout
  rw [wcharToUtf8Cstr, hrun]
  change Except.ok (cString out) = _
  rw [hout]
  exact congrArg Except.ok (cString_terminated (r := []) (utf8_no_null h))

lemma wcharToUtf8Cstr_lost {front back : List Char} {c : Char} (h : NoNull (front ++ c :: back))
    (hfront : ∀ d ∈ front, ¬ LeadLost d) (hc : LeadLost c) :
    wcharToUtf8Cstr (fun _ => 0) ((front ++ c :: back).flatMap utf16Units) =
      .ok (front.flatMap String.utf8EncodeChar) := by
  obtain ⟨out, hrun, houts⟩ := wcharToUtf8_spec (fun _ => 0) h
  rw [List.append_assoc] at houts
  obtain ⟨first, second, rfl, hfirst, hsecond⟩ := houts.split
  have hstd : first = front.flatMap String.utf8EncodeChar :=
    hfirst.eq_flatMap fun d hd _ _ hcoded => hcoded.1 (hfront d hd)
  -- the byte that is not written is one of the memory
  have hhead : second.head? = some 0 := by
    rw [List.cons_append] at hsecond
    cases hsecond with
    | cons hcoded _ =>
      have hlost := hcoded.2 hc
      rw [List.head?_drop, List.getElem?_map, List.getElem?_range] at hlost
      · rw [List.head?_append, hlost]
        rfl
      · have := c.utf8Size_pos
        rw [List.map_append, List.sum_append, List.map_cons, List.sum_cons]
        omega
  obtain ⟨rest, rfl⟩ := List.head?_eq_some_iff.mp hhead
  rw [wcharToUtf8Cstr, hrun]
  change Except.ok (cString (first ++ 0 :: rest)) = _
  rw [hstd]
  refine congrArg Except.ok (cString_terminated (utf8_no_null fun d hd => h d ?_))
  exact List.mem_append_left _ hd

lemma utf8ToWcharBuf_spec (h : NoNull text) {res : Bytes} {maxlen : ℕ}
    (hres : res.length = 2 * maxlen) (hroom : (text.flatMap utf16Units).length < maxlen) :
    wcs (wchars (utf8ToWcharBuf (text.flatMap String.utf8EncodeChar) res maxlen)) =
      text.flatMap utf16Units := by
  have hsize : ((text ++ ['\x00']).map fun c => (utf16Code c).length).sum =
      2 * ((text.flatMap utf16Units).length + 1) := by
    rw [← List.length_flatMap, ← wide_source, wcharBytes_length, List.length_append]
    rfl
  have hsource : cString (text.flatMap String.utf8EncodeChar) ++ [0] =
      (text ++ ['\x00']).flatMap String.utf8EncodeChar := by
    rw [cString_eq (utf8_no_null h), List.flatMap_append]
    rfl
  have hfits : ((text ++ ['\x00']).map fun c => (utf16Code c).length).sum ≤ res.length := by omega
  have hcount := convert_count gets_utf8 puts_utf16 (text ++ ['\x00']) (Nat.le_refl _)
  obtain ⟨out, hfill, hlen, houts⟩ := convert_fill gets_utf8 puts_utf16 (text ++ ['\x00'])
    (Nat.le_refl _) hfits
  have hout : out = wcharBytes (text.flatMap utf16Units ++ [0]) := by
    rw [wide_source]
    exact houts.eq_flatMap fun _ _ _ _ hcoded => hcoded
  rw [utf8ToWcharBuf, if_neg (by omega)]
  dsimp only
  rw [hsource, hcount]
  dsimp only
  rw [if_neg (by omega), hfill]
  dsimp only
  rw [hout, wchars_wcharBytes, List.append_assoc]
  exact wcs_units h _

end Names

def utf8Text (str : List UInt16) : Bytes :=
  (utf16Text str).flatMap String.utf8EncodeChar

def ReadsBack (utf : Bytes) (str : List UInt16) : Prop :=
  ∀ (res : Bytes) (maxlen : ℕ), res.length = 2 * maxlen → str.length < maxlen →
    wcs (wchars (utf8ToWcharBuf utf res maxlen)) = str

lemma exists_first_lost {text : List Char} (h : ¬ ∀ c ∈ text, ¬ LeadLost c) :
    ∃ front c back, text = front ++ c :: back ∧ (∀ d ∈ front, ¬ LeadLost d) ∧ LeadLost c := by
  induction text with
  | nil => exact absurd (fun c hc => absurd hc List.not_mem_nil) h
  | cons c text ih =>
    by_cases hc : LeadLost c
    · exact ⟨[], c, text, rfl, fun d hd => absurd hd List.not_mem_nil, hc⟩
    · have hrest : ¬ ∀ d ∈ text, ¬ LeadLost d := by
        intro hall
        exact h (List.forall_mem_cons.mpr ⟨hc, hall⟩)
      obtain ⟨front, d, back, rfl, hfront, hd⟩ := ih hrest
      exact ⟨c :: front, d, back, rfl, List.forall_mem_cons.mpr ⟨hc, hfront⟩, hd⟩

/-- The result is the standard encoding whatever `malloc` returns, and it is read back, exactly for
the strings without a character whose lead is lost. -/
theorem wcharToUtf8Cstr_standard {str : List UInt16} (h : WellFormed str)
    (hnull : (0 : UInt16) ∉ str) :
    ((∀ memory, wcharToUtf8Cstr memory str = .ok (utf8Text str)) ↔
      ∀ c ∈ utf16Text str, ¬ LeadLost c) ∧
    ((∀ memory, ∃ utf, wcharToUtf8Cstr memory str = .ok utf ∧ ReadsBack utf str) ↔
      ∀ c ∈ utf16Text str, ¬ LeadLost c) := by
  have hunits := h.units_text
  have htext : NoNull (utf16Text str) := by
    intro c hc hz
    refine hnull (hunits ▸ List.mem_flatMap.mpr ⟨c, hc, ?_⟩)
    rw [utf16Units, hz]
    exact List.mem_singleton.mpr rfl
  have hstandard (hgood : ∀ c ∈ utf16Text str, ¬ LeadLost c) (memory : ℕ → UInt8) :
      wcharToUtf8Cstr memory str = .ok (utf8Text str) := by
    have := wcharToUtf8Cstr_good memory htext hgood
    rwa [hunits] at this
  have hback : ReadsBack (utf8Text str) str := by
    intro res maxlen hres hroom
    have := utf8ToWcharBuf_spec htext hres (hunits.symm ▸ hroom)
    rwa [hunits] at this
  refine ⟨⟨fun hall => ?_, hstandard⟩, fun hall => ?_, fun hgood memory =>
    ⟨_, hstandard hgood memory, hback⟩⟩
  all_goals
    by_contra hlost
    obtain ⟨front, c, back, hsplit, hfront, hc⟩ := exists_first_lost hlost
    rw [hsplit] at hunits htext
    have hzero := wcharToUtf8Cstr_lost htext hfront hc
    rw [hunits] at hzero
  · have hsame := Except.ok.inj (hzero.symm.trans (hall _))
    rw [utf8Text, hsplit, List.flatMap_append, List.flatMap_cons, List.self_eq_append_right] at hsame
    exact String.utf8EncodeChar_ne_nil (List.append_eq_nil_iff.mp hsame).1
  · obtain ⟨utf, hrun, hread⟩ := hall fun _ => 0
    cases hrun.symm.trans hzero
    have hfrontNull : NoNull front := fun d hd => htext d (List.mem_append_left _ hd)
    have hmemory : (List.replicate (2 * (str.length + 1)) (0 : UInt8)).length =
        2 * (str.length + 1) := List.length_replicate
    have hcut := utf8ToWcharBuf_spec hfrontNull hmemory (by
        rw [← hunits, List.flatMap_append, List.length_append]
        omega)
    rw [hread _ _ List.length_replicate (Nat.lt_succ_self _)] at hcut
    have hsame := hcut.symm.trans hunits.symm
    rw [List.flatMap_append, List.flatMap_cons, List.self_eq_append_right] at hsame
    exact utf16Units_ne_nil c (List.append_eq_nil_iff.mp hsame).1

lemma wellFormed_latin : WellFormed [0x61, 0xe9] :=
  .unit (by decide) (by rw [IsLow]; decide) (.unit (by decide) (by rw [IsLow]; decide) .nil)

theorem wcharToUtf8Cstr_standard_latin :
    wcharToUtf8Cstr (fun _ => 0xff) [0x61, 0xe9] = .ok [0x61, 0xc3, 0xa9] := by
  have hlost : ∀ c ∈ utf16Text [0x61, 0xe9], ¬ LeadLost c := by
    have htext : utf16Text [0x61, 0xe9] = ['a', 'é'] := rfl
    rw [htext]
    simp only [List.forall_mem_cons]
    exact ⟨by decide, by decide, by simp⟩
  exact (wcharToUtf8Cstr_standard wellFormed_latin (by decide)).1.mpr hlost fun _ => 0xff

theorem not_wcharToUtf8Cstr_standard : ¬ ∀ (memory : ℕ → UInt8) (str : List UInt16),
    WellFormed str → (0 : UInt16) ∉ str →
      wcharToUtf8Cstr memory str = .ok (utf8Text str) ∧ ReadsBack (utf8Text str) str := by
  intro h
  have hstr : WellFormed [0xe01] := .unit (by decide) (by rw [IsLow]; decide) .nil
  have hrun := (h (fun _ => 0) [0xe01] hstr (by decide)).1
  exact absurd hrun (by decide)

end EncFS.Fuse4Win
