import EncFS.FileIO
import EncFS.OrderedMap
import Mathlib.Data.List.Lex
import Mathlib.Data.List.TakeWhile
import Mathlib.Data.Nat.Bitwise

set_option autoImplicit false

namespace EncFS

instance linearOrderUInt8 : LinearOrder UInt8 :=
  LinearOrder.lift' UInt8.toNat fun _ _ h => UInt8.toNat_inj.mp h

def bytes (s : String) : Bytes := s.toList.map fun c => c.toNat.toUInt8

structure Interface where
  name : Bytes
  current : ℤ
  revision : ℤ
  age : ℤ
  deriving DecidableEq

/-! A variable is written at its end and read from its offset on, so the state of a reader is the
bytes from there. A failed assertion is `none`. -/

namespace ConfigVar

def digit (u : UInt32) (i : ℕ) : UInt8 :=
  match i with
  | 0 => (0x80 : UInt8) ||| ((u &&& 0xf0000000) >>> 28).toUInt8
  | 1 => (0x80 : UInt8) ||| ((u &&& 0x0fe00000) >>> 21).toUInt8
  | 2 => (0x80 : UInt8) ||| ((u &&& 0x001fc000) >>> 14).toUInt8
  | 3 => (0x80 : UInt8) ||| ((u &&& 0x00003f80) >>> 7).toUInt8
  | _ => (u &&& 0x0000007f).toUInt8

def writeInt (val : ℤ) : Bytes :=
  ((List.range 5).map (digit (UInt32.ofInt val))).dropWhile (· == 0x80)

def writeString (data : Bytes) : Bytes := writeInt data.length ++ data

def writeBool (value : Bool) : Bytes := writeInt (if value then 1 else 0)

def writeInterface (iface : Interface) : Bytes :=
  writeString iface.name ++ writeInt iface.current ++ writeInt iface.revision ++ writeInt iface.age

def readDigits : (value : UInt32) → Bytes → UInt32 × Bytes
  | value, [] => (value, [])
  | value, tmp :: rest =>
    let value := (value <<< 7) ||| (tmp &&& 0x7f).toUInt32
    if tmp &&& 0x80 ≠ 0 then readDigits value rest else (value, rest)

def readInt (src : Bytes) : Option (ℤ × Bytes) :=
  if src = [] then none else
  let (value, rest) := readDigits 0 src
  -- an `int` must not be negative
  if value.toNat < 2 ^ 31 then some (value.toNat, rest) else none

def readIntOr (defaultValue : ℤ) (src : Bytes) : Option (ℤ × Bytes) :=
  if src = [] then some (defaultValue, src) else readInt src

def readBoolOr (defaultValue : Bool) (src : Bytes) : Option (Bool × Bytes) := do
  let (tmp, rest) ← readIntOr (if defaultValue then 1 else 0) src
  some (tmp != 0, rest)

def readString (src : Bytes) : Option (Bytes × Bytes) := do
  let (length, rest) ← readInt src
  if length.toNat ≤ rest.length then some (rest.take length.toNat, rest.drop length.toNat) else none

def readInterface (src : Bytes) : Option (Interface × Bytes) := do
  let (name, src) ← readString src
  let (current, src) ← readInt src
  let (revision, src) ← readInt src
  let (age, src) ← readInt src
  some (⟨name, current, revision, age⟩, src)

lemma digit_mod (n mask i w : ℕ) (hmask : mask = (2 ^ w - 1) <<< i) :
    (n &&& mask) >>> i = n / 2 ^ i % 2 ^ w := by
  rw [hmask, Nat.shiftRight_and_distrib, Nat.shiftLeft_shiftRight, Nat.shiftRight_eq_div_pow]
  exact Nat.and_two_pow_sub_one_eq_mod _ w

lemma or_high {d : UInt8} (h : d.toNat < 128) : ((0x80 : UInt8) ||| d).toNat = 128 + d.toNat := by
  have hor := Nat.two_pow_add_eq_or_of_lt (i := 7) h 1
  simp only [Nat.reducePow, Nat.mul_one] at hor
  rw [UInt8.toNat_or]
  exact hor.symm

lemma digit_toNat (u : UInt32) {i : ℕ} (hi : i < 4) :
    (digit u i).toNat = 128 + u.toNat / 128 ^ (4 - i) % 128 := by
  have hu := u.toNat_lt
  match i, hi with
  | 0, _ =>
    have hd : ((u &&& 0xf0000000) >>> 28).toUInt8.toNat = u.toNat / 128 ^ 4 % 128 := by
      have := digit_mod u.toNat 0xf0000000 28 4 (by decide)
      simp at this ⊢
      omega
    rw [digit, or_high (by omega), hd]
  | 1, _ =>
    have hd : ((u &&& 0x0fe00000) >>> 21).toUInt8.toNat = u.toNat / 128 ^ 3 % 128 := by
      have := digit_mod u.toNat 0x0fe00000 21 7 (by decide)
      simp at this ⊢
      omega
    rw [digit, or_high (by omega), hd]
  | 2, _ =>
    have hd : ((u &&& 0x001fc000) >>> 14).toUInt8.toNat = u.toNat / 128 ^ 2 % 128 := by
      have := digit_mod u.toNat 0x001fc000 14 7 (by decide)
      simp at this ⊢
      omega
    rw [digit, or_high (by omega), hd]
  | 3, _ =>
    have hd : ((u &&& 0x00003f80) >>> 7).toUInt8.toNat = u.toNat / 128 ^ 1 % 128 := by
      have := digit_mod u.toNat 0x00003f80 7 7 (by decide)
      simp at this ⊢
      omega
    rw [digit, or_high (by omega), hd]

lemma last_toNat (u : UInt32) : (digit u 4).toNat = u.toNat % 128 := by
  have hand : u.toNat &&& 127 = u.toNat % 128 := Nat.and_two_pow_sub_one_eq_mod _ 7
  change (u &&& 0x7f).toUInt8.toNat = _
  rw [UInt32.toNat_toUInt8, UInt32.toNat_and]
  change (u.toNat &&& 127) % 256 = _
  omega

lemma readDigits_step (value : UInt32) (tmp : UInt8) (h : value.toNat < 2 ^ 25) :
    ((value <<< 7) ||| (tmp &&& 0x7f).toUInt32).toNat = 128 * value.toNat + tmp.toNat % 128 := by
  have hand : (tmp &&& 0x7f).toUInt32.toNat = tmp.toNat % 128 := by
    simpa using Nat.and_two_pow_sub_one_eq_mod tmp.toNat 7
  have hshift : (value <<< 7).toNat = 2 ^ 7 * value.toNat := by
    rw [UInt32.toNat_shiftLeft, Nat.shiftLeft_eq, Nat.mul_comm]
    exact Nat.mod_eq_of_lt (by simp; omega)
  rw [UInt32.toNat_or, hand, hshift]
  exact (Nat.two_pow_add_eq_or_of_lt (i := 7) (Nat.mod_lt _ (by decide)) _).symm

lemma high_iff (tmp : UInt8) : tmp &&& 0x80 ≠ 0 ↔ 128 ≤ tmp.toNat := by
  obtain ⟨b⟩ := tmp
  have hb : ∀ b : BitVec 8, (⟨b⟩ : UInt8) &&& 0x80 ≠ 0 ↔ 128 ≤ b.toNat := by decide
  exact hb b

lemma readDigits_high {value : UInt32} {tmp : UInt8} (rest : Bytes) (h : 128 ≤ tmp.toNat) :
    readDigits value (tmp :: rest) =
      readDigits ((value <<< 7) ||| (tmp &&& 0x7f).toUInt32) rest := by
  rw [readDigits]
  exact if_pos ((high_iff tmp).mpr h)

lemma readDigits_low {value : UInt32} {tmp : UInt8} (rest : Bytes) (h : tmp.toNat < 128) :
    readDigits value (tmp :: rest) = ((value <<< 7) ||| (tmp &&& 0x7f).toUInt32, rest) := by
  rw [readDigits]
  exact if_neg fun hne => absurd ((high_iff tmp).mp hne) (Nat.not_le.mpr h)

lemma readDigits_digits (u : UInt32) (rest : Bytes) :
    readDigits 0 ((List.range 5).map (digit u) ++ rest) = (u, rest) := by
  have hu := u.toNat_lt
  have h0 := digit_toNat u (i := 0) (by decide)
  have h1 := digit_toNat u (i := 1) (by decide)
  have h2 := digit_toNat u (i := 2) (by decide)
  have h3 := digit_toNat u (i := 3) (by decide)
  have h4 := last_toNat u
  have hzero : (0 : UInt32).toNat = 0 := rfl
  change readDigits 0 (digit u 0 :: digit u 1 :: digit u 2 :: digit u 3 :: digit u 4 :: rest) = _
  rw [readDigits_high _ (by omega), readDigits_high _ (by omega), readDigits_high _ (by omega),
    readDigits_high _ (by omega), readDigits_low _ (by omega)]
  refine Prod.ext (UInt32.toNat_inj.mp ?_) rfl
  have e0 := readDigits_step 0 (digit u 0) (by decide)
  have e1 := readDigits_step _ (digit u 1) (by rw [e0]; omega)
  have e2 := readDigits_step _ (digit u 2) (by rw [e1]; omega)
  have e3 := readDigits_step _ (digit u 3) (by rw [e2]; omega)
  have e4 := readDigits_step _ (digit u 4) (by rw [e3]; omega)
  simp only [Nat.reduceSub, Nat.reducePow] at h0 h1 h2 h3
  rw [hzero] at e0
  change UInt32.toNat _ = u.toNat
  rw [e4]
  omega

lemma readDigits_dropWhile (l : Bytes) (rest : Bytes) (h : l.dropWhile (· == 0x80) ≠ []) :
    readDigits 0 (l.dropWhile (· == 0x80) ++ rest) = readDigits 0 (l ++ rest) := by
  induction l with
  | nil => rfl
  | cons d l ih =>
    by_cases hd : d = 0x80
    · subst hd
      exact ih h
    · rw [List.dropWhile_cons_of_neg (by simpa using hd)]

lemma writeInt_ne_nil (val : ℤ) : writeInt val ≠ [] := by
  intro h
  have hall := List.dropWhile_eq_nil_iff.mp h (digit (UInt32.ofInt val) 4)
    (List.mem_map_of_mem (by decide))
  have hlast := last_toNat (UInt32.ofInt val)
  rw [eq_of_beq hall] at hlast
  change 128 = _ at hlast
  omega

lemma writeInt_length_pos (val : ℤ) : 0 < (writeInt val).length :=
  List.length_pos_iff.mpr (writeInt_ne_nil val)

lemma writeInt_length_le (val : ℤ) : (writeInt val).length ≤ 5 := by
  rw [writeInt]
  refine (List.length_dropWhile_le _ _).trans ?_
  rw [List.length_map, List.length_range]

def IsInt (val : ℤ) : Prop := 0 ≤ val ∧ val < 2 ^ 31

lemma readInt_writeInt {val : ℤ} (h : IsInt val) (rest : Bytes) :
    readInt (writeInt val ++ rest) = some (val, rest) := by
  obtain ⟨hpos, hlt⟩ := h
  have hread : readDigits 0 (writeInt val ++ rest) = (UInt32.ofInt val, rest) := by
    rw [writeInt, readDigits_dropWhile _ _ (writeInt_ne_nil val), readDigits_digits]
  have hval : (UInt32.ofInt val).toNat = val.toNat := by
    rw [UInt32.ofInt, UInt32.toNat_ofNat']
    omega
  have hne : writeInt val ++ rest ≠ [] := by simp [writeInt_ne_nil]
  rw [readInt, if_neg hne, hread]
  simp only [hval]
  rw [if_pos (by omega), Int.toNat_of_nonneg hpos]

lemma isInt_of_readInt {src rest : Bytes} {val : ℤ} (h : readInt src = some (val, rest)) :
    IsInt val := by
  rw [readInt] at h
  split at h
  · cases h
  · dsimp only at h
    split at h
    · cases h
      exact ⟨by omega, by omega⟩
    · cases h

lemma readString_writeString {data : Bytes} (h : data.length < 2 ^ 31) (rest : Bytes) :
    readString (writeString data ++ rest) = some (data, rest) := by
  have hint : IsInt data.length := ⟨by omega, by omega⟩
  have hle : (data.length : ℤ).toNat ≤ (data ++ rest).length := by simp
  rw [readString, writeString, List.append_assoc, readInt_writeInt hint]
  dsimp only [Option.bind_eq_bind, Option.bind_some]
  rw [if_pos hle, Int.toNat_natCast, List.take_left, List.drop_left]

lemma readInterface_writeInterface {iface : Interface} (hname : iface.name.length < 2 ^ 31)
    (hcurrent : IsInt iface.current) (hrevision : IsInt iface.revision) (hage : IsInt iface.age)
    (rest : Bytes) : readInterface (writeInterface iface ++ rest) = some (iface, rest) := by
  simp [readInterface, writeInterface, readString_writeString hname, readInt_writeInt hcurrent,
    readInt_writeInt hrevision, readInt_writeInt hage]

lemma isInt_of_readInterface {src rest : Bytes} {iface : Interface}
    (h : readInterface src = some (iface, rest)) :
    IsInt iface.current ∧ IsInt iface.revision ∧ IsInt iface.age := by
  simp only [readInterface, Option.bind_eq_bind, Option.bind_eq_some_iff, Prod.exists,
    Option.some.injEq, Prod.mk.injEq] at h
  obtain ⟨name, src₁, -, current, src₂, hcurrent, revision, src₃, hrevision, age, src₄, hage, rfl, -⟩ := h
  exact ⟨isInt_of_readInt hcurrent, isInt_of_readInt hrevision, isInt_of_readInt hage⟩

end ConfigVar

abbrev ConfigReader := OrderedMap Bytes Bytes

namespace ConfigReader

open ConfigVar

def readEntries : ℕ → Bytes → ConfigReader → Option ConfigReader
  | 0, _, vars => some vars
  | n + 1, src, vars => do
    let (key, src) ← readString src
    let (value, src) ← readString src
    if key = [] then none else
    -- the first of several variables of one name stays
    readEntries n src (if (vars.find key).isNone then vars.insert key value else vars)

def loadFromVar (src : Bytes) : Option ConfigReader := do
  let (numEntries, src) ← readInt src
  readEntries numEntries.toNat src .empty

def load (file : Bytes) : Option ConfigReader :=
  if file.length < 2 ^ 31 then loadFromVar file else none

def toVar (vars : ConfigReader) : Bytes :=
  writeInt vars.entries.length ++
    vars.entries.flatMap fun entry => writeString entry.1 ++ writeString entry.2

def save (vars : ConfigReader) (file : Bytes) : Option Bytes :=
  let out := vars.toVar
  if out.length < 2 ^ 31 then some (out ++ file.drop out.length) else none

def get (vars : ConfigReader) (varName : String) : Bytes := (vars.find (bytes varName)).getD []

def set (vars : ConfigReader) (varName : String) (value : Bytes) : ConfigReader :=
  vars.insert (bytes varName) value

lemma find_set (vars : ConfigReader) (varName : String) (value key : Bytes) :
    (vars.set varName value).find key = if key = bytes varName then some value else vars.find key := by
  rw [set, OrderedMap.find_insert]
  split_ifs <;> rfl

lemma keys_set {vars : ConfigReader} {varName : String} (value : Bytes)
    (hname : bytes varName ≠ []) (h : ∀ entry ∈ vars.entries, entry.1 ≠ []) :
    ∀ entry ∈ (vars.set varName value).entries, entry.1 ≠ [] := by
  intro entry hentry
  rcases OrderedMap.mem_insert.mp hentry with rfl | ⟨hentry, -⟩
  · exact hname
  · exact h entry hentry

lemma readEntries_entries {l : List (Bytes × Bytes)} (hkeys : ∀ entry ∈ l, entry.1 ≠ [])
    (hsize : ∀ entry ∈ l, entry.1.length < 2 ^ 31 ∧ entry.2.length < 2 ^ 31) (rest : Bytes)
    {vars vars' : ConfigReader} (h : vars.entries ++ l = vars'.entries) :
    readEntries l.length
      ((l.flatMap fun entry => writeString entry.1 ++ writeString entry.2) ++ rest) vars =
      some vars' := by
  induction l generalizing vars with
  | nil =>
    have heq : vars = vars' := by
      cases vars
      cases vars'
      simpa using h
    rw [heq]
    rfl
  | cons entry l ih =>
    obtain ⟨hkey, hvalue⟩ := hsize entry List.mem_cons_self
    have hsorted := vars'.sorted
    rw [← h] at hsorted
    have hlt : ∀ x ∈ vars.entries, x.1 < entry.1 := fun x hx =>
      (List.pairwise_append.mp hsorted).2.2 x hx entry List.mem_cons_self
    have hnew : vars.find entry.1 = none :=
      OrderedMap.find_eq_none.mpr fun x hx => ne_of_lt (hlt x hx)
    have hinsert := OrderedMap.entries_insert_of_lt entry.2 hlt
    rw [List.length_cons, readEntries, List.flatMap_cons, List.append_assoc, List.append_assoc,
      readString_writeString hkey]
    simp only [Option.bind_eq_bind, Option.bind_some, readString_writeString hvalue]
    rw [if_neg (hkeys entry List.mem_cons_self), if_pos (by rw [hnew]; rfl)]
    apply ih (fun x hx => hkeys x (List.mem_cons_of_mem _ hx))
      (fun x hx => hsize x (List.mem_cons_of_mem _ hx))
    rw [hinsert, List.append_assoc, ← h]
    rfl

lemma length_le_toVar (vars : ConfigReader) {entry : Bytes × Bytes} (h : entry ∈ vars.entries) :
    entry.1.length ≤ vars.toVar.length ∧ entry.2.length ≤ vars.toVar.length := by
  have hmem : (writeString entry.1 ++ writeString entry.2).length ≤
      (vars.entries.flatMap fun entry => writeString entry.1 ++ writeString entry.2).length := by
    have hin : writeString entry.1 ++ writeString entry.2 ∈
        vars.entries.map fun entry => writeString entry.1 ++ writeString entry.2 :=
      List.mem_map.mpr ⟨entry, h, rfl⟩
    rw [List.flatMap_def]
    exact (List.sublist_flatten_of_mem hin).length_le
  simp only [toVar, writeString, List.length_append] at hmem ⊢
  omega

lemma get_lt {vars : ConfigReader} {file file' : Bytes} (h : vars.save file = some file')
    (varName : String) : (vars.get varName).length < 2 ^ 31 := by
  rw [save] at h
  split at h
  · rename_i hsize
    rw [get]
    cases hfind : vars.find (bytes varName) with
    | none => decide
    | some value =>
      have hle := (length_le_toVar vars (OrderedMap.find_eq_some.mp hfind)).2
      exact Nat.lt_of_le_of_lt hle hsize
  · cases h

lemma entries_length_le (l : List (Bytes × Bytes)) :
    l.length ≤ (l.flatMap fun entry => writeString entry.1 ++ writeString entry.2).length := by
  induction l with
  | nil => exact Nat.le_refl 0
  | cons entry l ih =>
    have hpos := writeInt_length_pos (entry.1.length : ℤ)
    simp only [List.flatMap_cons, List.length_append, List.length_cons, writeString] at ih ⊢
    omega

lemma loadFromVar_append {vars : ConfigReader} (hkeys : ∀ entry ∈ vars.entries, entry.1 ≠ [])
    (hsize : vars.toVar.length < 2 ^ 31) (rest : Bytes) :
    loadFromVar (vars.toVar ++ rest) = some vars := by
  have hcount : IsInt vars.entries.length := by
    have hle := entries_length_le vars.entries
    rw [toVar, List.length_append] at hsize
    exact ⟨by omega, by omega⟩
  have hentries (entry : Bytes × Bytes) (hentry : entry ∈ vars.entries) :
      entry.1.length < 2 ^ 31 ∧ entry.2.length < 2 ^ 31 := by
    have hle := length_le_toVar vars hentry
    exact ⟨by omega, by omega⟩
  rw [loadFromVar, toVar, List.append_assoc, readInt_writeInt hcount]
  simp only [Option.bind_eq_bind, Option.bind_some, Int.toNat_natCast]
  exact readEntries_entries hkeys hentries rest rfl

lemma loadFromVar_toVar {vars : ConfigReader} (hkeys : ∀ entry ∈ vars.entries, entry.1 ≠ [])
    (hsize : vars.toVar.length < 2 ^ 31) : loadFromVar vars.toVar = some vars := by
  have hload := loadFromVar_append hkeys hsize []
  rwa [List.append_nil] at hload

lemma load_save {vars : ConfigReader} (hkeys : ∀ entry ∈ vars.entries, entry.1 ≠ [])
    {file file' : Bytes} (hfile : file.length < 2 ^ 31) (h : vars.save file = some file') :
    load file' = some vars := by
  rw [save] at h
  split at h
  · rename_i hsize
    obtain rfl := Option.some.inj h
    have hlength : (vars.toVar ++ file.drop vars.toVar.length).length < 2 ^ 31 := by
      rw [List.length_append, List.length_drop]
      omega
    rw [load, if_pos hlength]
    exact loadFromVar_append hkeys hsize _
  · cases h

end ConfigReader

end EncFS
