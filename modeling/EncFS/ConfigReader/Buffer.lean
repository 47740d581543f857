import EncFS.CInt
import EncFS.ConfigReader

/-! A `ConfigVar` as it is stored: a buffer with one offset for reading and writing. Sizes and offsets
are of type `int`. -/

set_option autoImplicit false

namespace EncFS

inductive ConfigError
  | assertFailed
  | outOfRange
  | pastEnd
  deriving DecidableEq

structure ConfigVarData where
  buffer : Bytes
  offset : ℤ

namespace ConfigVarData

variable (v : ConfigVarData)

def ofBytes (buf : Bytes) : ConfigVarData := ⟨buf, 0⟩

def resetOffset : ConfigVarData := { v with offset := 0 }

def size : ℤ := intOf v.buffer.length

def read (bytes : ℤ) : Except ConfigError (Bytes × ℤ × ConfigVarData) :=
  let toCopy := min bytes (intOf (v.buffer.length - v.offset))
  let v' : ConfigVarData := { v with offset := v.offset + toCopy }
  if 0 < toCopy then
    if 0 ≤ v.offset ∧ v.offset + toCopy ≤ v.buffer.length then
      .ok ((v.buffer.drop v.offset.toNat).take toCopy.toNat, toCopy, v')
    else
      .error .pastEnd
  else
    .ok ([], toCopy, v')

def write (data : Bytes) : Except ConfigError ConfigVarData :=
  let position := (v.offset % 4294967296).toNat
  let offset := intOf (v.offset + data.length)
  if v.buffer.length = position then
    .ok ⟨v.buffer ++ data, offset⟩
  else if position ≤ v.buffer.length then
    .ok ⟨v.buffer.take position ++ data ++ v.buffer.drop position, offset⟩
  else
    .error .outOfRange

def writeInt (val : ℤ) : Except ConfigError ConfigVarData := v.write (ConfigVar.writeInt val)

def readDigits (buf : Bytes) (bytes offset : ℤ) (value : UInt32) : Except ConfigError (UInt32 × ℤ) :=
  if 0 ≤ offset then
    match buf[offset.toNat]? with
    | some tmp =>
      let value := (value <<< 7) ||| (tmp &&& 0x7f).toUInt32
      if tmp &&& 0x80 ≠ 0 ∧ offset + 1 < bytes then
        readDigits buf bytes (offset + 1) value
      else
        .ok (value, offset + 1)
    | none => .error .pastEnd
  else
    .error .pastEnd
  termination_by (bytes - offset).toNat

def readInt : Except ConfigError (ℤ × ConfigVarData) :=
  if v.offset < v.size then do
    let (value, offset) ← readDigits v.buffer v.size v.offset 0
    -- an `int` must not be negative
    if value.toNat < 2 ^ 31 then .ok (value.toNat, { v with offset := offset })
    else .error .assertFailed
  else
    .error .assertFailed

def readString : Except ConfigError (Bytes × ConfigVarData) := do
  let (length, v) ← v.readInt
  let (data, readLen, v) ← v.read length
  if readLen = length then .ok (data, v) else .error .assertFailed

def readEntries : ℕ → ConfigVarData → ConfigReader → Except ConfigError (Option ConfigReader)
  | 0, _, vars => .ok (some vars)
  | n + 1, v, vars => do
    let (key, v) ← v.readString
    let (value, v) ← v.readString
    if key = [] then
      .ok none
    else
      readEntries n v (if (vars.find key).isNone then vars.insert key value else vars)

def loadFromVar : Except ConfigError (Option ConfigReader) := do
  let (numEntries, v) ← v.resetOffset.readInt
  readEntries numEntries.toNat v .empty

def writeEntry (entry : Bytes × Bytes) : Except ConfigError ConfigVarData := do
  let v ← v.writeInt entry.1.length
  let v ← v.write entry.1
  let v ← v.writeInt entry.2.length
  v.write entry.2

def writeEntries : List (Bytes × Bytes) → ConfigVarData → Except ConfigError ConfigVarData
  | [], v => .ok v
  | entry :: l, v => do
    let v ← v.writeEntry entry
    writeEntries l v

def toVar (vars : ConfigReader) : Except ConfigError ConfigVarData := do
  let v ← (ofBytes []).writeInt vars.entries.length
  writeEntries vars.entries v

section Reading

lemma ok_bind {α β : Type} (a : α) (f : α → Except ConfigError β) : (Except.ok a >>= f) = f a := rfl

def rest : Bytes := v.buffer.drop v.offset.toNat

structure Within : Prop where
  nonneg : 0 ≤ v.offset
  le : v.offset ≤ v.buffer.length

/-- A reader of the buffer fails with an assertion, or it leaves the offset inside, where a reader of
the bytes from the offset on has got to `y`. -/
inductive Reads {α : Type} : Except ConfigError (α × ConfigVarData) → Option (α × Bytes) → Prop
  | failed : Reads (.error .assertFailed) none
  | ok (a : α) {v' : ConfigVarData} : v'.Within → v'.buffer = v.buffer →
      Reads (.ok (a, v')) (some (a, v'.rest))

def Short : Prop := v.buffer.length < 2 ^ 31

variable {v}

lemma Short.of_buffer {v' : ConfigVarData} (h : v.Short) (hbuf : v'.buffer = v.buffer) : v'.Short := by
  rw [Short] at h ⊢
  rwa [hbuf]

lemma size_of_short (h : v.Short) : v.size = v.buffer.length :=
  intOf_eq (Int.natCast_nonneg _) (by rw [Short] at h; omega)

lemma readDigits_spec (buf : Bytes) {bytes : ℤ} (hbytes : bytes ≤ buf.length) {offset : ℤ}
    (hoffset : 0 ≤ offset) (hlt : offset < bytes) (value : UInt32) :
    ∃ value' offset', readDigits buf bytes offset value = .ok (value', offset') ∧
      0 ≤ offset' ∧ offset' ≤ bytes ∧
      (bytes = buf.length → ConfigVar.readDigits value (buf.drop offset.toNat) =
        (value', buf.drop offset'.toNat)) := by
  have hindex : offset.toNat < buf.length := by omega
  have hnext : (offset + 1).toNat = offset.toNat + 1 := by omega
  rw [readDigits, if_pos hoffset, List.getElem?_eq_getElem hindex]
  dsimp only
  split
  case isTrue hmore =>
    obtain ⟨value', offset', hrun, h0, hle, hrest⟩ :=
      readDigits_spec buf hbytes (by omega) hmore.2 (value <<< 7 ||| (buf[offset.toNat] &&& 0x7f).toUInt32)
    refine ⟨value', offset', hrun, h0, hle, fun hsize => ?_⟩
    rw [← hrest hsize, hnext, List.drop_eq_getElem_cons hindex, ConfigVar.readDigits]
    exact if_pos hmore.1
  case isFalse hlast =>
    refine ⟨_, _, rfl, by omega, by omega, fun hsize => ?_⟩
    rw [hnext, List.drop_eq_getElem_cons hindex, ConfigVar.readDigits]
    split
    case isTrue hhigh =>
      -- the number goes on, but the buffer does not
      have hend : buf.length ≤ offset.toNat + 1 := by
        by_contra hmore
        exact hlast ⟨hhigh, by omega⟩
      rw [List.drop_eq_nil_of_le hend, ConfigVar.readDigits]
    case isFalse => rfl
  termination_by (bytes - offset).toNat

lemma readInt_spec (h : v.Within) :
    ∃ y, v.Reads v.readInt y ∧ (∀ val, val ∈ y.map Prod.fst → 0 ≤ val) ∧
      (v.Short → y = ConfigVar.readInt v.rest) := by
  have hsize : v.size ≤ v.buffer.length := intOf_le (Int.natCast_nonneg _)
  rw [readInt, ConfigVar.readInt]
  by_cases hlt : v.offset < v.size
  · obtain ⟨value, offset, hrun, h0, hle, hrest⟩ := readDigits_spec v.buffer hsize h.nonneg hlt 0
    have hne : v.rest ≠ [] := by
      intro hnil
      have hdrop := List.drop_eq_nil_iff.mp hnil
      have := h.nonneg
      omega
    have hwithin : Within { v with offset := offset } := ⟨h0, Int.le_trans hle hsize⟩
    have hdigits (hshort : v.Short) : ConfigVar.readDigits 0 v.rest =
        (value, rest { v with offset := offset }) := hrest (size_of_short hshort)
    rw [if_pos hlt, if_neg hne, hrun]
    simp only [bind, Except.bind]
    by_cases hval : value.toNat < 2 ^ 31
    · refine ⟨_, by rw [if_pos hval]; exact .ok (value.toNat : ℤ) hwithin rfl, ?_, fun hshort => ?_⟩
      · rintro _ ⟨⟩
        exact Int.natCast_nonneg _
      simp only [hdigits hshort, hval, if_true]
    · refine ⟨_, by rw [if_neg hval]; exact .failed, by simp, fun hshort => ?_⟩
      simp only [hdigits hshort, hval, if_false]
  · refine ⟨_, by rw [if_neg hlt]; exact .failed, by simp, fun hshort => ?_⟩
    rw [size_of_short hshort] at hlt
    have hnil : v.rest = [] := List.drop_eq_nil_of_le (by omega)
    rw [if_pos hnil]

lemma rest_length (h : v.Within) : (v.rest.length : ℤ) = v.buffer.length - v.offset := by
  have := h.nonneg
  have := h.le
  rw [rest, List.length_drop]
  omega

lemma available_of_short (h : v.Within) (hshort : v.Short) :
    intOf (v.buffer.length - v.offset) = v.rest.length := by
  have hrest := rest_length h
  have hoffset := h.nonneg
  rw [Short] at hshort
  rw [← hrest]
  exact intOf_eq (Int.natCast_nonneg _) (by omega)

lemma read_spec (h : v.Within) {bytes : ℤ} (hbytes : 0 ≤ bytes) :
    ∃ data readLen v', v.read bytes = .ok (data, readLen, v') ∧
      (readLen = bytes ↔ bytes ≤ intOf (v.buffer.length - v.offset)) ∧
      (readLen = bytes → data = v.rest.take bytes.toNat ∧ v'.rest = v.rest.drop bytes.toNat ∧
        v'.Within ∧ v'.buffer = v.buffer) := by
  have hle := intOf_le (n := v.buffer.length - v.offset) (by have := h.le; omega)
  have hoffset := h.nonneg
  rw [read]
  generalize intOf (v.buffer.length - v.offset) = available at hle ⊢
  have hmin : min bytes available = bytes ↔ bytes ≤ available := by omega
  by_cases hpos : 0 < min bytes available
  · refine ⟨_, _, _, by rw [if_pos hpos, if_pos ⟨hoffset, by omega⟩], hmin, fun hall => ?_⟩
    have hdrop : (v.offset + bytes).toNat = v.offset.toNat + bytes.toNat := by omega
    rw [hall]
    refine ⟨rfl, ?_, ⟨by dsimp only; omega, by dsimp only; omega⟩, rfl⟩
    rw [rest, rest, List.drop_drop, hdrop]
  · refine ⟨_, _, _, by rw [if_neg hpos], hmin, fun hall => ?_⟩
    have hzero : bytes = 0 := by omega
    subst hzero
    rw [hall]
    exact ⟨by simp, by simp [rest], ⟨by dsimp only; omega, by have := h.le; dsimp only; omega⟩, rfl⟩

lemma readString_spec (h : v.Within) :
    ∃ y, v.Reads v.readString y ∧ (v.Short → y = ConfigVar.readString v.rest) := by
  obtain ⟨y, hreads, hnonneg, hy⟩ := readInt_spec h
  rw [readString, ConfigVar.readString]
  generalize v.readInt = x at hreads ⊢
  cases hreads with
  | failed =>
    refine ⟨none, .failed, fun hshort => ?_⟩
    rw [← hy hshort]
    rfl
  | @ok length v₁ hwithin hbuf =>
    have hlength : 0 ≤ length := hnonneg length rfl
    obtain ⟨data, readLen, v₂, hread, hiff, hall⟩ := read_spec hwithin hlength
    simp only [bind, Except.bind, hread]
    have hshort_iff (hshort : v.Short) : readLen = length ↔ length.toNat ≤ v₁.rest.length := by
      rw [hiff, available_of_short hwithin (hshort.of_buffer hbuf)]
      omega
    by_cases hlen : readLen = length
    · obtain ⟨hdata, hrest, hwithin₂, hbuf₂⟩ := hall hlen
      refine ⟨_, by rw [if_pos hlen]; exact .ok data hwithin₂ (hbuf₂.trans hbuf), fun hshort => ?_⟩
      rw [← hy hshort]
      simp only [Option.bind_some]
      rw [if_pos ((hshort_iff hshort).mp hlen), hdata, hrest]
    · refine ⟨none, by rw [if_neg hlen]; exact .failed, fun hshort => ?_⟩
      rw [← hy hshort]
      simp only [Option.bind_some]
      rw [if_neg (mt (hshort_iff hshort).mpr hlen)]

lemma readEntries_spec (h : v.Within) (n : ℕ) (vars : ConfigReader) :
    (readEntries n v vars = .error .assertFailed ∨ ∃ result, readEntries n v vars = .ok result) ∧
      (v.Short → (readEntries n v vars).toOption.join = ConfigReader.readEntries n v.rest vars) := by
  induction n generalizing v vars with
  | zero => exact ⟨.inr ⟨_, rfl⟩, fun _ => rfl⟩
  | succ n ih =>
    rw [readEntries, ConfigReader.readEntries]
    obtain ⟨y, hreads, hy⟩ := readString_spec h
    generalize v.readString = x at hreads ⊢
    cases hreads with
    | failed =>
      refine ⟨.inl rfl, fun hshort => ?_⟩
      rw [← hy hshort]
      rfl
    | @ok key v₁ hwithin hbuf =>
      rw [ok_bind]
      obtain ⟨y₁, hreads₁, hy₁⟩ := readString_spec hwithin
      dsimp only
      generalize v₁.readString = x₁ at hreads₁ ⊢
      cases hreads₁ with
      | failed =>
        refine ⟨.inl rfl, fun hshort => ?_⟩
        rw [← hy hshort]
        simp only [Option.bind_eq_bind, Option.bind_some]
        rw [← hy₁ (hshort.of_buffer hbuf)]
        rfl
      | @ok value v₂ hwithin₂ hbuf₂ =>
        rw [ok_bind]
        dsimp only
        by_cases hkey : key = []
        · rw [if_pos hkey]
          refine ⟨.inr ⟨none, rfl⟩, fun hshort => ?_⟩
          rw [← hy hshort]
          simp only [Option.bind_eq_bind, Option.bind_some]
          rw [← hy₁ (hshort.of_buffer hbuf), Option.bind_some, if_pos hkey]
          rfl
        · rw [if_neg hkey]
          obtain ⟨hend, hrest⟩ :=
            ih hwithin₂ (if (vars.find key).isNone then vars.insert key value else vars)
          refine ⟨hend, fun hshort => ?_⟩
          rw [← hy hshort]
          simp only [Option.bind_eq_bind, Option.bind_some]
          rw [← hy₁ (hshort.of_buffer hbuf), Option.bind_some, if_neg hkey]
          exact hrest ((hshort.of_buffer hbuf).of_buffer hbuf₂)

lemma loadFromVar_spec (v : ConfigVarData) :
    (v.loadFromVar = .error .assertFailed ∨ ∃ result, v.loadFromVar = .ok result) ∧
      (v.Short → v.loadFromVar.toOption.join = ConfigReader.loadFromVar v.buffer) := by
  have hwithin : v.resetOffset.Within := ⟨Int.le_refl 0, Int.natCast_nonneg _⟩
  obtain ⟨y, hreads, -, hy⟩ := readInt_spec hwithin
  have hbuffer : v.resetOffset.rest = v.buffer := rfl
  rw [hbuffer] at hy
  rw [loadFromVar, ConfigReader.loadFromVar]
  generalize v.resetOffset.readInt = x at hreads ⊢
  cases hreads with
  | failed =>
    refine ⟨.inl rfl, fun hshort => ?_⟩
    rw [← hy hshort]
    rfl
  | @ok numEntries v₁ hwithin₁ hbuf =>
    obtain ⟨hend, hrest⟩ := readEntries_spec hwithin₁ numEntries.toNat .empty
    refine ⟨hend, fun hshort => ?_⟩
    rw [← hy hshort]
    exact hrest (hshort.of_buffer hbuf)

end Reading

section Writing

structure AtEnd (v : ConfigVarData) : Prop where
  offset : v.offset = intOf v.buffer.length
  lt : v.buffer.length < 4294967296

variable {v}

lemma write_spec (h : v.AtEnd) (data : Bytes) (hlen : v.buffer.length + data.length < 4294967296) :
    ∃ v', v.write data = .ok v' ∧ v'.AtEnd ∧ v'.buffer = v.buffer ++ data := by
  have hposition : (v.offset % 4294967296).toNat = v.buffer.length := by
    rw [h.offset, intOf]
    omega
  have hoffset : intOf (v.offset + data.length) = intOf (v.buffer ++ data).length := by
    rw [h.offset, List.length_append, intOf, intOf, intOf]
    omega
  rw [write, hposition]
  refine ⟨_, if_pos rfl, ⟨hoffset, ?_⟩, rfl⟩
  rwa [List.length_append]

lemma writeEntry_spec (h : v.AtEnd) (entry : Bytes × Bytes)
    (hlen : v.buffer.length + (ConfigVar.writeString entry.1 ++ ConfigVar.writeString entry.2).length <
      4294967296) :
    ∃ v', v.writeEntry entry = .ok v' ∧ v'.AtEnd ∧
      v'.buffer = v.buffer ++ (ConfigVar.writeString entry.1 ++ ConfigVar.writeString entry.2) := by
  simp only [ConfigVar.writeString, List.length_append] at hlen
  obtain ⟨v₁, h₁, hend₁, hbuf₁⟩ := write_spec h (ConfigVar.writeInt entry.1.length) (by omega)
  have hlen₁ := congrArg List.length hbuf₁
  rw [List.length_append] at hlen₁
  obtain ⟨v₂, h₂, hend₂, hbuf₂⟩ := write_spec hend₁ entry.1 (by omega)
  have hlen₂ := congrArg List.length hbuf₂
  rw [List.length_append] at hlen₂
  obtain ⟨v₃, h₃, hend₃, hbuf₃⟩ :=
    write_spec hend₂ (ConfigVar.writeInt entry.2.length) (by omega)
  have hlen₃ := congrArg List.length hbuf₃
  rw [List.length_append] at hlen₃
  obtain ⟨v₄, h₄, hend₄, hbuf₄⟩ := write_spec hend₃ entry.2 (by omega)
  refine ⟨v₄, ?_, hend₄, ?_⟩
  · rw [writeEntry, writeInt, h₁, ok_bind, h₂, ok_bind, writeInt, h₃, ok_bind, h₄]
  · rw [hbuf₄, hbuf₃, hbuf₂, hbuf₁]
    simp only [ConfigVar.writeString, List.append_assoc]

lemma writeEntries_spec (h : v.AtEnd) {l : List (Bytes × Bytes)}
    (hlen : v.buffer.length + (l.flatMap fun entry =>
      ConfigVar.writeString entry.1 ++ ConfigVar.writeString entry.2).length < 4294967296) :
    ∃ v', writeEntries l v = .ok v' ∧ v'.buffer = v.buffer ++ l.flatMap fun entry =>
      ConfigVar.writeString entry.1 ++ ConfigVar.writeString entry.2 := by
  induction l generalizing v with
  | nil => exact ⟨v, rfl, by simp⟩
  | cons entry l ih =>
    rw [List.flatMap_cons, List.length_append] at hlen
    obtain ⟨v₁, h₁, hend₁, hbuf₁⟩ := writeEntry_spec h entry (by omega)
    have hlen₁ := congrArg List.length hbuf₁
    rw [List.length_append] at hlen₁
    obtain ⟨v', h', hbuf'⟩ := ih hend₁ (by omega)
    refine ⟨v', ?_, ?_⟩
    · rw [writeEntries, h₁, ok_bind, h']
    · rw [hbuf', hbuf₁, List.flatMap_cons, List.append_assoc]

lemma toVar_spec (vars : ConfigReader) (hlen : vars.toVar.length < 4294967296) :
    ∃ v, toVar vars = .ok v ∧ v.buffer = vars.toVar := by
  have hempty : (ofBytes []).AtEnd := ⟨by simp [ofBytes, intOf], by simp [ofBytes]⟩
  rw [ConfigReader.toVar, List.length_append] at hlen
  obtain ⟨v₁, h₁, hend₁, hbuf₁⟩ :=
    write_spec hempty (ConfigVar.writeInt vars.entries.length) (by simp [ofBytes]; omega)
  have hbuf₁ : v₁.buffer = ConfigVar.writeInt vars.entries.length := hbuf₁
  obtain ⟨v, h, hbuf⟩ := writeEntries_spec hend₁ (l := vars.entries) (by rw [hbuf₁]; exact hlen)
  refine ⟨v, ?_, ?_⟩
  · rw [toVar, writeInt, h₁, ok_bind, h]
  · rw [hbuf, hbuf₁, ConfigReader.toVar]

end Writing

lemma loadFromVar_of_short {buf : Bytes} (h : buf.length < 2 ^ 31) {vars : ConfigReader}
    (hload : ConfigReader.loadFromVar buf = some vars) :
    (ofBytes buf).loadFromVar = .ok (some vars) := by
  have hresult := (loadFromVar_spec (ofBytes buf)).2 h
  rw [ofBytes] at hresult ⊢
  dsimp only at hresult
  rw [hload] at hresult
  generalize loadFromVar ⟨buf, 0⟩ = x at hresult ⊢
  cases x with
  | error e => cases hresult
  | ok result => exact congrArg Except.ok hresult

lemma rest_eq_nil {v : ConfigVarData} (h : v.Within) (hrest : v.rest = []) :
    v.offset = v.buffer.length := by
  have hlen := rest_length h
  rw [hrest, List.length_nil] at hlen
  omega

lemma readInt_at_end {v : ConfigVarData} {buf : Bytes} {val : ℤ} (hval : ConfigVar.IsInt val)
    (hbuf : v.buffer = buf ++ ConfigVar.writeInt val) (hshort : v.Short) :
    readInt { v with offset := buf.length } = .ok (val, { v with offset := v.buffer.length }) := by
  have hwithin : Within { v with offset := buf.length } := by
    refine ⟨Int.natCast_nonneg _, ?_⟩
    dsimp only
    rw [hbuf, List.length_append]
    omega
  have hrest : rest { v with offset := buf.length } = ConfigVar.writeInt val ++ [] := by
    simp [rest, hbuf]
  obtain ⟨y, hreads, -, hy⟩ := readInt_spec hwithin
  rw [hy hshort, hrest, ConfigVar.readInt_writeInt hval] at hreads
  generalize readInt { v with offset := buf.length } = x at hreads ⊢
  generalize hnil : ([] : Bytes) = none_left at hreads
  cases hreads with
  | @ok _ v' hwithin' hbuf' =>
    have hoffset := rest_eq_nil hwithin' hnil.symm
    obtain ⟨buffer, offset⟩ := v'
    dsimp only at hoffset hbuf'
    rw [hoffset, hbuf']

/-- A buffer that is shorter than the largest `int` keeps a map and any integer; and whatever is
loaded, the bytes are read in their order up to an end or an assertion. -/
theorem config_store :
    (∀ vars : ConfigReader, (∀ entry ∈ vars.entries, entry.1 ≠ []) → vars.toVar.length < 2 ^ 31 →
      ∃ v, toVar vars = .ok v ∧ (ofBytes v.buffer).loadFromVar = .ok (some vars)) ∧
    (∀ (buf : Bytes) (val : ℤ), 0 ≤ val → val < 2 ^ 31 →
      buf.length + (ConfigVar.writeInt val).length < 2 ^ 31 →
      ∃ v, (ConfigVarData.mk buf buf.length).writeInt val = .ok v ∧
        readInt { v with offset := buf.length } = .ok (val, { v with offset := v.buffer.length })) ∧
    ∀ buf, (ofBytes buf).loadFromVar = .error .assertFailed ∨
      ∃ result, (ofBytes buf).loadFromVar = .ok result := by
  refine ⟨fun vars hkeys hlen => ?_, fun buf val h0 hlt hlen => ?_, fun buf => (loadFromVar_spec _).1⟩
  · obtain ⟨v, h, hbuf⟩ := toVar_spec vars (by omega)
    refine ⟨v, h, ?_⟩
    rw [hbuf]
    exact loadFromVar_of_short hlen (ConfigReader.loadFromVar_toVar hkeys hlen)
  · have hend : AtEnd ⟨buf, buf.length⟩ := by
      refine ⟨(intOf_eq (Int.natCast_nonneg _) ?_).symm, ?_⟩
      · omega
      · dsimp only
        omega
    obtain ⟨v, h, -, hbuf⟩ := write_spec hend (ConfigVar.writeInt val) (by dsimp only; omega)
    refine ⟨v, h, readInt_at_end ⟨h0, hlt⟩ hbuf ?_⟩
    rw [Short, hbuf, List.length_append]
    exact hlen

def rootKey : ConfigReader := ConfigReader.set .empty "keyData" [1, 2, 3]

theorem config_store_rootKey :
    (∃ v, toVar rootKey = .ok v ∧ (ofBytes v.buffer).loadFromVar = .ok (some rootKey)) ∧
      ∃ v, (ConfigVarData.mk [7] 1).writeInt 300 = .ok v ∧
        readInt { v with offset := 1 } = .ok (300, { v with offset := v.buffer.length }) :=
  ⟨config_store.1 rootKey (by decide) (by decide),
    config_store.2.1 [7] 300 (by decide) (by decide) (by decide)⟩

lemma loadFromVar_negative {v : ConfigVarData} (h : v.size < 0) :
    v.loadFromVar = .error .assertFailed := by
  have hsize : ¬v.resetOffset.offset < v.resetOffset.size := Int.not_lt.mpr (Int.le_of_lt h)
  rw [loadFromVar, readInt, if_neg hsize]
  rfl

lemma long_value {value : Bytes} (hvalue : value.length = 2147483647) {vars : ConfigReader}
    (hvars : vars.entries = [([1], value)]) {v : ConfigVarData} (h : toVar vars = .ok v) :
    (ofBytes v.buffer).loadFromVar = .error .assertFailed := by
  have hpos := ConfigVar.writeInt_length_pos 1
  have hcount := ConfigVar.writeInt_length_le 1
  have hlen := ConfigVar.writeInt_length_le value.length
  have hvar : vars.toVar.length = (ConfigVar.writeInt 1).length + ((ConfigVar.writeInt 1).length + 1 +
      ((ConfigVar.writeInt value.length).length + value.length)) := by
    simp [ConfigReader.toVar, hvars, ConfigVar.writeString]
    omega
  obtain ⟨v', h', hbuf⟩ := toVar_spec vars (by omega)
  rw [h] at h'
  obtain rfl := Except.ok.inj h'
  apply loadFromVar_negative
  rw [size, ofBytes, hbuf, intOf]
  omega

theorem not_config_store :
    ∃ vars : ConfigReader, (∀ entry ∈ vars.entries, entry.1 ≠ [] ∧ entry.1.length < 2147483648 ∧
      entry.2.length < 2147483648) ∧
      ∀ v, toVar vars = .ok v → (ofBytes v.buffer).loadFromVar = .error .assertFailed := by
  obtain ⟨value, hvalue⟩ : ∃ value : Bytes, value.length = 2147483647 :=
    ⟨List.replicate 2147483647 0, List.length_replicate⟩
  refine ⟨⟨[([1], value)], List.pairwise_singleton _ _⟩, ?_, fun v h => long_value hvalue rfl h⟩
  intro entry hentry
  obtain rfl := List.mem_singleton.mp hentry
  refine ⟨List.cons_ne_nil _ _, ?_, ?_⟩
  · dsimp only [List.length_cons, List.length_nil]
    omega
  · dsimp only
    omega

end ConfigVarData

end EncFS
