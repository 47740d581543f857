import EncFS.DirNode.Descendants
import EncFS.NameIO.RoundTrip

set_option autoImplicit false

namespace EncFS

open Buffer
open NameIO (decodePath recodePath)

lemma cString_filled (size : ℕ) (name : Bytes) : cString (filled size name) = cString name := by
  have hzeros : (List.replicate (size - name.length) (0 : UInt8)).takeWhile (· != 0) = [] := by
    cases size - name.length with
    | zero => rfl
    | succ n => rfl
  rw [cString, filled, List.takeWhile_append, hzeros, List.append_nil]
  split
  case isTrue h => exact (List.takeWhile_prefix _).eq_of_length h |>.symm
  case isFalse => rfl

lemma readAt_filled {size : ℕ} {name : Bytes} (h : name.length < size) :
    readAt (filled size name) name.length = some 0 := by
  rw [readAt, filled, List.getElem?_append_right (Nat.le_refl _), Nat.sub_self,
    List.getElem?_replicate, if_pos (by omega)]

section CodeInBuffer

variable {memory : ℕ} {length : ℕ → ℤ} {codeIn : BufferCoding} {code : NameCoding}

def checkedCoding (length : ℕ → ℤ) (code : NameCoding) : NameCoding := fun name iv => do
  let (codeBuf, iv) ← code name iv
  if (codeBuf.length : ℤ) ≤ length name.length then
    pure (cString codeBuf, iv)
  else
    .error .assertFailed

lemma bufferInit_fails {n : ℕ} (h : ¬(n ≤ 32 ∨ n ≤ memory)) {α : Type} (f : Bytes → BufferAction α)
    (log : List ℕ) : (bufferInit memory n >>= f) log = .error .badAlloc (log ++ [n]) := by
  have hinit : bufferInit memory n log = .error .badAlloc (log ++ [n]) := by
    rw [bufferInit, if_neg h]
    rfl
  simp only [bind, EStateM.bind, hinit]

lemma codeInBuffer_yields {name : Bytes} {iv : Option UInt64} {sizes : List ℕ}
    (h : Performs codeIn code name iv (bufferSize (length name.length)) sizes) (log : List ℕ) :
    Yields (codeInBuffer memory length codeIn name iv) log
      (fun r log' => checkedCoding length code name iv = .ok r ∧
        log' = log ++ bufferSize (length name.length) :: sizes)
      fun e log' => e = .badAlloc ∧ memory < bufferSize (length name.length) ∨
        ∃ e' made, e = .rlog e' ∧ checkedCoding length code name iv = .error e' ∧ made <+: sizes ∧
          log' = log ++ bufferSize (length name.length) :: made := by
  generalize hsize : bufferSize (length name.length) = size at h ⊢
  by_cases hroom : size ≤ 32 ∨ size ≤ memory
  case neg =>
    refine .of_error (e := .badAlloc) (t := log ++ [size]) ?_ (.inl ⟨rfl, by omega⟩)
    rw [codeInBuffer, hsize]
    exact bufferInit_fails hroom _ log
  have hin := h (log ++ [size])
  have hlog (made : List ℕ) : log ++ [size] ++ made = log ++ size :: made := by
    rw [List.append_assoc, List.singleton_append]
  rw [Yields, codeInBuffer, hsize, bufferInit_ok hroom]
  simp only [bind, EStateM.bind, checkedCoding, Except.bind]
  cases hcode : code name iv with
  | error e =>
    rw [hcode] at hin
    obtain ⟨made, hmade, hin⟩ := hin
    rw [hin, hlog]
    exact .inr ⟨e, made, rfl, rfl, hmade, rfl⟩
  | ok r =>
    obtain ⟨coded, iv'⟩ := r
    rw [hcode] at hin
    dsimp only at hin ⊢
    rw [hin, hlog]
    dsimp only
    by_cases hfits : (coded.length : ℤ) ≤ length name.length
    · have hlt : coded.length < size := by
        rw [← hsize, bufferSize, toUnsigned, if_pos (by omega)]
        omega
      rw [if_pos hfits, if_pos hfits, readAt_filled hlt, cString_filled]
      exact ⟨rfl, rfl⟩
    · rw [if_neg hfits, if_neg hfits]
      exact .inr ⟨.assertFailed, sizes, rfl, rfl, List.prefix_refl _, rfl⟩

end CodeInBuffer

section Names

variable {name rest : Bytes}

def namesToCode (path : Bytes) : List Bytes :=
  (components path).filter (!isDots ·)

lemma namesToCode_slash (path : Bytes) : namesToCode (slash :: path) = namesToCode path := by
  rw [namesToCode, components_slash]
  rfl

lemma namesToCode_component (hne : name ≠ []) (hname : slash ∉ name) (hrest : Boundary rest) :
    namesToCode (name ++ rest) =
      if isDots name then namesToCode rest else name :: namesToCode rest := by
  rw [namesToCode, components_cons hne hname hrest]
  split
  case isTrue h => exact List.filter_cons_of_neg (by simpa using h)
  case isFalse h => exact List.filter_cons_of_pos (by simpa using h)

lemma length_le_of_mem_namesToCode {path : Bytes} (h : name ∈ namesToCode path) :
    name.length ≤ path.length := by
  induction path using path_induction with
  | nil => cases h
  | slashed path ih =>
    rw [namesToCode_slash] at h
    exact (ih h).trans (Nat.le_succ _)
  | component first rest hne hname hrest ih =>
    rw [namesToCode_component hne hname hrest] at h
    rw [List.length_append]
    split at h
    case isTrue =>
      have := ih h
      omega
    case isFalse =>
      rcases List.mem_cons.mp h with rfl | h
      · omega
      · have := ih h
        omega

end Names

def Bounded (n : ℕ) (sizes : List ℕ) : Prop :=
  ∀ size ∈ sizes, 1 ≤ size ∧ size ≤ n + 1

lemma Bounded.nil (n : ℕ) : Bounded n [] := by
  intro size h
  cases h

lemma Bounded.append {n : ℕ} {sizes made : List ℕ} (h : Bounded n sizes) (hmade : Bounded n made) :
    Bounded n (sizes ++ made) := by
  intro size hsize
  rcases List.mem_append.mp hsize with hsize | hsize
  · exact h size hsize
  · exact hmade size hsize

/-- The run has the same outcome as without buffers. -/
def Computes {α : Type} (n : ℕ) (run : BufferAction α) (result : Except RlogError α) : Prop :=
  ∀ log, Bounded n log → Yields run log (fun a log' => result = .ok a ∧ Bounded n log')
    fun e log' => (∃ e', e = .rlog e' ∧ result = .error e') ∧ Bounded n log'

namespace Computes

variable {α β : Type} {n : ℕ} {run : BufferAction α} {result : Except RlogError α}

lemma pure (a : α) : Computes n (pure a) (.ok a) :=
  fun _ hlog => .pure ⟨rfl, hlog⟩

lemma rlog (e : RlogError) : Computes n (rlog e : BufferAction α) (.error e) :=
  fun _ hlog => .of_error rfl ⟨⟨e, rfl, rfl⟩, hlog⟩

lemma bind {f : α → BufferAction β} {g : α → Except RlogError β} (h : Computes n run result)
    (hf : ∀ a, Computes n (f a) (g a)) : Computes n (run >>= f) (result >>= g) := by
  intro log hlog
  apply Yields.bind
  apply (h log hlog).mono
  · rintro a log' ⟨rfl, hlog'⟩
    exact hf a log' hlog'
  · rintro e log' ⟨⟨e', rfl, rfl⟩, hlog'⟩
    exact ⟨⟨e', rfl, rfl⟩, hlog'⟩

lemma map (f : α → β) (h : Computes n run result) : Computes n (f <$> run) (f <$> result) := by
  intro log hlog
  have hrun := h log hlog
  simp only [Functor.map, EStateM.map, Yields] at hrun ⊢
  cases hresult : run log with
  | ok a log' =>
    rw [hresult] at hrun
    obtain ⟨rfl, hlog'⟩ := hrun
    exact ⟨rfl, hlog'⟩
  | error e log' =>
    rw [hresult] at hrun
    obtain ⟨⟨e', rfl, rfl⟩, hlog'⟩ := hrun
    exact ⟨⟨e', rfl, rfl⟩, hlog'⟩

end Computes

section Path

variable {n memory : ℕ} {length : ℕ → ℤ} {codeIn : BufferCoding} {code : NameCoding}

lemma codeInBuffer_computes (hmemory : n + 1 ≤ memory) {name : Bytes} {iv : Option UInt64}
    {sizes : List ℕ} (h : Performs codeIn code name iv (bufferSize (length name.length)) sizes)
    (hsizes : Bounded n (bufferSize (length name.length) :: sizes)) :
    Computes n (codeInBuffer memory length codeIn name iv) (checkedCoding length code name iv) := by
  intro log hlog
  apply (codeInBuffer_yields h log).mono
  · rintro r log' ⟨hr, rfl⟩
    exact ⟨hr, hlog.append hsizes⟩
  · rintro e log' (⟨-, hlarge⟩ | ⟨e', made, rfl, he, hmade, rfl⟩)
    · have := (hsizes _ List.mem_cons_self).2
      omega
    · refine ⟨⟨e', rfl, he⟩, hlog.append fun size hsize => hsizes size ?_⟩
      exact (List.prefix_cons_inj _ |>.mpr hmade).mem hsize

@[simp] lemma recodePathIn_nil (iv : Option UInt64) (output : Bytes) :
    recodePathIn memory length codeIn [] iv output = pure (output, iv) := by
  rw [recodePathIn]

lemma recodePathIn_slash (path : Bytes) (iv : Option UInt64) (output : Bytes) :
    recodePathIn memory length codeIn (slash :: path) iv output =
      recodePathIn memory length codeIn path iv (if output = [] then [] else output ++ [slash]) := by
  rw [recodePathIn, if_pos rfl]

lemma recodePathIn_component {name rest : Bytes} (hne : name ≠ []) (hname : slash ∉ name)
    (hrest : Boundary rest) (iv : Option UInt64) (output : Bytes) :
    recodePathIn memory length codeIn (name ++ rest) iv output =
      if isDots name then recodePathIn memory length codeIn rest iv (output ++ name)
      else if length name.length ≤ 0 then rlog .nameTooSmall
      else (do
        let (coded, iv) ← codeInBuffer memory length codeIn name iv
        recodePathIn memory length codeIn rest iv (output ++ coded)) := by
  have hfirst := firstComponent_append hname hrest
  have hafter := afterComponent_append hname hrest
  cases name with
  | nil => exact absurd rfl hne
  | cons c name =>
    have hc : c ≠ slash := fun h => hname (h ▸ List.mem_cons_self)
    rw [List.cons_append] at hfirst hafter ⊢
    rw [recodePathIn, if_neg hc]
    simp only [hfirst, hafter]

lemma recodePathIn_computes {path : Bytes}
    (hcode : ∀ name ∈ namesToCode path, 0 < length name.length → ∀ iv,
      Computes n (codeInBuffer memory length codeIn name iv) (checkedCoding length code name iv))
    (iv : Option UInt64) (output : Bytes) :
    Computes n (recodePathIn memory length codeIn path iv output)
      (recodePath length code path iv output) := by
  induction path using path_induction generalizing iv output with
  | nil =>
    rw [recodePathIn_nil, NameIO.recodePath_nil]
    exact .pure _
  | slashed path ih =>
    rw [recodePathIn_slash, NameIO.recodePath_slash]
    rw [namesToCode_slash] at hcode
    exact ih hcode iv _
  | component name rest hne hname hrest ih =>
    rw [namesToCode_component hne hname hrest] at hcode
    rw [recodePathIn_component hne hname hrest, NameIO.recodePath_component _ _ hne hname hrest,
      NameIO.codeComponent]
    by_cases hdots : isDots name = true
    · rw [if_pos hdots] at hcode ⊢
      rw [if_pos hdots]
      exact ih hcode iv _
    · rw [if_neg hdots] at hcode ⊢
      rw [if_neg hdots, NameIO.recodeName]
      by_cases hshort : length name.length ≤ 0
      · rw [if_pos hshort, if_pos hshort]
        exact .rlog _
      · rw [if_neg hshort, if_neg hshort]
        apply (hcode name List.mem_cons_self (by omega) iv).bind
        rintro ⟨coded, iv'⟩
        exact ih (fun name hmem => hcode name (List.mem_cons_of_mem _ hmem)) iv' _

end Path

namespace BufferNaming

variable {V : BufferNaming} {n : ℕ}

lemma maxDecodedNameLen_eq (V : BufferNaming) (length : ℕ) :
    V.naming.maxDecodedNameLen length = (B64ToB256Bytes length : ℤ) - 2 := by
  cases V with
  | mk coder => cases coder <;> rfl

lemma maxEncodedNameLen_eq (V : BufferNaming) (length : ℕ) :
    V.naming.maxEncodedNameLen length = B256ToB64Bytes (V.coder.encodedStreamLen length) := by
  have h : (V.coder.inPlace.naming V.chainedNameIV).maxEncodedNameLen length =
      B256ToB64Bytes (V.coder.inPlace.encodedStreamLen length) := NameCoder.maxEncodedNameLen_eq _ _
  refine Eq.trans h ?_
  cases V with
  | mk coder => cases coder <;> rfl

lemma bufferSize_decoded {length : ℕ} (h : 3 ≤ length) :
    bufferSize (V.naming.maxDecodedNameLen length) = B64ToB256Bytes length - 1 := by
  have hbytes : 2 ≤ B64ToB256Bytes length := by
    rw [B64ToB256Bytes]
    omega
  rw [maxDecodedNameLen_eq, bufferSize, toUnsigned, if_pos (by omega)]
  omega

lemma bufferSize_encoded (V : BufferNaming) (length : ℕ) :
    bufferSize (V.naming.maxEncodedNameLen length) =
      B256ToB64Bytes (V.coder.encodedStreamLen length) + 1 := by
  rw [maxEncodedNameLen_eq, bufferSize, toUnsigned, if_pos (by omega)]
  omega

lemma decodeName_computes (hmemory : n + 1 ≤ V.memory) {name : Bytes} (hlong : 3 ≤ name.length)
    (hn : name.length ≤ n) (iv : Option UInt64) :
    Computes n (codeInBuffer V.memory V.naming.maxDecodedNameLen (V.coder.decodeNameIn V.memory)
      name iv) (checkedCoding V.naming.maxDecodedNameLen V.naming.decodeName name iv) := by
  have hsize := bufferSize_decoded (V := V) hlong
  have hbytes : 2 ≤ B64ToB256Bytes name.length ∧ B64ToB256Bytes name.length ≤ name.length := by
    rw [B64ToB256Bytes]
    omega
  apply codeInBuffer_computes hmemory
    (NameCoder.decode_performs V.coder V.chainedNameIV name (by omega) iv (by omega))
  intro size hmem
  rcases List.mem_cons.mp hmem with rfl | hmem
  · omega
  · rw [List.mem_singleton.mp hmem]
    omega

lemma encodeName_computes (hmemory : n + 1 ≤ V.memory) {name : Bytes}
    (hfits : V.naming.maxEncodedNameLen name.length ≤ n) (iv : Option UInt64) :
    Computes n (codeInBuffer V.memory V.naming.maxEncodedNameLen V.coder.encodeNameIn name iv)
      (checkedCoding V.naming.maxEncodedNameLen V.naming.encodeName name iv) := by
  have hsize := bufferSize_encoded V name.length
  rw [maxEncodedNameLen_eq] at hfits
  apply codeInBuffer_computes hmemory
    (NameCoder.encode_performs V.coder V.chainedNameIV name iv (by omega))
  intro size hmem
  rw [List.mem_singleton.mp hmem]
  omega

def Fits (V : BufferNaming) (n : ℕ) (path : Bytes) : Prop :=
  V.reverseEncryption = true → ∀ name ∈ namesToCode path, V.naming.maxEncodedNameLen name.length ≤ n

section Modes

variable (path : Bytes)

lemma decodePathIn_forward (h : ¬V.reverseEncryption = true) :
    V.decodePathIn path = Prod.fst <$> recodePathIn V.memory V.naming.maxDecodedNameLen
      (V.coder.decodeNameIn V.memory) path (V.naming.chained 0) [] :=
  if_neg h

lemma decodePathIn_reverse (h : V.reverseEncryption = true) :
    V.decodePathIn path = Prod.fst <$> recodePathIn V.memory V.naming.maxEncodedNameLen
      V.coder.encodeNameIn path (V.naming.chained 0) [] :=
  if_pos h

end Modes

lemma decodePath_forward {N : NameIO} (h : ¬N.reverseEncryption = true) (path : Bytes) :
    N.decodePath path = Prod.fst <$>
      NameIO.recodePath N.maxDecodedNameLen N.decodeName path (N.chained 0) [] := by
  rw [decodePath, NameIO.decodePathIV, if_neg h, NameIO.backwardPath]
  cases NameIO.recodePath N.maxDecodedNameLen N.decodeName path (N.chained 0) [] with
  | error e => rfl
  | ok r => rfl

lemma decodePath_reverse {N : NameIO} (h : N.reverseEncryption = true) (path : Bytes) :
    N.decodePath path = Prod.fst <$>
      NameIO.recodePath N.maxEncodedNameLen N.encodeName path (N.chained 0) [] := by
  rw [decodePath, NameIO.decodePathIV, if_pos h, NameIO.forwardPath]
  cases NameIO.recodePath N.maxEncodedNameLen N.encodeName path (N.chained 0) [] with
  | error e => rfl
  | ok r => rfl

lemma decodePathIn_computes (hmemory : n + 1 ≤ V.memory) {path : Bytes} (hn : path.length ≤ n)
    (hfits : V.Fits n path) : Computes n (V.decodePathIn path) (V.naming.decodePath path) := by
  by_cases hreverse : V.reverseEncryption = true
  · have hmode : V.naming.reverseEncryption = true := hreverse
    rw [decodePathIn_reverse path hreverse, decodePath_reverse hmode]
    apply Computes.map
    exact recodePathIn_computes
      (fun name hmem _ iv => encodeName_computes hmemory (hfits hreverse name hmem) iv) _ _
  · have hmode : ¬V.naming.reverseEncryption = true := hreverse
    rw [decodePathIn_forward path hreverse, decodePath_forward hmode]
    apply Computes.map
    refine recodePathIn_computes (fun name hmem hpos iv => ?_) _ _
    rw [maxDecodedNameLen_eq, B64ToB256Bytes] at hpos
    exact decodeName_computes hmemory (by omega) ((length_le_of_mem_namesToCode hmem).trans hn) iv

lemma encodeName_checked (V : BufferNaming) {name : Bytes} (hne : name ≠ []) (iv : Option UInt64) :
    ∃ r, checkedCoding V.naming.maxEncodedNameLen V.naming.encodeName name iv = .ok r := by
  obtain ⟨coded, iv', hcode⟩ : ∃ coded iv', V.naming.encodeName name iv = .ok (coded, iv') := by
    cases V with
    | mk coder =>
      cases coder with
      | stream S => exact ⟨_, _, if_neg fun h => hne h.2⟩
      | block B => exact ⟨_, _, rfl⟩
  have hlen := (NameCoder.keepsLength_inPlace V.coder).encodeName_length hcode
  have hmax : (V.coder.inPlace.naming V.chainedNameIV).maxEncodedNameLen name.length =
      B256ToB64Bytes (V.coder.inPlace.encodedStreamLen name.length) :=
    NameCoder.maxEncodedNameLen_eq _ _
  have hfits : (coded.length : ℤ) ≤ V.naming.maxEncodedNameLen name.length := by
    refine le_of_eq (Eq.trans ?_ hmax.symm)
    rw [hlen]
  refine ⟨(cString coded, iv'), ?_⟩
  rw [checkedCoding, hcode]
  exact if_pos hfits

lemma encodePath_yields (path : Bytes) (iv : Option UInt64) (output : Bytes) (log : List ℕ) :
    Yields (recodePathIn V.memory V.naming.maxEncodedNameLen V.coder.encodeNameIn path iv output) log
      (fun _ log' => log <+: log' ∧
        ∀ name ∈ namesToCode path, bufferSize (V.naming.maxEncodedNameLen name.length) ∈ log')
      fun e _ => e = .badAlloc := by
  induction path using path_induction generalizing iv output log with
  | nil =>
    rw [recodePathIn_nil]
    refine .pure ⟨List.prefix_refl _, fun name hmem => ?_⟩
    cases hmem
  | slashed path ih =>
    rw [recodePathIn_slash, namesToCode_slash]
    exact ih iv _ log
  | component name rest hne hname hrest ih =>
    rw [recodePathIn_component hne hname hrest, namesToCode_component hne hname hrest]
    by_cases hdots : isDots name = true
    · rw [if_pos hdots, if_pos hdots]
      exact ih iv _ log
    have hpos : ¬ V.naming.maxEncodedNameLen name.length ≤ 0 := by
      rw [maxEncodedNameLen_eq, B256ToB64Bytes]
      cases V.coder with
      | stream S =>
        change ¬ (((name.length + 2) * 8 + 5) / 6 : ℕ) ≤ (0 : ℤ)
        omega
      | block B =>
        change ¬ (((name.length + 2 + B.padding name.length) * 8 + 5) / 6 : ℕ) ≤ (0 : ℤ)
        omega
    rw [if_neg hdots, if_neg hdots, if_neg hpos]
    have hsize := bufferSize_encoded V name.length
    apply Yields.bind
    apply (codeInBuffer_yields (NameCoder.encode_performs V.coder V.chainedNameIV name iv
      (by omega)) log).mono
    · rintro ⟨coded, iv'⟩ log' ⟨-, rfl⟩
      apply (ih iv' (output ++ coded) _).mono
      · rintro r log' ⟨hlog, hrest⟩
        refine ⟨(List.prefix_append _ _).trans hlog, fun name' hmem => ?_⟩
        rcases List.mem_cons.mp hmem with rfl | hmem
        · exact hlog.mem (List.mem_append_right _ List.mem_cons_self)
        · exact hrest name' hmem
      · exact fun e log' he => he
    · rintro e log' (⟨he, -⟩ | ⟨e', made, -, he, -⟩)
      · exact he
      · obtain ⟨r, hr⟩ := V.encodeName_checked hne iv
        cases hr.symm.trans he

end BufferNaming

section Safe

variable {α β : Type} {n : ℕ} {run : BufferAction α}

/-- There is a result or an error of `rlog`, and no buffer is larger than the string. -/
def Safe (n : ℕ) (run : BufferAction α) : Prop :=
  Yields run [] (fun _ sizes => Bounded n sizes) fun e sizes =>
    (∃ e', e = .rlog e') ∧ Bounded n sizes

def SafeCaught (n : ℕ) (run : BufferAction α) : Prop :=
  Yields run [] (fun _ sizes => Bounded n sizes) fun _ _ => False

lemma Computes.safe {result : Except RlogError α} (h : Computes n run result) : Safe n run := by
  apply (h [] (.nil n)).mono
  · exact fun a sizes ha => ha.2
  · rintro e sizes ⟨⟨e', he, -⟩, hsizes⟩
    exact ⟨⟨e', he⟩, hsizes⟩

lemma safe_map (f : α → β) : Safe n (f <$> run) ↔ Safe n run := by
  simp only [Safe, Yields, Functor.map, EStateM.map]
  cases run [] with
  | ok a sizes => rfl
  | error e sizes => rfl

lemma codeInBuffer_unsafe {memory : ℕ} {length : ℕ → ℤ} {codeIn : BufferCoding} {code : NameCoding}
    {name : Bytes} {iv : Option UInt64} {sizes : List ℕ}
    (h : Performs codeIn code name iv (bufferSize (length name.length)) sizes)
    (hsize : ¬(1 ≤ bufferSize (length name.length) ∧ bufferSize (length name.length) ≤ n + 1)) :
    ¬Safe n (codeInBuffer memory length codeIn name iv) := by
  intro hsafe
  have hlogged (made : List ℕ) : ¬Bounded n ([] ++ bufferSize (length name.length) :: made) :=
    fun hbound => hsize (hbound _ List.mem_cons_self)
  have hyields : Yields (codeInBuffer memory length codeIn name iv) [] _ _ :=
    codeInBuffer_yields h []
  cases hrun : codeInBuffer memory length codeIn name iv [] with
  | ok r log =>
    have hlog := hsafe.ok hrun
    rw [(hyields.ok hrun).2] at hlog
    exact hlogged _ hlog
  | error e log =>
    obtain ⟨⟨e', rfl⟩, hlog⟩ := hsafe.error hrun
    rcases hyields.error hrun with ⟨he, -⟩ | ⟨-, made, -, -, -, rfl⟩
    · cases he
    · exact hlogged made hlog

end Safe

section Targets

variable {V : BufferNaming} {n : ℕ}

lemma decodePathIn_safe_iff (hmemory : n + 1 ≤ V.memory) {path : Bytes} (hn : path.length ≤ n) :
    Safe n (V.decodePathIn path) ↔ V.Fits n path := by
  constructor
  · intro hsafe hreverse name hmem
    rw [BufferNaming.decodePathIn_reverse path hreverse, safe_map] at hsafe
    have hyields := BufferNaming.encodePath_yields (V := V) path (V.naming.chained 0) [] []
    cases hrun : recodePathIn V.memory V.naming.maxEncodedNameLen V.coder.encodeNameIn path
        (V.naming.chained 0) [] [] with
    | ok r sizes =>
      have hle := ((hsafe.ok hrun) _ ((hyields.ok hrun).2 name hmem)).2
      rw [V.bufferSize_encoded] at hle
      rw [V.maxEncodedNameLen_eq]
      omega
    | error e sizes =>
      obtain ⟨⟨e', rfl⟩, -⟩ := hsafe.error hrun
      cases hyields.error hrun
  · exact fun hfits => (BufferNaming.decodePathIn_computes hmemory hn hfits).safe

lemma decodeShort_performs (K : NameCoder) (chainedNameIV : Bool) (memory : ℕ) {s : Bytes}
    (hshort : s.length ≤ 2) (iv : Option UInt64) (size : ℕ) :
    Performs (K.decodeNameIn memory) (K.inPlace.naming chainedNameIV).decodeName s iv size [] := by
  have hbytes : B64ToB256Bytes s.length < 2 := by
    rw [B64ToB256Bytes]
    omega
  cases K with
  | stream S =>
    refine .of_error (e := .assertFailed) (if_pos hshort) List.nil_prefix fun log => ?_
    rw [List.append_nil]
    exact congrFun (if_pos hshort) log
  | block B =>
    have htiny : B64ToB256Bytes s.length < B.bs + 2 := by omega
    refine .of_error (e := .nameTooSmall) (if_pos htiny) List.nil_prefix fun log => ?_
    rw [List.append_nil]
    exact congrFun (if_pos htiny) log

lemma decodeNameStringIn_forward (h : ¬V.reverseEncryption = true) (path : Bytes) :
    V.decodeNameStringIn path = Prod.fst <$> codeInBuffer V.memory V.naming.maxDecodedNameLen
      (V.coder.decodeNameIn V.memory) path none :=
  if_neg h

lemma decodeNameStringIn_reverse (h : V.reverseEncryption = true) (path : Bytes) :
    V.decodeNameStringIn path = Prod.fst <$> codeInBuffer V.memory V.naming.maxEncodedNameLen
      V.coder.encodeNameIn path none :=
  if_pos h

lemma decodeNameStringIn_safe_iff {path : Bytes} (hmemory : path.length + 2 ≤ V.memory) :
    Safe (path.length + 1) (V.decodeNameStringIn path) ↔
      V.reverseEncryption = false ∧ 3 ≤ path.length := by
  cases hreverse : V.reverseEncryption with
  | true =>
    rw [decodeNameStringIn_reverse hreverse, safe_map]
    have hsize := V.bufferSize_encoded path.length
    have hlong : path.length + 2 ≤ V.coder.encodedStreamLen path.length := by
      cases V.coder with
      | stream S => exact Nat.le_refl _
      | block B => exact Nat.le_add_right _ _
    rw [B256ToB64Bytes] at hsize
    have hlarge : B256ToB64Bytes (V.coder.encodedStreamLen path.length) ≤
        bufferSize (V.naming.maxEncodedNameLen path.length) := by
      rw [hsize, B256ToB64Bytes]
      omega
    have hperforms := NameCoder.encode_performs V.coder V.chainedNameIV path none hlarge
    have hunsafe : ¬Safe (path.length + 1) (codeInBuffer V.memory V.naming.maxEncodedNameLen
        V.coder.encodeNameIn path none) := codeInBuffer_unsafe hperforms (by omega)
    exact ⟨fun hsafe => absurd hsafe hunsafe, fun h => absurd h.1 (by decide)⟩
  | false =>
    have hforward : ¬V.reverseEncryption = true := by
      rw [hreverse]
      decide
    rw [decodeNameStringIn_forward hforward, safe_map]
    by_cases hlong : 3 ≤ path.length
    · have hsafe := (BufferNaming.decodeName_computes (V := V) (n := path.length + 1) hmemory hlong
        (Nat.le_succ _) none).safe
      exact ⟨fun _ => ⟨rfl, hlong⟩, fun _ => hsafe⟩
    · have hsize : bufferSize (V.naming.maxDecodedNameLen path.length) = 0 ∨
          bufferSize (V.naming.maxDecodedNameLen path.length) = 2 ^ 32 - 1 := by
        rw [V.maxDecodedNameLen_eq, bufferSize, toUnsigned, B64ToB256Bytes]
        split
        · omega
        · omega
      have hunsafe : ¬Safe (path.length + 1) (codeInBuffer V.memory V.naming.maxDecodedNameLen
          (NameCoder.decodeNameIn V.memory V.coder) path none) :=
        codeInBuffer_unsafe (decodeShort_performs V.coder V.chainedNameIV V.memory (by omega) none
          (bufferSize (V.naming.maxDecodedNameLen path.length))) (by omega)
      exact ⟨fun hsafe => absurd hsafe hunsafe, fun h => absurd h.2 hlong⟩

lemma plainPathIn_safe_iff (rootDir s : Bytes) :
    SafeCaught n (V.plainPathIn rootDir s) ↔ Safe n (V.decodeTargetIn rootDir s) := by
  simp only [SafeCaught, Safe, Yields, BufferNaming.plainPathIn]
  cases V.decodeTargetIn rootDir s [] with
  | ok path sizes => rfl
  | error e sizes =>
    cases e with
    | rlog e => simp
    | outOfBounds => simp
    | badAlloc => simp

def TargetFits (V : BufferNaming) (rootDir s : Bytes) : Prop :=
  if rootDir <+: s then
    V.Fits s.length (s.drop rootDir.length)
  else
    if s.head? = some plus then V.reverseEncryption = false ∧ 3 ≤ s.tail.length
    else V.Fits s.length s

theorem plainPath_safe (V : BufferNaming) (rootDir s : Bytes) (hmemory : s.length + 1 ≤ V.memory) :
    (Safe s.length (V.decodePathIn s) ↔ V.Fits s.length s) ∧
      (SafeCaught s.length (V.plainPathIn rootDir s) ↔ TargetFits V rootDir s) := by
  refine ⟨decodePathIn_safe_iff hmemory (Nat.le_refl _), ?_⟩
  rw [plainPathIn_safe_iff, BufferNaming.decodeTargetIn.eq_def, TargetFits]
  by_cases hroot : rootDir <+: s
  · rw [if_pos hroot, if_pos hroot]
    exact decodePathIn_safe_iff hmemory (by rw [List.length_drop]; omega)
  rw [if_neg hroot, if_neg hroot]
  cases s with
  | nil =>
    rw [if_neg (by simp)]
    exact decodePathIn_safe_iff hmemory (Nat.le_refl _)
  | cons c path =>
    by_cases hplus : c = plus
    · subst hplus
      have hhead : (plus :: path).head? = some plus := rfl
      dsimp only
      rw [if_pos hhead]
      exact (safe_map _).trans (decodeNameStringIn_safe_iff hmemory)
    · dsimp only
      rw [if_neg hplus, if_neg (by simpa using hplus)]
      exact decodePathIn_safe_iff hmemory (Nat.le_refl _)

def plainVolume : BufferNaming where
  coder := .stream NameIO.maskStreamNames
  chainedNameIV := true
  reverseEncryption := false
  memory := 4096

def linkToAb : Bytes := [plus, 97, 85, 97, 45, 51, 44]

theorem plainPath_safe_marked :
    (Safe 7 (plainVolume.decodePathIn linkToAb) ↔ plainVolume.Fits 7 linkToAb) ∧
      (SafeCaught 7 (plainVolume.plainPathIn [47, 114, 47] linkToAb) ↔
        TargetFits plainVolume [47, 114, 47] linkToAb) ∧
      plainVolume.plainPathIn [47, 114, 47] linkToAb [] = .ok [47, 97, 98] [3, 6] :=
  have h := plainPath_safe plainVolume [47, 114, 47] linkToAb (by decide)
  ⟨h.1, h.2, rfl⟩

theorem not_plainPath_safe :
    ¬ ∀ (V : BufferNaming) (rootDir s : Bytes), s.length + 1 ≤ V.memory →
      Safe s.length (V.decodePathIn s) ∧ SafeCaught s.length (V.plainPathIn rootDir s) := by
  intro h
  exact (h plainVolume [47, 114, 47] [plus] (by decide)).2

end Targets

end EncFS
