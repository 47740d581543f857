import EncFS.Buffer
import EncFS.Fuse4Win.ReadWrite

/-! `read_file` with the memory that it fills: a pointer, an offset and a total that move on together
by what each call of the file system returns. -/

set_option autoImplicit false

namespace EncFS.Fuse4Win

open FlatArray Buffer

structure ReadReply where
  res : ℤ
  stored : Bytes

abbrev ReadCallback := List Transfer → ReadReply

structure ReadResult where
  res : ℤ
  read_bytes : UInt32
  memory : Bytes
  calls : List Transfer

def wideOffset (off : ℤ) : ℤ := Int.bmod off (2 ^ 64)

def fillLoop (read : ReadCallback) : (fuel : ℕ) → (num_bytes_to_read total_read : UInt32) →
    (off : ℤ) → (buffer : ℕ) → (memory : Bytes) → (calls : List Transfer) → Option ReadResult
  | 0, _, _, _, _, _, _ => none
  | fuel + 1, num_bytes_to_read, total_read, off, buffer, memory, calls =>
    if total_read < num_bytes_to_read then do
      let to_read := num_bytes_to_read - total_read
      let to_read := if to_read.toNat > MAX_READ_SIZE then MAX_READ_SIZE else to_read.toNat
      let calls := ⟨to_read, off⟩ :: calls
      let ⟨res, stored⟩ := read calls
      let memory ← writeRange memory buffer stored
      if res < 0 then
        pure ⟨res, 0, memory, calls⟩
      else if res = 0 then
        -- end of file reached
        pure ⟨0, total_read, memory, calls⟩
      else
        fillLoop read fuel num_bytes_to_read (total_read + .ofNat res.toNat) (wideOffset (off + res))
          (buffer + res.toNat) memory calls
    else
      pure ⟨0, total_read, memory, calls⟩

def ImplFileLock.fillFile (L : ImplFileLock) (read : Option ReadCallback)
    (hndl : Option (ℕ × ImplFileHandle)) (num_bytes_to_read : UInt32) (offset : ℤ)
    (read_bytes : UInt32) (buffer : ℕ) (memory : Bytes) : Option ReadResult :=
  match read, hndl with
  | none, _ => pure ⟨-EINVAL, read_bytes, memory, []⟩
  | some _, none => pure ⟨-EINVAL, 0, memory, []⟩
  | some read, some (file, handle) =>
    if handle.is_dir_ then
      pure ⟨-EACCES, 0, memory, []⟩
    else do
      let res ← L.checkLock file offset num_bytes_to_read.toNat
      if res ≠ 0 then
        pure ⟨-EACCES, 0, memory, []⟩
      else
        fillLoop read (num_bytes_to_read.toNat + 1) num_bytes_to_read 0 offset buffer memory []

/-- A callback that reads a file: some bytes before its end, none from its end on, or an error. -/
structure ReadsFrom (content : Bytes) (read : ReadCallback) : Prop where
  fits : ∀ call calls, (read (call :: calls)).stored.length ≤ call.size
  bytes : ∀ call calls (n : ℕ), 0 < n → (read (call :: calls)).res = n →
    n ≤ (read (call :: calls)).stored.length ∧
      (read (call :: calls)).stored.take n = slice content call.off.toNat n
  endOfFile : ∀ call calls, 0 < call.size → (read (call :: calls)).res = 0 →
    content.length ≤ call.off.toNat

def Failed (read : ReadCallback) (calls : List Transfer) : Prop :=
  ∃ made, made ≠ [] ∧ made <:+ calls ∧ (read made).res < 0

lemma not_failed_nil (read : ReadCallback) : ¬Failed read [] := by
  rintro ⟨made, hne, hmade, -⟩
  exact hne (List.suffix_nil.mp hmade)

lemma failed_cons {read : ReadCallback} {call : Transfer} {calls : List Transfer} :
    Failed read (call :: calls) ↔ (read (call :: calls)).res < 0 ∨ Failed read calls := by
  constructor
  · rintro ⟨made, hne, hmade, hres⟩
    rcases List.suffix_cons_iff.mp hmade with rfl | hmade
    · exact .inl hres
    · exact .inr ⟨made, hne, hmade, hres⟩
  · rintro (hres | ⟨made, hne, hmade, hres⟩)
    · exact ⟨_, List.cons_ne_nil _ _, List.suffix_rfl, hres⟩
    · exact ⟨made, hne, hmade.trans (List.suffix_cons _ _), hres⟩

section Loop

variable {content : Bytes} {read : ReadCallback}

/-- What the loop leaves of a read of `n` bytes at `off`: it has stored `d` at the pointer, and
that starts with what the file has there unless a call has failed. -/
structure FillOutcome (content : Bytes) (read : ReadCallback) (n total : ℕ) (off : ℤ) (buffer : ℕ)
    (memory d : Bytes) (r : ReadResult) : Prop where
  fits : d.length ≤ n
  memory : r.memory = overwrite memory buffer d
  failed : Failed read r.calls → r.res < 0 ∧ r.read_bytes = 0
  done : ¬Failed read r.calls → r.res = 0 ∧
    r.read_bytes.toNat = total + (slice content off.toNat n).length ∧
    slice content off.toNat n <+: d

lemma wideOffset_eq {off : ℤ} (h0 : 0 ≤ off) (h : off ≤ LONGLONG_MAX) : wideOffset off = off := by
  rw [LONGLONG_MAX] at h
  exact Int.bmod_eq_of_le (by omega) (by omega)

lemma toRead_eq {num_bytes_to_read total_read : UInt32} (h : total_read ≤ num_bytes_to_read) :
    (if (num_bytes_to_read - total_read).toNat > MAX_READ_SIZE then MAX_READ_SIZE
      else (num_bytes_to_read - total_read).toNat) =
      min (num_bytes_to_read.toNat - total_read.toNat) MAX_READ_SIZE := by
  rw [UInt32.toNat_sub_of_le _ _ h]
  split <;> omega

lemma total_read_add {num_bytes_to_read total_read : UInt32} {n : ℕ}
    (h : n + total_read.toNat ≤ num_bytes_to_read.toNat) :
    (total_read + UInt32.ofNat (n : ℤ).toNat).toNat = total_read.toNat + n := by
  have := num_bytes_to_read.toNat_lt
  rw [Int.toNat_natCast, UInt32.toNat_add, UInt32.toNat_ofNat']
  omega

lemma ReadsFrom.advance (h : ReadsFrom content read) (hsize : content.length ≤ LONGLONG_MAX)
    (call : Transfer) (calls : List Transfer) (hoff : call.off ∈ Set.Icc 0 LONGLONG_MAX) {n : ℕ}
    (hn : 0 < n) (hres : (read (call :: calls)).res = n) :
    n ≤ (read (call :: calls)).stored.length ∧
      (read (call :: calls)).stored.take n = slice content call.off.toNat n ∧
      call.off + n ∈ Set.Icc 0 LONGLONG_MAX ∧ wideOffset (call.off + n) = call.off + n := by
  obtain ⟨hstored, htake⟩ := h.bytes call calls n hn hres
  have hlen := congrArg List.length htake
  rw [slice_length, List.length_take] at hlen
  have hlow := hoff.1
  have hrange : call.off + n ∈ Set.Icc 0 LONGLONG_MAX := ⟨by omega, by omega⟩
  exact ⟨hstored, htake, hrange, wideOffset_eq hrange.1 hrange.2⟩

lemma FillOutcome.after_call {n m total : ℕ} {off : ℤ} {buffer : ℕ} {memory stored d : Bytes}
    {r : ReadResult} (hoff : 0 ≤ off) (hbuf : buffer + n ≤ memory.length)
    (hstored : stored.length ≤ n) (hm : m ≤ stored.length)
    (hbytes : stored.take m = slice content off.toNat m)
    (h : FillOutcome content read (n - m) (total + m) (off + m) (buffer + m)
      (overwrite memory buffer stored) d r) :
    FillOutcome content read n total off buffer memory (overwrite stored m d) r := by
  have hsplit : slice content off.toNat n = slice content off.toNat m ++
      slice content (off + m).toNat (n - m) := by
    have hto : (off + m).toNat = off.toNat + m := by omega
    have hn : n = m + (n - m) := by omega
    rw [hto, slice_append_slice, ← hn]
  have hlen : (slice content off.toNat m).length = m := by
    rw [← hbytes, List.length_take, Nat.min_eq_left hm]
  have hfits := h.fits
  refine ⟨?_, ?_, h.failed, fun hok => ?_⟩
  · rw [overwrite_length_max hm]
    omega
  · rw [h.memory, overwrite_overwrite hm (by omega)]
  · obtain ⟨hres, hbytes_read, hprefix⟩ := h.done hok
    refine ⟨hres, ?_, ?_⟩
    · rw [hbytes_read, hsplit, List.length_append, hlen]
      omega
    · rw [hsplit, overwrite, hbytes, List.append_assoc, List.prefix_append_right_inj]
      exact hprefix.trans (List.prefix_append _ _)

lemma fillLoop_spec (h : ReadsFrom content read) (hsize : content.length ≤ LONGLONG_MAX)
    {num_bytes_to_read : UInt32} (fuel : ℕ) {total_read : UInt32} {off : ℤ} {buffer : ℕ}
    {memory : Bytes} {calls : List Transfer} (htotal : total_read ≤ num_bytes_to_read)
    (hfuel : num_bytes_to_read.toNat - total_read.toNat < fuel) (hoff : off ∈ Set.Icc 0 LONGLONG_MAX)
    (hbuf : buffer + (num_bytes_to_read.toNat - total_read.toNat) ≤ memory.length)
    (hcalls : ¬Failed read calls) :
    ∃ r d, fillLoop read fuel num_bytes_to_read total_read off buffer memory calls = some r ∧
      FillOutcome content read (num_bytes_to_read.toNat - total_read.toNat) total_read.toNat off
        buffer memory d r := by
  induction fuel generalizing total_read off buffer memory calls with
  | zero => exact absurd hfuel (Nat.not_lt_zero _)
  | succ fuel ih =>
    rw [fillLoop]
    by_cases hmore : total_read < num_bytes_to_read
    · rw [if_pos hmore]
      rw [UInt32.lt_iff_toNat_lt] at hmore
      dsimp only
      rw [toRead_eq htotal]
      generalize hto_read : min (num_bytes_to_read.toNat - total_read.toNat) MAX_READ_SIZE = to_read
      have hto_read_pos : 0 < to_read := by
        rw [← hto_read, MAX_READ_SIZE]
        omega
      have hfits := h.fits ⟨to_read, off⟩ calls
      have hadvance (n : ℕ) := h.advance hsize ⟨to_read, off⟩ calls hoff (n := n)
      have hend := h.endOfFile ⟨to_read, off⟩ calls hto_read_pos
      have hfailed := @failed_cons read ⟨to_read, off⟩ calls
      generalize read (⟨to_read, off⟩ :: calls) = reply at hfits hadvance hend hfailed ⊢
      obtain ⟨res, stored⟩ := reply
      dsimp only at hfits hadvance hend hfailed ⊢
      rw [writeRange_eq (by omega)]
      simp only [Option.bind_eq_bind, Option.bind_some]
      split
      case isTrue hneg =>
        refine ⟨_, stored, rfl, ?_⟩
        exact ⟨by omega, rfl, fun _ => ⟨hneg, rfl⟩, fun hok => absurd (hfailed.mpr (.inl hneg)) hok⟩
      case isFalse hnonneg =>
        have hok : ¬Failed read (⟨to_read, off⟩ :: calls) := by
          rw [hfailed]
          exact not_or.mpr ⟨hnonneg, hcalls⟩
        split
        case isTrue hzero =>
          refine ⟨_, stored, rfl, ?_⟩
          refine ⟨by omega, rfl, fun hfail => absurd hfail hok, fun _ => ⟨rfl, ?_, ?_⟩⟩
          · rw [slice_eq_nil (hend hzero)]
            rfl
          · rw [slice_eq_nil (hend hzero)]
            exact List.nil_prefix
        case isFalse hpos =>
          obtain ⟨n, rfl⟩ := Int.eq_ofNat_of_zero_le (Int.not_lt.mp hnonneg)
          obtain ⟨hnstored, htake, hrange, hwide⟩ := hadvance n (by omega) rfl
          have htotal' := total_read_add (by omega : n + total_read.toNat ≤ num_bytes_to_read.toNat)
          obtain ⟨r, d, hrun, hr⟩ := @ih (total_read + UInt32.ofNat (n : ℤ).toNat) (off + n)
            (buffer + n) (overwrite memory buffer stored) (⟨to_read, off⟩ :: calls)
            (UInt32.le_iff_toNat_le.mpr (by omega)) (by omega)
            hrange (by rw [overwrite_length (by omega)]; omega) hok
          rw [htotal', Nat.sub_add_eq] at hr
          refine ⟨r, overwrite stored n d, ?_, hr.after_call hoff.1 hbuf (by omega) hnstored htake⟩
          rw [hwide]
          exact hrun
    · rw [if_neg hmore]
      have hzero : num_bytes_to_read.toNat - total_read.toNat = 0 := by
        rw [UInt32.lt_iff_toNat_lt] at hmore
        omega
      rw [hzero]
      refine ⟨_, [], rfl, ?_⟩
      exact ⟨by simp, (overwrite_nil _ _).symm, fun hfail => absurd hfail hcalls,
        fun _ => ⟨rfl, by simp, by simp⟩⟩

def ReadCallback.answers (read : ReadCallback) : ReadAnswers := fun calls =>
  if (read calls).res < 0 then .error (read calls).res
  else .ok ((read calls).stored.take (read calls).res.toNat)

lemma fillLoop_readLoop (h : ReadsFrom content read) (hsize : content.length ≤ LONGLONG_MAX)
    {num_bytes_to_read : UInt32} (fuel : ℕ) {total_read : UInt32} {off : ℤ} {buffer : ℕ}
    {memory bytes : Bytes} {calls : List Transfer} (htotal : total_read ≤ num_bytes_to_read)
    (hfuel : num_bytes_to_read.toNat - total_read.toNat ≤ fuel) (hoff : off ∈ Set.Icc 0 LONGLONG_MAX)
    (hbytes : bytes.length = total_read.toNat) {r : ReadResult}
    (hrun : fillLoop read (fuel + 1) num_bytes_to_read total_read off buffer memory calls = some r) :
    let t := readLoop read.answers fuel num_bytes_to_read.toNat off bytes calls
    t.res = r.res ∧ t.bytes = r.read_bytes.toNat ∧ t.calls = r.calls := by
  induction fuel generalizing total_read off buffer memory bytes calls with
  | zero =>
    have hdone : ¬total_read < num_bytes_to_read := by
      rw [UInt32.lt_iff_toNat_lt]
      omega
    rw [fillLoop, if_neg hdone] at hrun
    obtain rfl := Option.some.inj hrun
    exact ⟨rfl, hbytes, rfl⟩
  | succ fuel ih =>
    rw [fillLoop] at hrun
    dsimp only
    rw [readLoop, hbytes]
    by_cases hmore : total_read < num_bytes_to_read
    · rw [if_pos hmore] at hrun
      rw [if_pos (UInt32.lt_iff_toNat_lt.mp hmore)]
      dsimp only at hrun ⊢
      rw [toRead_eq htotal] at hrun
      generalize hsize_read : min (num_bytes_to_read.toNat - total_read.toNat) MAX_READ_SIZE =
        to_read at hrun ⊢
      have hfits := h.fits ⟨to_read, off⟩ calls
      have hadvance (n : ℕ) := h.advance hsize ⟨to_read, off⟩ calls hoff (n := n)
      rw [ReadCallback.answers]
      generalize read (⟨to_read, off⟩ :: calls) = reply at hrun hfits hadvance ⊢
      obtain ⟨res, stored⟩ := reply
      dsimp only at hrun hfits hadvance ⊢
      cases hwrite : writeRange memory buffer stored with
      | none =>
        rw [hwrite] at hrun
        cases hrun
      | some memory' =>
        rw [hwrite] at hrun
        simp only [Option.bind_eq_bind, Option.bind_some] at hrun
        split at hrun
        case isTrue hneg =>
          obtain rfl := Option.some.inj hrun
          rw [if_pos hneg]
          exact ⟨rfl, rfl, rfl⟩
        case isFalse hnonneg =>
          rw [if_neg hnonneg]
          split at hrun
          case isTrue hzero =>
            obtain rfl := Option.some.inj hrun
            rw [hzero]
            exact ⟨rfl, rfl, rfl⟩
          case isFalse hpos =>
            obtain ⟨n, rfl⟩ := Int.eq_ofNat_of_zero_le (Int.not_lt.mp hnonneg)
            have hn : 0 < n := by omega
            obtain ⟨hnstored, -, hrange, hwide⟩ := hadvance n hn rfl
            have htakelen : (stored.take n).length = n := by
              rw [List.length_take, Nat.min_eq_left hnstored]
            have htotal' := total_read_add (by omega : n + total_read.toNat ≤ num_bytes_to_read.toNat)
            rw [hwide] at hrun
            have hlen : (bytes ++ stored.take n).length =
                (total_read + UInt32.ofNat (n : ℤ).toNat).toNat := by
              rw [List.length_append, htakelen, htotal', hbytes]
            have hnext := ih (UInt32.le_iff_toNat_le.mpr (by omega)) (by omega) hrange hlen hrun
            rw [Int.toNat_natCast]
            generalize stored.take n = d at htakelen hnext ⊢
            obtain ⟨b, rest, rfl⟩ := List.exists_cons_of_length_pos (htakelen.symm ▸ hn)
            rw [← htakelen] at hnext
            exact hnext
    · rw [if_neg hmore] at hrun
      rw [if_neg (mt UInt32.lt_iff_toNat_lt.mpr hmore)]
      obtain rfl := Option.some.inj hrun
      exact ⟨rfl, rfl, rfl⟩

end Loop

namespace ImplFileLock

variable {L : ImplFileLock}

/-- The handle is one of a file, and no other handle holds a byte of the range. -/
def Admits (L : ImplFileLock) (hndl : Option (ℕ × ImplFileHandle)) (offset : ℤ) (len : ℕ) : Prop :=
  ∃ file handle, hndl = some (file, handle) ∧ handle.is_dir_ = false ∧ 0 ≤ offset ∧
    ¬L.LockedByOther file offset len

structure ReadOutcome (L : ImplFileLock) (content : Bytes) (read : ReadCallback)
    (hndl : Option (ℕ × ImplFileHandle)) (n : ℕ) (offset : ℤ) (buffer : ℕ) (memory : Bytes)
    (r : ReadResult) : Prop where
  fits : ∃ d, d.length ≤ n ∧ r.memory = overwrite memory buffer d
  failed : Failed read r.calls → r.res < 0 ∧ r.read_bytes = 0
  refused : ¬L.Admits hndl offset n → r.res < 0 ∧ r.read_bytes = 0 ∧ r.memory = memory ∧ r.calls = []
  done : L.Admits hndl offset n → ¬Failed read r.calls → (n ≠ 0 → r.res = 0) ∧
    r.read_bytes.toNat = (slice content offset.toNat n).length ∧
    slice content offset.toNat n <+: r.memory.drop buffer

lemma ReadOutcome.of_refused {content : Bytes} {read : ReadCallback}
    {hndl : Option (ℕ × ImplFileHandle)} {n : ℕ} {offset : ℤ} {buffer : ℕ} {memory : Bytes} {res : ℤ}
    (hres : res < 0) (hreason : L.Admits hndl offset n → n = 0) :
    L.ReadOutcome content read hndl n offset buffer memory ⟨res, 0, memory, []⟩ where
  fits := ⟨[], Nat.zero_le n, (overwrite_nil memory buffer).symm⟩
  failed hfail := absurd hfail (not_failed_nil read)
  refused _ := ⟨hres, rfl, rfl, rfl⟩
  done hadmits _ := by
    obtain rfl := hreason hadmits
    rw [slice_zero]
    exact ⟨fun hne => absurd rfl hne, rfl, List.nil_prefix⟩

/-- A read that the handle and the locks admit fills the buffer with what the file has there, however
the callback cuts it up; a read that is not admitted asks the callback for nothing. -/
theorem read_fills_buffer (h : ReachedLocks L) {content : Bytes} {read : ReadCallback}
    (hread : ReadsFrom content read) (hsize : content.length ≤ LONGLONG_MAX)
    (hndl : Option (ℕ × ImplFileHandle)) (num_bytes_to_read : UInt32) {offset : ℤ}
    (hoffset : offset ≤ LONGLONG_MAX) (read_bytes : UInt32) {buffer : ℕ} {memory : Bytes}
    (hbuf : buffer + num_bytes_to_read.toNat ≤ memory.length) :
    ∃ r, L.fillFile (some read) hndl num_bytes_to_read offset read_bytes buffer memory = some r ∧
      L.ReadOutcome content read hndl num_bytes_to_read.toNat offset buffer memory r := by
  cases hndl with
  | none =>
    refine ⟨_, rfl, .of_refused (by decide) ?_⟩
    rintro ⟨_, _, hnone, -⟩
    cases hnone
  | some hndl =>
    obtain ⟨file, handle⟩ := hndl
    rw [fillFile]
    by_cases hdir : handle.is_dir_ = true
    · refine ⟨_, if_pos hdir, .of_refused (by decide) ?_⟩
      rintro ⟨_, _, hhndl, hfile, -⟩
      cases hhndl
      rw [hdir] at hfile
      cases hfile
    rw [if_neg hdir]
    by_cases hneg : offset < 0
    · have hcheck : L.checkLock file offset num_bytes_to_read.toNat = some (-EINVAL) := by
        rw [checkLock, lockFile, if_pos (.inl hneg)]
        rfl
      refine ⟨_, ?_, .of_refused (by decide : -EACCES < 0) ?_⟩
      · rw [hcheck]
        rfl
      · rintro ⟨_, _, -, -, hnonneg, -⟩
        exact absurd hneg (Int.not_lt.mpr hnonneg)
    have hrange : offset ∈ Set.Icc 0 LONGLONG_MAX := ⟨Int.not_lt.mp hneg, hoffset⟩
    have hlen : num_bytes_to_read.toNat ≤ ULONG_MAX := Nat.le_pred_of_lt num_bytes_to_read.toNat_lt
    obtain ⟨res, hcheck, hres⟩ :=
      checkLock_spec file (reached_rangesDisjoint (reached_ranges h)) hrange hlen
    rw [hcheck]
    simp only [Option.bind_eq_bind, Option.bind_some]
    by_cases hzero : res = 0
    · rw [if_neg (not_not.mpr hzero)]
      obtain ⟨hpos, hfree⟩ := not_or.mp (mt hres.mpr (not_not.mpr hzero))
      obtain ⟨r, d, hrun, hr⟩ := fillLoop_spec hread hsize (num_bytes_to_read.toNat + 1)
        (UInt32.zero_le (a := num_bytes_to_read)) (by simp) hrange (by simpa using hbuf)
        (not_failed_nil read)
      simp only [UInt32.toNat_zero, Nat.sub_zero] at hr
      refine ⟨r, hrun, ⟨d, hr.fits, hr.memory⟩, hr.failed, fun hnot => ?_, fun _ hok => ?_⟩
      · refine absurd ⟨file, handle, rfl, ?_, hrange.1, hfree⟩ hnot
        exact Bool.eq_false_iff.mpr hdir
      · obtain ⟨hres, hbytes, hprefix⟩ := hr.done hok
        refine ⟨fun _ => hres, by rw [hbytes, Nat.zero_add], ?_⟩
        have hfits := hr.fits
        rw [hr.memory]
        exact hprefix.trans (prefix_overwrite (by omega))
    · rw [if_pos hzero]
      refine ⟨_, rfl, .of_refused (by decide) ?_⟩
      rintro ⟨_, _, hhndl, -, -, hfree⟩
      cases hhndl
      exact (hres.mp hzero).resolve_right hfree

theorem fillFile_readFile {content : Bytes} {read : ReadCallback} (hread : ReadsFrom content read)
    (hsize : content.length ≤ LONGLONG_MAX) {hndl : Option (ℕ × ImplFileHandle)}
    {num_bytes_to_read : UInt32} {offset : ℤ} (hoffset : offset ∈ Set.Icc 0 LONGLONG_MAX)
    {read_bytes : UInt32} {buffer : ℕ} {memory : Bytes} {r : ReadResult}
    (hrun : L.fillFile (some read) hndl num_bytes_to_read offset read_bytes buffer memory = some r) :
    ∃ t, L.readFile (some read.answers) hndl num_bytes_to_read.toNat offset = some t ∧
      t.res = r.res ∧ t.bytes = r.read_bytes.toNat ∧ t.calls = r.calls := by
  cases hndl with
  | none =>
    obtain rfl := Option.some.inj hrun
    exact ⟨_, rfl, rfl, rfl, rfl⟩
  | some hndl =>
    obtain ⟨file, handle⟩ := hndl
    rw [fillFile] at hrun
    rw [readFile]
    split at hrun
    case isTrue hdir =>
      obtain rfl := Option.some.inj hrun
      exact ⟨_, if_pos hdir, rfl, rfl, rfl⟩
    case isFalse hdir =>
      rw [if_neg hdir]
      cases hcheck : L.checkLock file offset num_bytes_to_read.toNat with
      | none =>
        rw [hcheck] at hrun
        cases hrun
      | some res =>
        simp only [hcheck, Option.bind_eq_bind, Option.bind_some] at hrun ⊢
        by_cases hzero : res = 0
        · rw [if_neg (not_not.mpr hzero)] at hrun ⊢
          exact ⟨_, rfl, fillLoop_readLoop hread hsize num_bytes_to_read.toNat
            (UInt32.zero_le (a := num_bytes_to_read)) (by simp) hoffset rfl hrun⟩
        · rw [if_pos hzero] at hrun ⊢
          obtain rfl := Option.some.inj hrun
          exact ⟨_, rfl, rfl, rfl, rfl⟩

def readsUpTo (n : ℕ) (content : Bytes) : ReadCallback
  | [] => ⟨0, []⟩
  | call :: _ =>
    let d := slice content call.off.toNat (min call.size n)
    ⟨d.length, d⟩

lemma readsUpTo_readsFrom {n : ℕ} (hn : 0 < n) (content : Bytes) :
    ReadsFrom content (readsUpTo n content) where
  fits call calls := by
    simp only [readsUpTo, slice_length]
    omega
  bytes call calls m hm hres := by
    simp only [readsUpTo, Int.natCast_inj] at hres ⊢
    have hle : m ≤ min call.size n := by
      rw [← hres, slice_length]
      exact Nat.min_le_left _ _
    refine ⟨Nat.le_of_eq hres.symm, ?_⟩
    rw [take_slice, Nat.min_eq_left hle]
  endOfFile call calls hsize hres := by
    simp only [readsUpTo, slice_length] at hres
    omega

def twentyBytes : Bytes := List.replicate 20 7

theorem read_fills_buffer_lockedTwice :
    ∃ r, lockedTwice.fillFile (some (readsUpTo 3 twentyBytes)) (some (1, ⟨false, 3, .empty⟩)) 8 2 0 1
        (List.replicate 9 0) = some r ∧
      lockedTwice.ReadOutcome twentyBytes (readsUpTo 3 twentyBytes)
        (some (1, ⟨false, 3, .empty⟩)) 8 2 1 (List.replicate 9 0) r :=
  read_fills_buffer reached_lockedTwice (readsUpTo_readsFrom (by decide) twentyBytes) (by decide)
    (some (1, ⟨false, 3, .empty⟩)) 8 (by decide) 0 (by decide)

theorem not_read_fills_buffer :
    ∃ content read, ReadsFrom content read ∧
      lockedTwice.fillFile (some read) (some (1, ⟨false, 3, .empty⟩)) 5 12 0 0 [0, 0, 0, 0, 0] =
        some ⟨-EACCES, 0, [0, 0, 0, 0, 0], []⟩ ∧
      (slice content 12 5).length = 5 :=
  ⟨twentyBytes, readsUpTo 3 twentyBytes, readsUpTo_readsFrom (by decide) twentyBytes, rfl,
    by decide⟩

end ImplFileLock

end EncFS.Fuse4Win
