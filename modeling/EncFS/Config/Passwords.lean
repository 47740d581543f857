import EncFS.Buffer
import EncFS.Config.ChangePassword

set_option autoImplicit false

namespace EncFS

open Buffer

namespace Passwords

def MaxPassBuf : ℕ := 512

def newline : UInt8 := 10

def cstring (buf : Bytes) : Bytes := buf.takeWhile (· ≠ 0)

def strlen (buf : Bytes) : ℕ := (cstring buf).length

def readpassphrase (line buf : Bytes) (bufsiz : ℕ) : Bytes :=
  overwrite buf 0 (line.take (bufsiz - 1) ++ [0])

def fgets (line buf : Bytes) (n : ℕ) : Bytes :=
  overwrite buf 0 ((line ++ [newline]).take (n - 1) ++ [0])

def killNewline (passBuf : Bytes) : Option Bytes :=
  match strlen passBuf with
  | 0 => none
  | n + 1 => do
    let last ← readAt passBuf n
    if last = newline then writeAt passBuf n 0 else some passBuf

def userPassword (useStdin : Bool) (line passBuf : Bytes) : Option Bytes :=
  if useStdin then
    (killNewline (fgets line passBuf MaxPassBuf)).map cstring
  else
    some (cstring (readpassphrase line passBuf MaxPassBuf))

def newPassword (line passBuf : Bytes) : Bytes :=
  cstring (readpassphrase line passBuf (MaxPassBuf - 1))

structure Typed where
  line : Bytes
  line2 : Bytes
  random : Option (ℕ → UInt8)
  deltas : List ℤ

def Typed.attempt (passBuf : Bytes) (t : Typed) : Attempt :=
  ⟨some (newPassword t.line passBuf), some (newPassword t.line2 passBuf), t.random, t.deltas⟩

section Strings

variable {line : Bytes}

@[simp] lemma cstring_nil : cstring [] = [] := rfl

@[simp] lemma cstring_zero (rest : Bytes) : cstring (0 :: rest) = [] := rfl

lemma cstring_cons {c : UInt8} (hc : c ≠ 0) (rest : Bytes) :
    cstring (c :: rest) = c :: cstring rest :=
  List.takeWhile_cons_of_pos (decide_eq_true hc)

lemma cstring_append_zero (d rest : Bytes) : cstring (d ++ 0 :: rest) = cstring d := by
  induction d with
  | nil => rfl
  | cons c d ih =>
    by_cases hc : c = 0
    · rw [hc]
      rfl
    · rw [List.cons_append, cstring_cons hc, cstring_cons hc, ih]

lemma cstring_take (line : Bytes) (n : ℕ) : cstring (line.take n) = (cstring line).take n := by
  induction line generalizing n with
  | nil => simp
  | cons c line ih =>
    cases n with
    | zero => rfl
    | succ n =>
      by_cases hc : c = 0
      · rw [hc]
        rfl
      · rw [List.take_succ_cons, cstring_cons hc, cstring_cons hc, List.take_succ_cons, ih]

lemma cstring_eq_self (h : 0 ∉ line) : cstring line = line := by
  refine List.takeWhile_eq_self_iff.mpr fun c hc => ?_
  exact decide_eq_true fun hzero => h (hzero ▸ hc)

lemma zero_notMem_cstring (line : Bytes) : 0 ∉ cstring line := fun h => by
  simpa using List.mem_takeWhile_imp h

lemma line_cases (line : Bytes) :
    0 ∉ line ∨ ∃ rest, line = cstring line ++ 0 :: rest := by
  induction line with
  | nil => exact .inl List.not_mem_nil
  | cons c line ih =>
    by_cases hc : c = 0
    · exact .inr ⟨line, by rw [hc]; rfl⟩
    · rcases ih with hline | ⟨rest, hrest⟩
      · exact .inl (by simp [hline, Ne.symm hc])
      · refine .inr ⟨rest, ?_⟩
        rw [cstring_cons hc, List.cons_append, ← hrest]

lemma cstring_overwrite (d buf : Bytes) : cstring (overwrite buf 0 (d ++ [0])) = cstring d := by
  rw [overwrite_zero, List.append_assoc]
  exact cstring_append_zero d _

lemma newPassword_eq (line buf : Bytes) : newPassword line buf = (cstring line).take 510 := by
  rw [newPassword, readpassphrase, cstring_overwrite, cstring_take]
  rfl

lemma userPassword_prompt (line buf : Bytes) :
    userPassword false line buf = some ((cstring line).take 511) := by
  rw [userPassword, if_neg Bool.false_ne_true, readpassphrase, cstring_overwrite, cstring_take]
  rfl

lemma strlen_append_zero {q : Bytes} (hq : 0 ∉ q) (rest : Bytes) :
    strlen (q ++ 0 :: rest) = q.length := by
  rw [strlen, cstring_append_zero, cstring_eq_self hq]

lemma killNewline_last {q : Bytes} {c : UInt8} (hq : 0 ∉ q ++ [c]) (rest : Bytes) :
    killNewline (q ++ c :: 0 :: rest) =
      some (if c = newline then q ++ 0 :: 0 :: rest else q ++ c :: 0 :: rest) := by
  have hlen : strlen (q ++ c :: 0 :: rest) = q.length + 1 := by
    have hsplit : q ++ c :: 0 :: rest = (q ++ [c]) ++ 0 :: rest := by simp
    rw [hsplit, strlen_append_zero hq, List.length_append, List.length_singleton]
  have hread : readAt (q ++ c :: 0 :: rest) q.length = some c := by
    simp [readAt]
  rw [killNewline, hlen]
  simp only [hread, Option.bind_eq_bind, Option.bind_some]
  split
  · rw [writeAt, if_pos (by simp)]
    simp
  · rfl

lemma fgets_cstring (line buf : Bytes) (n : ℕ) :
    ∃ rest, fgets line buf n = (cstring (line ++ [newline])).take (n - 1) ++ 0 :: rest := by
  rw [fgets, overwrite_zero, ← cstring_take]
  generalize (line ++ [newline]).take (n - 1) = d
  rcases line_cases d with hd | ⟨rest, hd⟩
  · exact ⟨_, by rw [cstring_eq_self hd, List.append_assoc]; rfl⟩
  · refine ⟨rest ++ 0 :: buf.drop (d ++ [0]).length, ?_⟩
    nth_rewrite 1 [hd]
    simp

lemma cstring_killNewline {p : Bytes} (hzero : 0 ∉ p) (hne : p ≠ []) (hp : newline ∉ p) (rest : Bytes) :
    (killNewline (p ++ 0 :: rest)).map cstring = some p := by
  obtain ⟨q, c, rfl⟩ : ∃ q c, p = q ++ [c] :=
    ⟨p.dropLast, p.getLast hne, (List.dropLast_append_getLast hne).symm⟩
  have hc : c ≠ newline := by
    rintro rfl
    exact hp (by simp)
  have happend : q ++ [c] ++ 0 :: rest = q ++ c :: 0 :: rest := by simp
  rw [happend, killNewline_last hzero, if_neg hc, ← happend]
  exact congrArg some ((cstring_append_zero _ _).trans (cstring_eq_self hzero))

lemma userPassword_stdin (hline : newline ∉ line) (buf : Bytes) :
    userPassword true line buf =
      if line.head? = some 0 then none else some ((cstring line).take 511) := by
  obtain ⟨rest, hfgets⟩ := fgets_cstring line buf MaxPassBuf
  have hnewline : newline ∉ cstring line := fun h => hline ((List.takeWhile_prefix _).subset h)
  have htake {p : Bytes} (n : ℕ) {c : UInt8} (h : c ∉ p) : c ∉ p.take n :=
    fun hc => h (List.mem_of_mem_take hc)
  rw [userPassword, if_pos rfl, hfgets]
  rcases line_cases line with hzero | ⟨tail, hsplit⟩
  · have hhead : line.head? ≠ some 0 := fun h => hzero (List.mem_of_mem_head? h)
    have hall : cstring (line ++ [newline]) = line ++ [newline] :=
      cstring_eq_self (by simp [hzero, newline])
    rw [if_neg hhead, hall, cstring_eq_self hzero]
    by_cases hlen : line.length ≤ 510
    · have hfits : (line ++ [newline]).take (MaxPassBuf - 1) = line ++ [newline] := by
        apply List.take_of_length_le
        rw [List.length_append, MaxPassBuf, List.length_singleton]
        omega
      have happend : line ++ [newline] ++ 0 :: rest = line ++ newline :: 0 :: rest := by simp
      rw [hfits, happend, killNewline_last (by simp [hzero, newline]), if_pos rfl, Option.map_some,
        cstring_append_zero, cstring_eq_self hzero, List.take_of_length_le (by omega)]
    · have hcut : (line ++ [newline]).take (MaxPassBuf - 1) = line.take 511 :=
        List.take_append_of_le_length (by rw [MaxPassBuf]; omega)
      rw [hcut]
      refine cstring_killNewline (htake _ hzero) ?_ (htake _ hline) rest
      intro hnil
      have hlength := congrArg List.length hnil
      rw [List.length_take, List.length_nil] at hlength
      omega
  · have hall : cstring (line ++ [newline]) = cstring line := by
      nth_rewrite 1 [hsplit]
      rw [List.append_assoc, List.cons_append, cstring_append_zero,
        cstring_eq_self (zero_notMem_cstring _)]
    rw [hall]
    by_cases hempty : cstring line = []
    · rw [hempty] at hsplit ⊢
      rw [hsplit]
      rfl
    · have hhead : line.head? ≠ some 0 := by
        intro h
        obtain ⟨rest, rfl⟩ := List.head?_eq_some_iff.mp h
        exact hempty rfl
      rw [if_neg hhead]
      refine cstring_killNewline (htake _ (zero_notMem_cstring line)) ?_ (htake _ hnewline) rest
      simpa [MaxPassBuf] using hempty

end Strings

/-- One line gives the same password on each of the three ways. -/
def Agree (line : Bytes) : Prop :=
  ∀ useStdin passBuf passBuf', userPassword useStdin line passBuf = some (newPassword line passBuf')

structure Fits (line : Bytes) : Prop where
  length : (cstring line).length ≤ 510
  head : line.head? ≠ some 0

lemma agree_iff {line : Bytes} (hline : newline ∉ line) : Agree line ↔ Fits line := by
  constructor
  · intro h
    have hprompt := h false [] []
    have hstdin := h true [] []
    rw [userPassword_prompt, newPassword_eq] at hprompt
    rw [userPassword_stdin hline] at hstdin
    constructor
    · have hlen := congrArg List.length (Option.some.inj hprompt)
      simp only [List.length_take] at hlen
      omega
    · intro hhead
      rw [if_pos hhead] at hstdin
      cases hstdin
  · rintro ⟨hlen, hhead⟩ useStdin passBuf passBuf'
    rw [newPassword_eq, List.take_of_length_le hlen]
    cases useStdin with
    | false => rw [userPassword_prompt, List.take_of_length_le (by omega)]
    | true => rw [userPassword_stdin hline, if_neg hhead, List.take_of_length_le (by omega)]

lemma getNewUserKey_typed (I : Installation) (cfg : EncFSConfig) (passBuf : Bytes) (typed : List Typed)
    {password userKey : Bytes} {cfg' : EncFSConfig}
    (h : cfg.getNewUserKey I (typed.map (Typed.attempt passBuf)) = some (password, userKey, cfg')) :
    ∃ t ∈ typed, password = newPassword t.line passBuf := by
  induction typed generalizing cfg with
  | nil => cases h
  | cons t typed ih =>
    have hlater {cfg : EncFSConfig} (h : cfg.getNewUserKey I (typed.map (Typed.attempt passBuf)) =
        some (password, userKey, cfg')) : ∃ t' ∈ t :: typed, password = newPassword t'.line passBuf := by
      obtain ⟨t', ht', hpassword⟩ := ih _ h
      exact ⟨t', List.mem_cons_of_mem t ht', hpassword⟩
    rw [List.map_cons, EncFSConfig.getNewUserKey] at h
    split at h
    · exact hlater h
    · next first hfirst =>
      split at h
      · split at h
        · obtain ⟨rfl, -⟩ := Prod.mk.inj (Option.some.inj h)
          exact ⟨t, List.mem_cons_self, (Option.some.inj hfirst).symm⟩
        · exact hlater h
      · exact hlater h

/-- A line gives one password just when it has at most 510 characters, and a first one; and where all
lines are like that, the password that has been set is the one that a line gives at any later time. -/
theorem passwords_agree {line : Bytes} (hline : newline ∉ line) :
    (Agree line ↔ Fits line) ∧
    ∀ (I : Installation) (cfg cfg' : EncFSConfig) (passBuf password userKey : Bytes)
      (typed : List Typed), (∀ t ∈ typed, newline ∉ t.line ∧ Fits t.line) →
      cfg.getNewUserKey I (typed.map (Typed.attempt passBuf)) = some (password, userKey, cfg') →
      ∃ t ∈ typed, ∀ useStdin passBuf', userPassword useStdin t.line passBuf' = some password := by
  refine ⟨agree_iff hline, fun I cfg cfg' passBuf password userKey typed hfits h => ?_⟩
  obtain ⟨t, ht, rfl⟩ := getNewUserKey_typed I cfg passBuf typed h
  obtain ⟨hline, hfit⟩ := hfits t ht
  exact ⟨t, ht, fun useStdin passBuf' => (agree_iff hline).mpr hfit useStdin passBuf' passBuf⟩

theorem passwords_agree_three : Agree [97, 98, 99] :=
  (passwords_agree (by decide)).1.mpr ⟨by decide, by decide⟩

theorem not_passwords_agree :
    newline ∉ List.replicate 511 (97 : UInt8) ∧
      newPassword (List.replicate 511 97) [] = List.replicate 510 97 ∧
      userPassword false (List.replicate 511 97) [] = some (List.replicate 511 97) := by
  have hnewline : newline ≠ 97 := by decide
  have hcstring : cstring (List.replicate 511 97) = List.replicate 511 97 :=
    cstring_eq_self fun h => absurd (List.eq_of_mem_replicate h) (by decide)
  refine ⟨fun h => hnewline (List.eq_of_mem_replicate h), ?_, ?_⟩
  · rw [newPassword_eq, hcstring, List.take_replicate]
    rfl
  · rw [userPassword_prompt, hcstring, List.take_replicate]
    rfl

end Passwords

end EncFS
