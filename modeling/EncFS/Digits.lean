import Mathlib.Data.List.Induction
import Mathlib.Data.Nat.Digits.Defs
import Mathlib.Tactic.Ring

set_option autoImplicit false

namespace EncFS

variable {b : ℕ}

def digitsUpTo (b : ℕ) : (n value : ℕ) → List ℕ
  | 0, _ => []
  | n + 1, value => value % b :: digitsUpTo b n (value / b)

@[simp] lemma digitsUpTo_length (n value : ℕ) : (digitsUpTo b n value).length = n := by
  induction n generalizing value with
  | zero => rfl
  | succ n ih => rw [digitsUpTo, List.length_cons, ih]

lemma digitsUpTo_lt (hb : 0 < b) (n value : ℕ) : ∀ d ∈ digitsUpTo b n value, d < b := by
  induction n generalizing value with
  | zero => simp [digitsUpTo]
  | succ n ih =>
    intro d hd
    rcases List.mem_cons.mp hd with rfl | hd
    · exact Nat.mod_lt _ hb
    · exact ih _ d hd

lemma ofDigits_digitsUpTo (n value : ℕ) :
    Nat.ofDigits b (digitsUpTo b n value) = value % b ^ n := by
  induction n generalizing value with
  | zero => rw [digitsUpTo, Nat.ofDigits_nil, pow_zero, Nat.mod_one]
  | succ n ih =>
    rw [digitsUpTo, Nat.ofDigits_cons, ih, pow_succ', Nat.mod_mul]

lemma digitsUpTo_ofDigits {l : List ℕ} (hl : ∀ d ∈ l, d < b) :
    digitsUpTo b l.length (Nat.ofDigits b l) = l := by
  induction l with
  | nil => rfl
  | cons d l ih =>
    have hd := hl d List.mem_cons_self
    have hb : 0 < b := Nat.lt_of_le_of_lt (Nat.zero_le d) hd
    rw [List.length_cons, digitsUpTo, Nat.ofDigits_cons, Nat.add_mul_mod_self_left,
      Nat.mod_eq_of_lt hd, Nat.add_mul_div_left _ _ hb, Nat.div_eq_of_lt hd, Nat.zero_add,
      ih fun e he => hl e (List.mem_cons_of_mem d he)]

lemma ofDigits_lt {l : List ℕ} (hl : ∀ d ∈ l, d < b) : Nat.ofDigits b l < b ^ l.length := by
  induction l with
  | nil => simp
  | cons d l ih =>
    have hd := hl d List.mem_cons_self
    have hrest := ih fun e he => hl e (List.mem_cons_of_mem d he)
    rw [Nat.ofDigits_cons, List.length_cons, pow_succ']
    calc d + b * Nat.ofDigits b l < b + b * Nat.ofDigits b l := Nat.add_lt_add_right hd _
      _ = b * (Nat.ofDigits b l + 1) := by ring
      _ ≤ b * b ^ l.length := Nat.mul_le_mul_left b hrest

lemma digitsUpTo_add (m n value : ℕ) :
    digitsUpTo b (m + n) value = digitsUpTo b m value ++ digitsUpTo b n (value / b ^ m) := by
  induction m generalizing value with
  | zero => rw [Nat.zero_add, digitsUpTo, List.nil_append, pow_zero, Nat.div_one]
  | succ m ih =>
    rw [Nat.succ_add, digitsUpTo, digitsUpTo, ih, List.cons_append, Nat.div_div_eq_div_mul,
      pow_succ']

lemma digitsUpTo_mod (n value : ℕ) : digitsUpTo b n (value % b ^ n) = digitsUpTo b n value := by
  induction n generalizing value with
  | zero => rfl
  | succ n ih =>
    rw [digitsUpTo, digitsUpTo, pow_succ', Nat.mod_mul_right_mod, Nat.mod_mul_right_div_self, ih]

lemma digitsUpTo_inj {n value value' : ℕ} :
    digitsUpTo b n value = digitsUpTo b n value' ↔ value % b ^ n = value' % b ^ n := by
  constructor
  · intro h
    rw [← ofDigits_digitsUpTo, h, ofDigits_digitsUpTo]
  · intro h
    rw [← digitsUpTo_mod, h, digitsUpTo_mod]

lemma digitsUpTo_eq (n value : ℕ) :
    digitsUpTo b n value = (List.range n).map fun i => value / b ^ i % b := by
  induction n generalizing value with
  | zero => rfl
  | succ n ih =>
    rw [digitsUpTo, ih, List.range_succ_eq_map, List.map_cons, List.map_map, pow_zero, Nat.div_one]
    refine congrArg _ (List.map_congr_left fun i _ => ?_)
    simp [Nat.div_div_eq_div_mul, pow_succ']

lemma reverse_digitsUpTo (n value : ℕ) :
    (digitsUpTo b n value).reverse = (List.range n).map fun i => value / b ^ (n - 1 - i) % b := by
  apply List.ext_getElem
  · simp
  · intro i hi hi'
    simp [digitsUpTo_eq]

section Reading

variable {α δ : Type} {f : α → δ → α} {value : α → ℕ} {digit : δ → ℕ} {n : ℕ}

lemma digit_lt_of_mem (hdigit : ∀ x, digit x < b) (l : List δ) :
    ∀ d ∈ (l.map digit).reverse, d < b := by
  intro d hd
  obtain ⟨x, -, rfl⟩ := List.mem_map.mp (List.mem_reverse.mp hd)
  exact hdigit x

lemma foldl_value (hdigit : ∀ x, digit x < b)
    (hstep : ∀ a x, value a < b ^ n → value (f a x) = value a * b + digit x)
    {a : α} (ha : value a = 0) {l : List δ} (hl : l.length ≤ n + 1) :
    value (l.foldl f a) = Nat.ofDigits b (l.map digit).reverse := by
  induction l using List.reverseRecOn with
  | nil => exact ha
  | append_singleton l x ih =>
    rw [List.length_append, List.length_singleton] at hl
    have hrest := ih (by omega)
    have hlt : value (l.foldl f a) < b ^ n := by
      rw [hrest]
      apply Nat.lt_of_lt_of_le (ofDigits_lt (digit_lt_of_mem hdigit l))
      apply Nat.pow_le_pow_right (Nat.zero_lt_of_lt (hdigit x))
      rw [List.length_reverse, List.length_map]
      omega
    rw [List.foldl_append, List.foldl_cons, List.foldl_nil, hstep _ _ hlt, hrest, List.map_append,
      List.reverse_append, List.map_singleton, List.reverse_singleton, List.singleton_append,
      Nat.ofDigits_cons]
    ring

end Reading

end EncFS
