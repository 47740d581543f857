import EncFS.MACFileIO

/-! Two files that cannot be told apart by reading them. -/

set_option autoImplicit false

namespace EncFS

variable {σ τ α : Type}

namespace Accessors

/-- From states that `S` relates the size and every read are the same. -/
structure ReadsAlike (A : Accessors σ) (S : σ → σ → Prop) : Prop where
  getSize : Respects S A.getSize
  read (offset dataLen : ℕ) : Respects S (A.read offset dataLen)

def sizeAndReads (A : Accessors σ) (reads : List (ℕ × ℕ)) : Action σ (ℤ × List Answer) := do
  let size ← A.getSize
  let answers ← A.run (reads.map fun r => .read r.1 r.2)
  pure (size, answers)

lemma ReadsAlike.sizeAndReads {A : Accessors σ} {S : σ → σ → Prop} (h : A.ReadsAlike S)
    (reads : List (ℕ × ℕ)) : Respects S (A.sizeAndReads reads) := by
  have hrun : Respects S (A.run (reads.map fun r => .read r.1 r.2)) := by
    induction reads with
    | nil => exact .pure []
    | cons r reads ih =>
      refine .bind ?_ fun a => .bind ih fun as => .pure (a :: as)
      exact .bind (h.read r.1 r.2) fun result => .pure (Answer.bytes result)
  exact .bind h.getSize fun size => .bind hrun fun answers => .pure (size, answers)

end Accessors

namespace Cached

def Both (S : σ → σ → Prop) (o o' : Cached σ) : Prop :=
  o.cache = o'.cache ∧ S o.file o'.file

variable {S : σ → σ → Prop}

lemma respects_lift {x : Action σ α} (hx : Respects S x) : Respects (Both S) (lift x) := by
  rintro ⟨k, s⟩ ⟨k', t⟩ ⟨hk, hfile⟩
  obtain rfl : k = k' := hk
  rcases (hx s t hfile).runs with ⟨a, s', t', hs, ht, h⟩ | ⟨e, s', t', hs, ht, h⟩
  · exact .of_ok (lift_ok hs) (lift_ok ht) ⟨rfl, h⟩
  · exact .of_error (lift_error hs) (lift_error ht) ⟨rfl, h⟩

lemma respects_setCache (k : Cache) : Respects (Both S) (setCache (σ := σ) k) :=
  .modify fun _ _ h => ⟨rfl, h.2⟩

lemma respects_clearCache : Respects (Both S) (clearCache (σ := σ)) :=
  .modify fun _ _ h => ⟨by rw [h.1], h.2⟩

end Cached

namespace BlockFileIO

open Cached

variable {B : BlockFileIO σ} {S : σ → σ → Prop}
  (hread : ∀ offset n, Respects S (B.readOneBlock offset n))
include hread

lemma respects_cacheReadOneBlock (offset n : ℕ) :
    Respects (Both S) (B.cacheReadOneBlock offset n) := by
  refine .get fun o o' h => ?_
  rw [← h.1]
  by_cases hit : offset = o.cache.offset ∧ o.cache.data ≠ []
  · rw [if_pos hit]
    exact .ok h
  · rw [if_neg hit]
    refine Respects.bind respects_clearCache (fun _ => ?_) o o' h
    refine .bind (respects_lift (hread offset B.blockSize)) fun r => ?_
    cases r with
    | none => exact .pure none
    | some result => exact .ite (.pure _) (.bind (respects_setCache _) fun _ => .pure _)

lemma respects_readLoop (fuel k p size : ℕ) (out : Bytes) :
    Respects (Both S) (B.readLoop fuel k p size out) := by
  induction fuel generalizing k p size out with
  | zero => exact .pure out
  | succ fuel ih =>
    refine .ite (.pure out) (.bind (respects_cacheReadOneBlock hread _ _) fun r => ?_)
    cases r with
    | none => exact .pure out
    | some block => exact .ite (.pure out) (.ite (.pure _) (ih _ _ _ _))

lemma readsAlike (hsize : Respects S B.getSize) : B.accessors.ReadsAlike (Both S) where
  getSize := respects_lift hsize
  read offset n := by
    refine .ite (respects_cacheReadOneBlock hread offset n) ?_
    exact .bind (respects_readLoop hread _ _ _ _ _) fun out => .pure (some out)

end BlockFileIO

namespace MACFileIO

open MACFile

def OfBase (S : τ → τ → Prop) (f f' : MACFile τ) : Prop :=
  S f.base f'.base

variable {S : τ → τ → Prop} {M : MACFileIO τ}

lemma respects_lift {x : Action τ α} (hx : Respects S x) : Respects (OfBase S) (lift x) := by
  intro f f' hf
  rcases (hx f.base f'.base hf).runs with ⟨a, s, t, hs, ht, h⟩ | ⟨e, s, t, hs, ht, h⟩
  · exact .of_ok (lift_ok hs) (lift_ok ht) h
  · exact .of_error (lift_error hs) (lift_error ht) h

lemma readsAlike (h : M.base.ReadsAlike S) :
    M.blockFile.accessors.ReadsAlike (Cached.Both (OfBase S)) := by
  refine BlockFileIO.readsAlike (fun offset n => ?_) ?_
  · refine .bind (respects_lift (h.read _ _)) fun r => ?_
    cases r with
    | none => exact .pure none
    | some raw => exact .ite (.ite (.throw _) (.pure _)) (.pure _)
  · exact .bind (respects_lift h.getSize) fun size => .ite (.pure _) (.pure _)

end MACFileIO

end EncFS
