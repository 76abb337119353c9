import Mathlib.Data.List.Basic

/-!
Runs with some operations left out. A deterministic machine executes a list of
operations; purging the run keeps the visible ones only.
-/

set_option autoImplicit false

namespace Purging

variable {σ ο β : Type} (step : σ → ο → σ) (out : σ → ο → List β)

def after (s : σ) (ops : List ο) : σ := ops.foldl step s

/-- All answers of a run, in order. -/
def outs : σ → List ο → List β
  | _,[] => []
  | s,o :: ops => out s o ++ outs (step s o) ops

/-- Every operation of the run is permitted where it is executed. -/
def Along (ok : σ → ο → Prop) : σ → List ο → Prop
  | _,[] => True
  | s,o :: ops => ok s o ∧ Along ok (step s o) ops

variable {step out}

@[simp] theorem after_nil (s : σ) : after step s [] = s := rfl

@[simp] theorem after_cons (s : σ) (o : ο) (ops : List ο) :
    after step s (o :: ops) = after step (step s o) ops := rfl

theorem after_append (s : σ) (a b : List ο) :
    after step s (a ++ b) = after step (after step s a) b := by
  simp [after]

theorem outs_append (s : σ) (a b : List ο) :
    outs step out s (a ++ b) = outs step out s a ++ outs step out (after step s a) b := by
  induction a generalizing s with
  | nil => rfl
  | cons o a ih => simp [outs,ih]

theorem outs_eq_nil {s : σ} {ops : List ο} (h : ∀ s, ∀ o ∈ ops, out s o = []) :
    outs step out s ops = [] := by
  induction ops generalizing s with
  | nil => rfl
  | cons o ops ih => simp [outs,h s o,ih (fun s o ho => h s o (by simp [ho]))]

theorem along_append {ok : σ → ο → Prop} {s : σ} {a b : List ο} :
    Along step ok s (a ++ b) ↔ Along step ok s a ∧ Along step ok (after step s a) b := by
  induction a generalizing s with
  | nil => simp [Along]
  | cons o a ih => simp [Along,ih,and_assoc]

theorem along_iff {ok : σ → ο → Prop} {s : σ} {ops : List ο} :
    Along step ok s ops ↔ ∀ pre o post, ops = pre ++ o :: post → ok (after step s pre) o := by
  induction ops generalizing s with
  | nil => simp [Along]
  | cons o ops ih =>
    simp only [Along,ih]
    constructor
    · rintro ⟨ho,h⟩ pre o' post he
      cases pre with
      | nil =>
        simp only [List.nil_append,List.cons.injEq] at he
        simpa [← he.1] using ho
      | cons p pre =>
        simp only [List.cons_append,List.cons.injEq] at he
        rw [← he.1]
        exact h pre o' post he.2
    · intro h
      exact ⟨h [] o ops rfl,fun pre o' post he => h (o :: pre) o' post (by rw [he]; rfl)⟩

variable (step out)

/-- A relation between the states of a run and those of the purged run. The
operations of the run meet `full`, those of the purged run meet `kept`. -/
structure Unwinding (visible : ο → Bool) (full kept : σ → ο → Prop) where
  rel : σ → σ → Prop
  quiet : ∀ s u o, rel s u → visible o = false → full s o → rel (step s o) u ∧ out s o = []
  visible : ∀ s u o, rel s u → visible o = true → full s o → kept u o →
    rel (step s o) (step u o) ∧ out s o = out u o

variable {step out}

/-- Purging changes neither the related end state nor any answer. -/
theorem Unwinding.purge {visible : ο → Bool} {full kept : σ → ο → Prop}
    (U : Unwinding step out visible full kept) {s u : σ} {ops : List ο} (h : U.rel s u)
    (hfull : Along step full s ops) (hkept : Along step kept u (ops.filter visible)) :
    U.rel (after step s ops) (after step u (ops.filter visible)) ∧
      outs step out s ops = outs step out u (ops.filter visible) := by
  induction ops generalizing s u with
  | nil => exact ⟨h,rfl⟩
  | cons o ops ih =>
    cases ho : visible o with
    | false =>
      obtain ⟨hrel,hout⟩ := U.quiet s u o h ho hfull.1
      simp only [List.filter_cons,ho] at hkept ⊢
      obtain ⟨hend,houts⟩ := ih hrel hfull.2 hkept
      exact ⟨hend,by simp [outs,hout,houts]⟩
    | true =>
      simp only [List.filter_cons,ho,if_true] at hkept ⊢
      obtain ⟨hrel,hout⟩ := U.visible s u o h ho hfull.1 hkept.1
      obtain ⟨hend,houts⟩ := ih hrel hfull.2 hkept.2
      exact ⟨hend,by simp [outs,hout,houts]⟩

end Purging
