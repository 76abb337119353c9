import Mathlib.Data.List.Perm.Basic
import Mathlib.Logic.Function.Basic

/-!
Partial maps that are merged so that what is there already wins. When does the
order not matter in which maps are merged into one?
-/

set_option autoImplicit false

namespace FirstWins

variable {κ ν : Type}

/-- What `a` adds to `t`. -/
def merge (t a : κ → Option ν) : κ → Option ν := fun k => (t k).or (a k)

/-- The two maps give every key that is new to `t` the same value, if both name it. -/
def Agree (t a b : κ → Option ν) : Prop :=
  ∀ k x y, t k = none → a k = some x → b k = some y → x = y

theorem merge_eq_none {t a : κ → Option ν} {k : κ} (h : merge t a k = none) : t k = none :=
  (Option.or_eq_none_iff.mp h).1

/-- There are fewer new keys later. -/
theorem Agree.merge {t a b : κ → Option ν} (h : Agree t a b) (c : κ → Option ν) :
    Agree (merge t c) a b :=
  fun k x y ht hx hy => h k x y (merge_eq_none ht) hx hy

/-- Two maps can be merged in either order exactly if they agree. -/
theorem merge_comm_iff {t a b : κ → Option ν} :
    merge (merge t a) b = merge (merge t b) a ↔ Agree t a b := by
  constructor
  · intro h k x y ht hx hy
    have hk := congrFun h k
    simpa [merge,ht,hx,hy] using hk
  · intro h
    funext k
    cases ht : t k with
    | some z => simp [merge,ht]
    | none =>
      cases hx : a k with
      | none => simp [merge,ht,hx]
      | some x =>
        cases hy : b k with
        | none => simp [merge,ht,hx,hy]
        | some y => simp [merge,ht,hx,hy,h k x y ht hx hy]

/-- And any number of maps in any order, if they agree in pairs. -/
theorem foldl_merge_perm {as bs : List (κ → Option ν)} (hp : as.Perm bs) (t : κ → Option ν)
    (h : ∀ a ∈ as, ∀ b ∈ as, Agree t a b) : as.foldl merge t = bs.foldl merge t := by
  induction hp generalizing t with
  | nil => rfl
  | @cons a as bs _ ih =>
    refine ih (merge t a) (fun b hb c hc => ?_)
    exact (h b (List.mem_cons_of_mem a hb) c (List.mem_cons_of_mem a hc)).merge a
  | swap a b as =>
    rw [List.foldl_cons,List.foldl_cons,List.foldl_cons,List.foldl_cons]
    rw [merge_comm_iff.mpr (h b (by simp) a (by simp))]
  | @trans as bs cs hab _ ih1 ih2 =>
    refine (ih1 t h).trans (ih2 t (fun b hb c hc => ?_))
    exact h b (hab.mem_iff.mpr hb) c (hab.mem_iff.mpr hc)

end FirstWins
