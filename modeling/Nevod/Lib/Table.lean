import Mathlib.Data.List.Nodup

/-!
Tables with a primary key, as a list of rows in insertion order. The key
constraint is a field, so every operation below has to keep it.
-/

set_option autoImplicit false

namespace Keyed

structure Table {ρ κ : Type} (key : ρ → κ) where
  rows : List ρ
  nodup : (rows.map key).Nodup

variable {ρ κ : Type} {key : ρ → κ}

namespace Table

def empty : Table key := ⟨[],by simp⟩

/-- `DELETE ... WHERE p`. -/
def deleteWhere (t : Table key) (p : ρ → Bool) : Table key where
  rows := t.rows.filter (fun r => !p r)
  nodup := t.nodup.sublist (List.filter_sublist.map key)

theorem eq_of_key_eq (t : Table key) {r s : ρ} (hr : r ∈ t.rows) (hs : s ∈ t.rows)
    (h : key r = key s) : r = s := List.inj_on_of_nodup_map t.nodup hr hs h

@[simp] theorem mem_deleteWhere (t : Table key) (p : ρ → Bool) (r : ρ) :
    r ∈ (t.deleteWhere p).rows ↔ r ∈ t.rows ∧ p r = false := by
  simp [deleteWhere]

section Ops

variable [DecidableEq κ]

/-- `SELECT ... WHERE key = k`. -/
def find (t : Table key) (k : κ) : Option ρ := t.rows.find? (fun r => key r = k)

/-- `DELETE ... WHERE key = k`. -/
def delete (t : Table key) (k : κ) : Table key := t.deleteWhere (fun r => key r = k)

/-- `UPDATE ... SET f WHERE key = k`; the key column itself is not updated. -/
def modify (t : Table key) (k : κ) (f : ρ → ρ) (hf : ∀ r, key (f r) = key r) :
    Table key where
  rows := t.rows.map (fun r => if key r = k then f r else r)
  nodup := by
    have h : key ∘ (fun r => if key r = k then f r else r) = key := by
      funext r
      by_cases hr : key r = k <;> simp [hr,hf]
    rw [List.map_map,h]
    exact t.nodup

/-- `INSERT OR IGNORE`. -/
def insertIgnore (t : Table key) (r : ρ) : Table key :=
  if h : key r ∈ t.rows.map key then t
  else ⟨t.rows ++ [r],by
    rw [List.map_append,List.map_singleton]
    exact List.nodup_append.mpr ⟨t.nodup,List.nodup_singleton _,
      fun a ha b hb hab => h (by simp_all)⟩⟩

/-- `INSERT ... ON CONFLICT(key) DO UPDATE SET f`: the row in the table is
rewritten by `f`, or `r` is appended. -/
def upsert (t : Table key) (r : ρ) (f : ρ → ρ) (hf : ∀ r, key (f r) = key r) :
    Table key :=
  if key r ∈ t.rows.map key then t.modify (key r) f hf else t.insertIgnore r

theorem find_eq_some (t : Table key) {k : κ} {r : ρ} :
    t.find k = some r ↔ r ∈ t.rows ∧ key r = k := by
  constructor
  · intro h
    exact ⟨List.mem_of_find?_eq_some h,by simpa using List.find?_some h⟩
  · rintro ⟨hr,rfl⟩
    unfold find
    cases hf : t.rows.find? (fun s => key s = key r) with
    | none => simpa using List.find?_eq_none.mp hf r hr
    | some s =>
      have hs := List.mem_of_find?_eq_some hf
      have hk : key s = key r := by simpa using List.find?_some hf
      rw [t.eq_of_key_eq hs hr hk]

theorem find_eq_none (t : Table key) {k : κ} :
    t.find k = none ↔ ∀ r ∈ t.rows, key r ≠ k := by
  unfold find
  simp

theorem mem_keys (t : Table key) {k : κ} : k ∈ t.rows.map key ↔ (t.find k).isSome := by
  constructor
  · intro h
    obtain ⟨r,hr,hk⟩ := List.mem_map.mp h
    rw [t.find_eq_some.mpr ⟨hr,hk⟩]
    rfl
  · intro h
    obtain ⟨r,hr⟩ := Option.isSome_iff_exists.mp h
    have hm := t.find_eq_some.mp hr
    exact List.mem_map.mpr ⟨r,hm.1,hm.2⟩

@[simp] theorem find_empty (k : κ) : (empty : Table key).find k = none := rfl

@[simp] theorem mem_delete (t : Table key) (k : κ) (r : ρ) :
    r ∈ (t.delete k).rows ↔ r ∈ t.rows ∧ key r ≠ k := by
  simp [delete]

theorem find_delete (t : Table key) (k j : κ) :
    (t.delete k).find j = if j = k then none else t.find j := by
  by_cases hj : j = k
  · rw [if_pos hj,find_eq_none]
    intro r hr
    rw [hj]
    exact (t.mem_delete k r).mp hr |>.2
  · rw [if_neg hj]
    apply Option.ext
    intro r
    rw [find_eq_some,find_eq_some,mem_delete]
    constructor
    · rintro ⟨⟨hr,_⟩,hk⟩
      exact ⟨hr,hk⟩
    · rintro ⟨hr,hk⟩
      exact ⟨⟨hr,by rw [hk]; exact hj⟩,hk⟩

theorem find_modify (t : Table key) (k j : κ) (f : ρ → ρ) (hf : ∀ r, key (f r) = key r) :
    (t.modify k f hf).find j = if j = k then (t.find j).map f else t.find j := by
  simp only [find,modify]
  rw [List.find?_map]
  have hp : (fun r => decide (key r = j)) ∘ (fun r => if key r = k then f r else r) =
      fun r => decide (key r = j) := by
    funext r
    by_cases hr : key r = k <;> simp [hr,hf]
  rw [hp]
  cases hr : t.rows.find? (fun r => key r = j) with
  | none => simp
  | some r =>
    have hk : key r = j := by simpa using List.find?_some hr
    by_cases hj : j = k <;> simp [hk,hj]

theorem insertIgnore_of_find (t : Table key) {r s : ρ} (h : t.find (key r) = some s) :
    t.insertIgnore r = t := by
  have hm : key r ∈ t.rows.map key := t.mem_keys.mpr (by simp [h])
  rw [insertIgnore,dif_pos hm]

theorem rows_insertIgnore (t : Table key) {r : ρ} (h : t.find (key r) = none) :
    (t.insertIgnore r).rows = t.rows ++ [r] := by
  have hm : key r ∉ t.rows.map key := by simp [t.mem_keys,h]
  rw [insertIgnore,dif_neg hm]

theorem mem_insertIgnore (t : Table key) (r s : ρ) :
    s ∈ (t.insertIgnore r).rows ↔ s ∈ t.rows ∨ (s = r ∧ t.find (key r) = none) := by
  cases h : t.find (key r) with
  | none => simp [t.rows_insertIgnore h]
  | some u => simp [t.insertIgnore_of_find h]

theorem find_insertIgnore (t : Table key) (r : ρ) (j : κ) :
    (t.insertIgnore r).find j =
      match t.find j with
      | some s => some s
      | none => if key r = j then some r else none := by
  cases h : t.find (key r) with
  | some s =>
    rw [t.insertIgnore_of_find h]
    cases hj : t.find j with
    | some u => rfl
    | none =>
      have hne : key r ≠ j := by
        intro he
        rw [he,hj] at h
        contradiction
      simp [hne]
  | none =>
    simp only [find,t.rows_insertIgnore h,List.find?_append]
    cases hj : t.rows.find? (fun s => key s = j) with
    | some u => simp
    | none => by_cases he : key r = j <;> simp [he]

theorem find_foldl_insertIgnore (t : Table key) (rs : List ρ) (j : κ) :
    (rs.foldl insertIgnore t).find j = (t.find j).or (rs.find? (fun r => key r = j)) := by
  induction rs generalizing t with
  | nil => simp
  | cons r rs ih =>
    rw [List.foldl_cons,ih,find_insertIgnore,List.find?_cons]
    cases t.find j with
    | some s => rfl
    | none => by_cases hr : key r = j <;> simp [hr]

theorem mem_foldl_insertIgnore (t : Table key) (rs : List ρ) {r : ρ} (h : r ∈ t.rows) :
    r ∈ (rs.foldl insertIgnore t).rows := by
  induction rs generalizing t with
  | nil => exact h
  | cons s rs ih => exact ih _ ((mem_insertIgnore t s r).mpr (.inl h))

theorem mem_of_foldl_insertIgnore (t : Table key) (rs : List ρ) {r : ρ}
    (h : r ∈ (rs.foldl insertIgnore t).rows) : r ∈ t.rows ∨ r ∈ rs := by
  induction rs generalizing t with
  | nil => exact .inl h
  | cons s rs ih =>
    rcases ih _ h with h | h
    · rcases (mem_insertIgnore t s r).mp h with h | ⟨rfl,_⟩
      · exact .inl h
      · exact .inr (by simp)
    · exact .inr (List.mem_cons_of_mem s h)

theorem exists_of_foldl_insertIgnore (t : Table key) {rs : List ρ} {s : ρ} (hs : s ∈ rs) :
    ∃ r ∈ (rs.foldl insertIgnore t).rows, key r = key s := by
  have hfind := find_foldl_insertIgnore t rs (key s)
  cases hr : (rs.foldl insertIgnore t).find (key s) with
  | some r => exact ⟨r,(find_eq_some _).mp hr⟩
  | none =>
    rw [hr] at hfind
    have hnone := (Option.or_eq_none_iff.mp hfind.symm).2
    simpa using List.find?_eq_none.mp hnone s hs

theorem upsert_of_find (t : Table key) {r : ρ} (f : ρ → ρ) (hf : ∀ r, key (f r) = key r)
    (h : t.find (key r) = none) : t.upsert r f hf = t.insertIgnore r := by
  have hm : key r ∉ t.rows.map key := by simp [t.mem_keys,h]
  rw [upsert,if_neg hm]

theorem find_upsert (t : Table key) (r : ρ) (f : ρ → ρ) (hf : ∀ r, key (f r) = key r)
    (j : κ) :
    (t.upsert r f hf).find j =
      if j = key r then some (((t.find j).map f).getD r) else t.find j := by
  unfold upsert
  by_cases hm : key r ∈ t.rows.map key
  · rw [if_pos hm,find_modify]
    obtain ⟨s,hs⟩ := Option.isSome_iff_exists.mp (t.mem_keys.mp hm)
    by_cases hj : j = key r <;> simp [hj,hs]
  · rw [if_neg hm,find_insertIgnore]
    have hn : t.find (key r) = none := by
      cases hn : t.find (key r) with
      | none => rfl
      | some s => exact absurd (t.mem_keys.mpr (by simp [hn])) hm
    by_cases hj : j = key r
    · simp [hj,hn]
    · cases t.find j <;> simp [hj,Ne.symm hj]

end Ops

end Table

end Keyed
