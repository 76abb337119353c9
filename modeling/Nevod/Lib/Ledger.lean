import Nevod.Lib.Tasks

/-!
Programs that have a fixed list of entries to make in a log, whatever they are
answered: the entries are read off the exchanges, and stand in the log in order.
-/

set_option autoImplicit false

namespace Resume

variable {Q : Type} {A : Q → Type} {E α β M : Type} (mark : Exchange Q A → List M)

/-- The entries that the program has still to make. -/
def Owes : List M → Prog Q A E α → Prop
  | owed, .ret _ => owed = []
  | _, .raise _ => True
  | owed, .ask q k => ∀ a, ∃ rest, owed = mark ⟨q,a⟩ ++ rest ∧ Owes rest (k a)

variable {mark} {owed : List M}

theorem Owes.bind {more : List M} {p : Prog Q A E α} {f : α → Prog Q A E β}
    (hp : Owes mark owed p) (hf : ∀ a, Owes mark more (f a)) :
    Owes mark (owed ++ more) (p.bind f) := by
  induction p generalizing owed with
  | ret a =>
    rw [show owed = [] from hp]
    exact hf a
  | raise e => trivial
  | ask q k ih =>
    intro a
    obtain ⟨rest,he,hk⟩ := hp a
    exact ⟨rest ++ more,by rw [he,List.append_assoc],ih a hk⟩

/-- A program that owes nothing still owes nothing if its exceptions are caught. -/
theorem Owes.rescue {p : Prog Q A E α} {c : E → Prog Q A E α} (hp : Owes mark [] p)
    (hc : ∀ e, Owes mark [] (c e)) : Owes mark [] (p.rescue c) := by
  induction p with
  | ret a => exact hp
  | raise e => exact hc e
  | ask q k ih =>
    intro a
    obtain ⟨rest,he,hk⟩ := hp a
    obtain ⟨hmark,rfl⟩ := List.append_eq_nil_iff.mp he.symm
    exact ⟨[],by rw [hmark]; rfl,ih a hk⟩

theorem Owes.forEach {xs : List β} {body : β → Prog Q A E Unit} {m : β → List M}
    (hb : ∀ x ∈ xs, Owes mark (m x) (body x)) : Owes mark (xs.flatMap m) (Prog.forEach xs body) := by
  induction xs with
  | nil => rfl
  | cons x xs ih =>
    rw [List.flatMap_cons]
    exact (hb x (by simp)).bind (fun _ => ih (fun y hy => hb y (by simp [hy])))

/-- What was owed is what has been entered and what is owed still. -/
theorem Owes.path {p p' : Prog Q A E α} {tr : List (Exchange Q A)} (hp : Owes mark owed p)
    (h : Path p tr p') : ∃ rest, owed = tr.flatMap mark ++ rest ∧ Owes mark rest p' := by
  induction h generalizing owed with
  | here p => exact ⟨owed,rfl,hp⟩
  | step q k a _ ih =>
    obtain ⟨rest,he,hk⟩ := hp a
    obtain ⟨rest',he',hp'⟩ := ih hk
    exact ⟨rest',by rw [he,he',List.flatMap_cons,List.append_assoc],hp'⟩

theorem Owes.prefix_of_path {p p' : Prog Q A E α} {tr : List (Exchange Q A)}
    (hp : Owes mark owed p) (h : Path p tr p') : tr.flatMap mark <+: owed := by
  obtain ⟨rest,he,_⟩ := hp.path h
  exact ⟨rest,he.symm⟩

/-- A program that has returned has made all its entries. -/
theorem Owes.eq_of_returned {p : Prog Q A E α} {tr : List (Exchange Q A)} {a : α}
    (hp : Owes mark owed p) (h : Path p tr (.ret a)) : tr.flatMap mark = owed := by
  obtain ⟨rest,he,hrest⟩ := hp.path h
  rw [he,show rest = [] from hrest,List.append_nil]

end Resume
