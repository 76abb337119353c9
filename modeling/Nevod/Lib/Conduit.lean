import Nevod.Lib.Tasks

/-!
Tasks that pass on what they take in. Along every path of such a task the items
it has taken in are the items it has passed on followed by those it still holds,
and at its end it holds none.
-/

set_option autoImplicit false

namespace Resume

section Programs

variable {Q : Type} {A : Q → Type} {E α O : Type}

/-- Holding the items `held`, the program passes on everything it takes in, in
order, and makes only requests that satisfy `g`, as long as the answers satisfy
`r`. -/
def Conveys (g : Q → Prop) (r : (q : Q) → A q → Prop) (inp out : (q : Q) → A q → List O) :
    Prog Q A E α → List O → Prop
  | .ret _,held => held = []
  | .raise _,held => held = []
  | .ask q k,held => g q ∧ ∀ a, r q a →
      ∃ held', held ++ inp q a = out q a ++ held' ∧ Conveys g r inp out (k a) held'

variable {g : Q → Prop} {r : (q : Q) → A q → Prop} {inp out : (q : Q) → A q → List O}

theorem Conveys.of_done {p : Prog Q A E α} {held : List O} (h : Conveys g r inp out p held)
    (hd : p.Done) : held = [] := by
  cases p with
  | ret a => exact h
  | raise e => exact h
  | ask q k => exact hd.elim

theorem Conveys.idle {q : Q} {k : A q → Prog Q A E α} {held : List O} (hg : g q)
    (hq : ∀ a, r q a → inp q a = [] ∧ out q a = [])
    (hk : ∀ a, r q a → Conveys g r inp out (k a) held) : Conveys g r inp out (.ask q k) held := by
  refine ⟨hg,fun a ha => ⟨held,?_,hk a ha⟩⟩
  obtain ⟨hi,ho⟩ := hq a ha
  simp [hi,ho]

end Programs

section Pools

variable {ι Q : Type} {A : Q → Type} {E α W O : Type} [DecidableEq ι]

/-- A pool whose slots carry items from a source to a sink. `total` are all the
items that slot has been given so far; only the world adds to them. -/
structure Conduit (R : Rules ι Q A E α W) (O : Type) where
  inv : W → Prop
  guard : ι → Q → Prop
  rely : ι → (q : Q) → A q → Prop
  inp : ι → (q : Q) → A q → List O
  out : ι → (q : Q) → A q → List O
  total : ι → W → List O
  source : ι → W → List O
  sink : ι → W → List O
  answer : ∀ i w q a w', R.answer i w q a w' → inv w → guard i q → rely i q a ∧ inv w' ∧
    ∀ j, total j w' = total j w ∧
      source j w = (if j = i then inp i q a else []) ++ source j w' ∧
      sink j w' = sink j w ++ (if j = i then out i q a else [])
  start : ∀ i w p w', R.start i w p w' → inv w →
    Conveys (guard i) (rely i) (inp i) (out i) p [] ∧ inv w' ∧
      ∀ j, total j w' = total j w ∧ source j w' = source j w ∧ sink j w' = sink j w
  drift : ∀ w w', R.drift w w' → inv w → inv w' ∧ ∀ j, ∃ new,
    total j w' = total j w ++ new ∧ source j w' = source j w ++ new ∧ sink j w' = sink j w

variable {R : Rules ι Q A E α W} {P P' : Pool ι Q A E α W}

/-- What slot `i` holds accounts for everything between its sink and its source. -/
def Conduit.Accounts (C : Conduit R O) (P : Pool ι Q A E α W) (i : ι) : Prop :=
  ∃ held, Conveys (C.guard i) (C.rely i) (C.inp i) (C.out i) (P.tasks i) held ∧
    C.total i P.world = C.sink i P.world ++ held ++ C.source i P.world

def Conduit.Holds (C : Conduit R O) (P : Pool ι Q A E α W) : Prop :=
  C.inv P.world ∧ ∀ i, C.Accounts P i

theorem Conduit.Holds.step {C : Conduit R O} (hP : C.Holds P) (h : Pool.Step R P P') :
    C.Holds P' := by
  obtain ⟨hw,hacc⟩ := hP
  cases h with
  | answer i q k a w ht hans =>
    obtain ⟨held,hc,htotal⟩ := hacc i
    rw [ht] at hc
    obtain ⟨hr,hw',hflow⟩ := C.answer i _ q a w hans hw hc.1
    refine ⟨hw',fun j => ?_⟩
    obtain ⟨ht',hs',ho'⟩ := hflow j
    by_cases hj : j = i
    · subst hj
      obtain ⟨held',heq,hc'⟩ := hc.2 a hr
      refine ⟨held',by simpa using hc',?_⟩
      -- what was taken in moves from the source to the slot, what was passed on to the sink
      rw [if_pos rfl] at hs' ho'
      calc C.total j w = C.sink j P.world ++ (held ++ C.inp j q a) ++ C.source j w := by
            rw [ht',htotal,hs']
            simp only [List.append_assoc]
        _ = C.sink j w ++ held' ++ C.source j w := by
            rw [heq,ho']
            simp only [List.append_assoc]
    · obtain ⟨held',hc',htotal'⟩ := hacc j
      rw [if_neg hj,List.nil_append] at hs'
      rw [if_neg hj,List.append_nil] at ho'
      exact ⟨held',by simpa [hj] using hc',by rw [ht',ho',← hs',htotal']⟩
  | start i p w hd hstart =>
    obtain ⟨hp,hw',hflow⟩ := C.start i _ p w hstart hw
    refine ⟨hw',fun j => ?_⟩
    obtain ⟨held,hc,htotal⟩ := hacc j
    obtain ⟨ht',hs',ho'⟩ := hflow j
    by_cases hj : j = i
    · subst hj
      have hnil := hc.of_done hd
      subst hnil
      exact ⟨[],by simpa using hp,by rw [ht',hs',ho',htotal]⟩
    · exact ⟨held,by simpa [hj] using hc,by rw [ht',hs',ho',htotal]⟩
  | drift w hdrift =>
    obtain ⟨hw',hflow⟩ := C.drift _ w hdrift hw
    refine ⟨hw',fun j => ?_⟩
    obtain ⟨held,hc,htotal⟩ := hacc j
    obtain ⟨new,ht',hs',ho'⟩ := hflow j
    exact ⟨held,hc,by rw [ht',hs',ho',htotal,List.append_assoc _ _ new]⟩

theorem Conduit.Holds.steps {C : Conduit R O} (hP : C.Holds P) (h : Pool.Steps R P P') :
    C.Holds P' :=
  Pool.invariant_of_steps (fun _ _ hP1 hs => hP1.step hs) h hP

/-- What has been passed on is a prefix of all that was given to the slot. -/
theorem Conduit.Holds.sink_prefix {C : Conduit R O} (hP : C.Holds P) (i : ι) :
    C.sink i P.world <+: C.total i P.world := by
  obtain ⟨held,_,htotal⟩ := hP.2 i
  exact ⟨held ++ C.source i P.world,by rw [htotal,List.append_assoc]⟩

end Pools

end Resume
