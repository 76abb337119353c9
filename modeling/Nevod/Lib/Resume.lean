/-!
Resumption programs. A program returns, raises, or asks one request and
resumes with the answer. The same program text is executed by a handler (one
task alone) or one request at a time (tasks interleaved at their requests).
-/

set_option autoImplicit false

namespace Resume

inductive Prog (Q : Type) (A : Q → Type) (E α : Type) : Type where
  | ret : α → Prog Q A E α
  | raise : E → Prog Q A E α
  | ask : (q : Q) → (A q → Prog Q A E α) → Prog Q A E α

namespace Prog

variable {Q : Type} {A : Q → Type} {E α β : Type}

def bind (p : Prog Q A E α) (f : α → Prog Q A E β) : Prog Q A E β :=
  match p with
  | .ret a => f a
  | .raise e => .raise e
  | .ask q k => .ask q (fun a => (k a).bind f)

/-- `try p except e: h e`. -/
def rescue (p : Prog Q A E α) (h : E → Prog Q A E α) : Prog Q A E α :=
  match p with
  | .ret a => .ret a
  | .raise e => h e
  | .ask q k => .ask q (fun a => (k a).rescue h)

/-- `try p finally q`. -/
def ensure (p : Prog Q A E α) (q : Prog Q A E Unit) : Prog Q A E α :=
  match p with
  | .ret a => q.bind (fun _ => .ret a)
  | .raise e => q.bind (fun _ => .raise e)
  | .ask q' k => .ask q' (fun a => (k a).ensure q)

instance : Monad (Prog Q A E) where
  pure := .ret
  bind := bind

def request (q : Q) : Prog Q A E (A q) := .ask q .ret

def ofExcept : Except E α → Prog Q A E α
  | .ok a => .ret a
  | .error e => .raise e

/-- `for x in xs: body x`. -/
def forEach (xs : List β) (body : β → Prog Q A E Unit) : Prog Q A E Unit :=
  match xs with
  | [] => .ret ()
  | x :: xs => (body x).bind (fun _ => forEach xs body)

@[simp] theorem pure_eq (a : α) : (pure a : Prog Q A E α) = .ret a := rfl

@[simp] theorem bind_eq (p : Prog Q A E α) (f : α → Prog Q A E β) :
    (p >>= f) = p.bind f := rfl

@[simp] theorem bind_ret (a : α) (f : α → Prog Q A E β) :
    (Prog.ret a : Prog Q A E α).bind f = f a := rfl

@[simp] theorem bind_raise (e : E) (f : α → Prog Q A E β) :
    (Prog.raise e : Prog Q A E α).bind f = .raise e := rfl

@[simp] theorem bind_ask (q : Q) (k : A q → Prog Q A E α) (f : α → Prog Q A E β) :
    (Prog.ask q k).bind f = .ask q (fun a => (k a).bind f) := rfl

@[simp] theorem rescue_ret (a : α) (h : E → Prog Q A E α) :
    (Prog.ret a : Prog Q A E α).rescue h = .ret a := rfl

@[simp] theorem rescue_raise (e : E) (h : E → Prog Q A E α) :
    (Prog.raise e : Prog Q A E α).rescue h = h e := rfl

@[simp] theorem rescue_ask (q : Q) (k : A q → Prog Q A E α) (h : E → Prog Q A E α) :
    (Prog.ask q k).rescue h = .ask q (fun a => (k a).rescue h) := rfl

@[simp] theorem ensure_ret (a : α) (q : Prog Q A E Unit) :
    (Prog.ret a : Prog Q A E α).ensure q = q.bind (fun _ => .ret a) := rfl

@[simp] theorem ensure_raise (e : E) (q : Prog Q A E Unit) :
    (Prog.raise e : Prog Q A E α).ensure q = q.bind (fun _ => .raise e) := rfl

@[simp] theorem ofExcept_ok (a : α) : (ofExcept (.ok a) : Prog Q A E α) = .ret a := rfl

@[simp] theorem ofExcept_error (e : E) :
    (ofExcept (.error e) : Prog Q A E α) = .raise e := rfl

@[simp] theorem request_bind (q : Q) (f : A q → Prog Q A E β) :
    (request q : Prog Q A E (A q)).bind f = .ask q f := rfl

theorem bind_assoc {γ : Type} (p : Prog Q A E α) (f : α → Prog Q A E β)
    (g : β → Prog Q A E γ) : (p.bind f).bind g = p.bind (fun a => (f a).bind g) := by
  induction p with
  | ret a => rfl
  | raise e => rfl
  | ask q k ih =>
    simp only [bind_ask,ih]

@[simp] theorem bind_ret_self (p : Prog Q A E α) : p.bind .ret = p := by
  induction p with
  | ret a => rfl
  | raise e => rfl
  | ask q k ih =>
    simp only [bind_ask,ih]

theorem rescue_rescue (p : Prog Q A E α) (h h' : E → Prog Q A E α) :
    (p.rescue h).rescue h' = p.rescue (fun e => (h e).rescue h') := by
  induction p with
  | ret a => rfl
  | raise e => rfl
  | ask q k ih =>
    simp only [rescue_ask,ih]

@[simp] theorem forEach_nil (body : β → Prog Q A E Unit) :
    forEach [] body = .ret () := rfl

@[simp] theorem forEach_cons (x : β) (xs : List β) (body : β → Prog Q A E Unit) :
    forEach (x :: xs) body = (body x).bind (fun _ => forEach xs body) := rfl

theorem forEach_append (xs ys : List β) (body : β → Prog Q A E Unit) :
    forEach (xs ++ ys) body = (forEach xs body).bind (fun _ => forEach ys body) := by
  induction xs with
  | nil => rfl
  | cons x xs ih =>
    simp only [List.cons_append,forEach_cons,ih,bind_assoc]

/-- A loop that passes over what `f` does not select. -/
theorem forEach_filterMap {γ : Type} {f : β → Option γ} {body : β → Prog Q A E Unit}
    {body' : γ → Prog Q A E Unit} {xs : List β}
    (h : ∀ x ∈ xs, body x = (f x).elim (.ret ()) body') :
    forEach xs body = forEach (xs.filterMap f) body' := by
  induction xs with
  | nil => rfl
  | cons x xs ih =>
    have hxs := ih (fun y hy => h y (by simp [hy]))
    rw [forEach_cons,h x (by simp),hxs,List.filterMap_cons]
    cases f x <;> rfl

end Prog

section Safety

variable {Q : Type} {A : Q → Type} {E α β : Type}

/-- The program never raises. -/
def Prog.Safe : Prog Q A E α → Prop
  | .ret _ => True
  | .raise _ => False
  | .ask _ k => ∀ a, (k a).Safe

theorem Prog.Safe.bind {p : Prog Q A E α} {f : α → Prog Q A E β} (hp : p.Safe)
    (hf : ∀ a, (f a).Safe) : (p.bind f).Safe := by
  induction p with
  | ret a => exact hf a
  | raise e => exact hp.elim
  | ask q k ih => exact fun a => ih a (hp a)

theorem Prog.safe_rescue {p : Prog Q A E α} {c : E → Prog Q A E α} (hc : ∀ e, (c e).Safe) :
    (p.rescue c).Safe := by
  induction p with
  | ret a => trivial
  | raise e => exact hc e
  | ask q k ih => exact fun a => ih a

theorem Prog.Safe.forEach {xs : List β} {body : β → Prog Q A E Unit} (hb : ∀ x, (body x).Safe) :
    (Prog.forEach xs body).Safe := by
  induction xs with
  | nil => trivial
  | cons x xs ih => exact (hb x).bind (fun _ => ih)

/-- What comes after a program that never raises is all that is left to rescue. -/
theorem Prog.Safe.rescue_bind {p : Prog Q A E α} {f : α → Prog Q A E β}
    {c : E → Prog Q A E β} (hp : p.Safe) :
    (p.bind f).rescue c = p.bind (fun a => (f a).rescue c) := by
  induction p with
  | ret a => rfl
  | raise e => exact hp.elim
  | ask q k ih =>
    simp only [Prog.bind_ask,Prog.rescue_ask]
    congr 1
    funext a
    exact ih a (hp a)

theorem Prog.Safe.ensure_bind {p : Prog Q A E α} {f : α → Prog Q A E β} {q : Prog Q A E Unit}
    (hp : p.Safe) : (p.bind f).ensure q = p.bind (fun a => (f a).ensure q) := by
  induction p with
  | ret a => rfl
  | raise e => exact hp.elim
  | ask q' k ih =>
    simp only [Prog.bind_ask,Prog.ensure]
    congr 1
    funext a
    exact ih a (hp a)

/-- What comes after a program that never raises is reached. -/
theorem Prog.Safe.of_bind [∀ q, Nonempty (A q)] {p : Prog Q A E α} {f : α → Prog Q A E β}
    (hp : p.Safe) (h : (p.bind f).Safe) : ∃ a, (f a).Safe := by
  induction p with
  | ret a => exact ⟨a,h⟩
  | raise e => exact hp.elim
  | ask q k ih =>
    obtain ⟨a⟩ := (inferInstance : Nonempty (A q))
    exact ih a (hp a) (h a)

end Safety

/-- One request together with the answer it got. -/
abbrev Exchange (Q : Type) (A : Q → Type) := (q : Q) × A q

/-- What executing a program alone leaves behind. -/
structure Run (Q : Type) (A : Q → Type) (E α S : Type) where
  result : Except E α
  trace : List (Exchange Q A)
  final : S

abbrev Handler (Q : Type) (A : Q → Type) (S : Type) := (q : Q) → S → A q × S

section Execution

variable {Q : Type} {A : Q → Type} {E α β S : Type}

def run (h : Handler Q A S) : Prog Q A E α → S → Run Q A E α S
  | .ret a, s => ⟨.ok a,[],s⟩
  | .raise e, s => ⟨.error e,[],s⟩
  | .ask q k, s =>
    let r := run h (k (h q s).1) (h q s).2
    ⟨r.result,⟨q,(h q s).1⟩ :: r.trace,r.final⟩

variable (h : Handler Q A S)

@[simp] theorem run_ret (a : α) (s : S) :
    run h (.ret a : Prog Q A E α) s = ⟨.ok a,[],s⟩ := rfl

@[simp] theorem run_raise (e : E) (s : S) :
    run h (.raise e : Prog Q A E α) s = ⟨.error e,[],s⟩ := rfl

theorem run_ask (q : Q) (k : A q → Prog Q A E α) (s : S) :
    run h (.ask q k) s =
      ⟨(run h (k (h q s).1) (h q s).2).result,
        ⟨q,(h q s).1⟩ :: (run h (k (h q s).1) (h q s).2).trace,
        (run h (k (h q s).1) (h q s).2).final⟩ := rfl

theorem run_bind (p : Prog Q A E α) (f : α → Prog Q A E β) (s : S) :
    run h (p.bind f) s =
      match (run h p s).result with
      | .ok a =>
        ⟨(run h (f a) (run h p s).final).result,
          (run h p s).trace ++ (run h (f a) (run h p s).final).trace,
          (run h (f a) (run h p s).final).final⟩
      | .error e => ⟨.error e,(run h p s).trace,(run h p s).final⟩ := by
  induction p generalizing s with
  | ret a => simp
  | raise e => simp
  | ask q k ih =>
    simp only [Prog.bind_ask,run_ask,ih]
    cases (run h (k (h q s).1) (h q s).2).result <;> simp

variable {h}

theorem run_bind_ok {p : Prog Q A E α} {s : S} {a : α} (hr : (run h p s).result = .ok a)
    (f : α → Prog Q A E β) :
    run h (p.bind f) s =
      ⟨(run h (f a) (run h p s).final).result,
        (run h p s).trace ++ (run h (f a) (run h p s).final).trace,
        (run h (f a) (run h p s).final).final⟩ := by
  rw [run_bind,hr]

theorem run_bind_error {p : Prog Q A E α} {s : S} {e : E}
    (hr : (run h p s).result = .error e) (f : α → Prog Q A E β) :
    run h (p.bind f) s = ⟨.error e,(run h p s).trace,(run h p s).final⟩ := by
  rw [run_bind,hr]

theorem run_map (p : Prog Q A E α) (f : α → β) (s : S) :
    (run h (p.bind (fun a => .ret (f a))) s).trace = (run h p s).trace ∧
      (run h (p.bind (fun a => .ret (f a))) s).final = (run h p s).final := by
  rw [run_bind]
  cases (run h p s).result <;> simp

end Execution

section Moments

variable {Q : Type} {A : Q → Type} {E α S : Type}

/-- The requests of an execution, each with the state it met. -/
def moments (h : Handler Q A S) : Prog Q A E α → S → List (Q × S)
  | .ret _, _ => []
  | .raise _, _ => []
  | .ask q k, s => (q,s) :: moments h (k (h q s).1) (h q s).2

/-- The requests that lead from `s` to another state, one after another. -/
inductive Chronicle (h : Handler Q A S) (s : S) : List (Q × S) → S → Prop where
  | start : Chronicle h s [] s
  | next (q : Q) {l : List (Q × S)} {s' : S} :
    Chronicle h s l s' → Chronicle h s (l ++ [(q,s')]) (h q s').2

variable {h : Handler Q A S}

theorem Chronicle.run (p : Prog Q A E α) {s s' : S} {l : List (Q × S)}
    (hc : Chronicle h s l s') : Chronicle h s (l ++ moments h p s') (run h p s').final := by
  induction p generalizing l s' with
  | ret a => simpa [moments] using hc
  | raise e => simpa [moments] using hc
  | ask q k ih =>
    have hk := ih (h q s').1 (hc.next q)
    simpa [moments,run_ask] using hk

theorem Chronicle.take {s s' w : S} {q : Q} {pre post : List (Q × S)}
    (hc : Chronicle h s (pre ++ (q,w) :: post) s') : Chronicle h s pre w := by
  generalize hl : pre ++ (q,w) :: post = l at hc
  induction hc generalizing post with
  | start => simp at hl
  | @next q' l s'' hc ih =>
    rcases List.eq_nil_or_concat post with rfl | ⟨post',m,rfl⟩
    · obtain ⟨rfl,he⟩ := List.append_inj' hl rfl
      simp only [List.cons.injEq,Prod.mk.injEq,and_true] at he
      rwa [he.2]
    · rw [List.concat_eq_append,← List.cons_append,← List.append_assoc] at hl
      exact ih (List.append_inj' hl rfl).1

end Moments

section Prefixes

variable {Q : Type} {A : Q → Type} {E α S : Type}

/-- The first requests of a program: the exchanges, what is left, and the state. -/
def runFor (h : Handler Q A S) : Nat → Prog Q A E α → S → List (Exchange Q A) × Prog Q A E α × S
  | n+1, .ask q k, s =>
    let r := runFor h n (k (h q s).1) (h q s).2
    (⟨q,(h q s).1⟩ :: r.1,r.2)
  | _, p, s => ([],p,s)

end Prefixes

section Paths

variable {Q : Type} {A : Q → Type} {E α β S : Type}

/-- `Path p tr p'`: after the exchanges `tr`, `p'` is left to do of `p`. -/
inductive Path : Prog Q A E α → List (Exchange Q A) → Prog Q A E α → Prop where
  | here (p : Prog Q A E α) : Path p [] p
  | step (q : Q) (k : A q → Prog Q A E α) (a : A q) {tr : List (Exchange Q A)}
      {p : Prog Q A E α} : Path (k a) tr p → Path (.ask q k) (⟨q,a⟩ :: tr) p

theorem Path.snoc {p : Prog Q A E α} {tr : List (Exchange Q A)} {q : Q}
    {k : A q → Prog Q A E α} (h : Path p tr (.ask q k)) (a : A q) :
    Path p (tr ++ [⟨q,a⟩]) (k a) := by
  generalize hp : Prog.ask q k = p' at h
  induction h with
  | here p => subst hp; exact .step q k a (.here _)
  | step q' k' a' _ ih => exact .step q' k' a' (ih hp)

theorem Path.of_append {p p' : Prog Q A E α} {tr1 tr2 : List (Exchange Q A)}
    (h : Path p (tr1 ++ tr2) p') : ∃ p1, Path p tr1 p1 ∧ Path p1 tr2 p' := by
  induction tr1 generalizing p with
  | nil => exact ⟨p,.here p,h⟩
  | cons e tr1 ih =>
    cases h with
    | step q k a h =>
      obtain ⟨p1,h1,h2⟩ := ih h
      exact ⟨p1,.step q k a h1,h2⟩

theorem Path.trans {p p' p'' : Prog Q A E α} {tr1 tr2 : List (Exchange Q A)}
    (h : Path p tr1 p') (h' : Path p' tr2 p'') : Path p (tr1 ++ tr2) p'' := by
  induction h with
  | here p => exact h'
  | step q k a _ ih => exact .step q k a (ih h')

/-- The answers determine what is left to do. -/
theorem Path.unique {p p1 p2 : Prog Q A E α} {tr : List (Exchange Q A)} (h1 : Path p tr p1)
    (h2 : Path p tr p2) : p1 = p2 := by
  induction h1 with
  | here p =>
    cases h2
    rfl
  | step q k a _ ih =>
    cases h2 with
    | step _ _ _ h2 => exact ih h2

theorem Path.of_ret {a : α} {tr : List (Exchange Q A)} {p : Prog Q A E α}
    (h : Path (.ret a) tr p) : tr = [] ∧ p = .ret a := by
  cases h
  exact ⟨rfl,rfl⟩

theorem Path.of_raise {e : E} {tr : List (Exchange Q A)} {p : Prog Q A E α}
    (h : Path (.raise e) tr p) : tr = [] ∧ p = .raise e := by
  cases h
  exact ⟨rfl,rfl⟩

/-- Either the first part is still running, or it returned and the
continuation has gone on from there. -/
theorem Path.of_bind {p : Prog Q A E α} {f : α → Prog Q A E β} {tr : List (Exchange Q A)}
    {p' : Prog Q A E β} (h : Path (p.bind f) tr p') :
    (∃ p1, Path p tr p1 ∧ p' = p1.bind f) ∨
    ∃ tr1 tr2 a, tr = tr1 ++ tr2 ∧ Path p tr1 (.ret a) ∧ Path (f a) tr2 p' := by
  induction p generalizing tr with
  | ret a => exact .inr ⟨[],tr,a,rfl,.here _,h⟩
  | raise e =>
    obtain ⟨rfl,rfl⟩ := h.of_raise
    exact .inl ⟨.raise e,.here _,rfl⟩
  | ask q k ih =>
    cases h with
    | here => exact .inl ⟨.ask q k,.here _,rfl⟩
    | step _ _ a h =>
      rcases ih a h with ⟨p1,h1,hp⟩ | ⟨tr1,tr2,b,htr,h1,h2⟩
      · exact .inl ⟨p1,.step q k a h1,hp⟩
      · exact .inr ⟨⟨q,a⟩ :: tr1,tr2,b,by rw [htr,List.cons_append],.step q k a h1,h2⟩

/-- Either no exception was raised, or the handler has gone on from there. -/
theorem Path.of_rescue {p : Prog Q A E α} {c : E → Prog Q A E α} {tr : List (Exchange Q A)}
    {p' : Prog Q A E α} (h : Path (p.rescue c) tr p') :
    (∃ p1, Path p tr p1 ∧ p' = p1.rescue c) ∨
    ∃ tr1 tr2 e, tr = tr1 ++ tr2 ∧ Path p tr1 (.raise e) ∧ Path (c e) tr2 p' := by
  induction p generalizing tr with
  | ret a =>
    obtain ⟨rfl,rfl⟩ := h.of_ret
    exact .inl ⟨.ret a,.here _,rfl⟩
  | raise e => exact .inr ⟨[],tr,e,rfl,.here _,h⟩
  | ask q k ih =>
    cases h with
    | here => exact .inl ⟨.ask q k,.here _,rfl⟩
    | step _ _ a h =>
      rcases ih a h with ⟨p1,h1,hp⟩ | ⟨tr1,tr2,e,htr,h1,h2⟩
      · exact .inl ⟨p1,.step q k a h1,hp⟩
      · exact .inr ⟨⟨q,a⟩ :: tr1,tr2,e,by rw [htr,List.cons_append],.step q k a h1,h2⟩

theorem Path.safe {p p' : Prog Q A E α} {tr : List (Exchange Q A)} (h : Path p tr p')
    (hp : p.Safe) : p'.Safe := by
  induction h with
  | here p => exact hp
  | step q k a _ ih => exact ih (hp a)

theorem Path.bind_left {p p' : Prog Q A E α} {tr : List (Exchange Q A)} (h : Path p tr p')
    (f : α → Prog Q A E β) : Path (p.bind f) tr (p'.bind f) := by
  induction h with
  | here p => exact .here _
  | step q k a _ ih => exact .step q _ a ih

theorem run_path (h : Handler Q A S) (p : Prog Q A E α) (s : S) :
    Path p (run h p s).trace (.ofExcept (run h p s).result) := by
  induction p generalizing s with
  | ret a => exact .here _
  | raise e => exact .here _
  | ask q k ih => exact .step q k _ (ih _ _)

theorem runFor_path (h : Handler Q A S) (n : Nat) (p : Prog Q A E α) (s : S) :
    Path p (runFor h n p s).1 (runFor h n p s).2.1 := by
  induction n generalizing p s with
  | zero => exact .here _
  | succ n ih =>
    cases p with
    | ret a => exact .here _
    | raise e => exact .here _
    | ask q k => exact .step q k _ (ih _ _)

end Paths

section Obligations

variable {Q : Type} {A : Q → Type} {E α β S : Type}

/-- Every request the program can make satisfies `g`, provided the answers it
gets satisfy `r`; a returned value satisfies `post`. -/
def Obeys (g : Q → Prop) (r : (q : Q) → A q → Prop) (post : α → Prop) :
    Prog Q A E α → Prop
  | .ret a => post a
  | .raise _ => True
  | .ask q k => g q ∧ ∀ a, r q a → Obeys g r post (k a)

variable {g : Q → Prop} {r : (q : Q) → A q → Prop}

theorem obeys_ofExcept (x : Except E α) :
    Obeys g r (fun _ => True) (Prog.ofExcept x : Prog Q A E α) := by
  cases x <;> trivial

theorem Obeys.mono {post post' : α → Prop} {p : Prog Q A E α} (hp : Obeys g r post p)
    (h : ∀ a, post a → post' a) : Obeys g r post' p := by
  induction p with
  | ret a => exact h a hp
  | raise e => trivial
  | ask q k ih => exact ⟨hp.1,fun a ha => ih a (hp.2 a ha)⟩

theorem Obeys.mono_guard {g' : Q → Prop} {post : α → Prop} {p : Prog Q A E α}
    (hp : Obeys g r post p) (h : ∀ q, g q → g' q) : Obeys g' r post p := by
  induction p with
  | ret a => exact hp
  | raise e => trivial
  | ask q k ih => exact ⟨h q hp.1,fun a ha => ih a (hp.2 a ha)⟩

theorem Obeys.mono_rely {r' : (q : Q) → A q → Prop} {post : α → Prop} {p : Prog Q A E α}
    (hp : Obeys g r post p) (h : ∀ q a, r' q a → r q a) : Obeys g r' post p := by
  induction p with
  | ret a => exact hp
  | raise e => trivial
  | ask q k ih => exact ⟨hp.1,fun a ha => ih a (hp.2 a (h q a ha))⟩

theorem Obeys.bind {mid : α → Prop} {post : β → Prop} {p : Prog Q A E α}
    {f : α → Prog Q A E β} (hp : Obeys g r mid p)
    (hf : ∀ a, mid a → Obeys g r post (f a)) : Obeys g r post (p.bind f) := by
  induction p with
  | ret a => exact hf a hp
  | raise e => trivial
  | ask q k ih => exact ⟨hp.1,fun a ha => ih a (hp.2 a ha)⟩

theorem Obeys.rescue {post : α → Prop} {p : Prog Q A E α} {c : E → Prog Q A E α}
    (hp : Obeys g r post p) (hc : ∀ e, Obeys g r post (c e)) :
    Obeys g r post (p.rescue c) := by
  induction p with
  | ret a => exact hp
  | raise e => exact hc e
  | ask q k ih => exact ⟨hp.1,fun a ha => ih a (hp.2 a ha)⟩

theorem Obeys.forEach {xs : List β} {body : β → Prog Q A E Unit}
    (hb : ∀ x ∈ xs, Obeys g r (fun _ => True) (body x)) :
    Obeys g r (fun _ => True) (Prog.forEach xs body) := by
  induction xs with
  | nil => trivial
  | cons x xs ih =>
    have hx := hb x (by simp)
    have hxs := ih (fun y hy => hb y (by simp [hy]))
    exact hx.bind (fun _ _ => hxs)

/-- A program executed alone keeps every invariant that its obligations keep,
one request at a time. -/
theorem Obeys.run_inv {post : α → Prop} {p : Prog Q A E α} (hp : Obeys g r post p)
    (h : Handler Q A S) (I : S → Prop)
    (hI : ∀ q s, g q → I s → r q (h q s).1 ∧ I (h q s).2) {s : S} (hs : I s) :
    I (run h p s).final := by
  induction p generalizing s with
  | ret a => exact hs
  | raise e => exact hs
  | ask q k ih =>
    have hq := hI q s hp.1 hs
    exact ih _ (hp.2 _ hq.1) hq.2

theorem Obeys.run_relied {post : α → Prop} {p : Prog Q A E α} (hp : Obeys g r post p)
    (h : Handler Q A S) (I : S → Prop)
    (hI : ∀ q s, g q → I s → r q (h q s).1 ∧ I (h q s).2) {s : S} (hs : I s) :
    ∀ e ∈ (run h p s).trace, r e.1 e.2 := by
  induction p generalizing s with
  | ret a => simp
  | raise e => simp
  | ask q k ih =>
    have hq := hI q s hp.1 hs
    exact List.forall_mem_cons.mpr ⟨hq.1,ih _ (hp.2 _ hq.1) hq.2⟩

/-- What a program returns when it is executed alone. -/
theorem Obeys.run_post {post : α → Prop} {p : Prog Q A E α}
    (hp : Obeys g (fun _ _ => True) post p) {h : Handler Q A S} {s : S} {a : α}
    (hr : (run h p s).result = .ok a) : post a := by
  induction p generalizing s with
  | ret b =>
    simp only [run_ret,Except.ok.injEq] at hr
    exact hr ▸ hp
  | raise e => simp at hr
  | ask q k ih => exact ih _ (hp.2 _ trivial) hr

/-- Along a path whose answers are relied on, every request was allowed. -/
theorem Obeys.path {post : α → Prop} {p p' : Prog Q A E α} {tr : List (Exchange Q A)}
    (hp : Obeys g r post p) (h : Path p tr p') (hr : ∀ e ∈ tr, r e.1 e.2) :
    (∀ e ∈ tr, g e.1) ∧ Obeys g r post p' := by
  induction h with
  | here p => exact ⟨by simp,hp⟩
  | step q k a _ ih =>
    obtain ⟨htr,hp'⟩ := ih (hp.2 a (hr ⟨q,a⟩ (by simp))) (fun e he => hr e (by simp [he]))
    refine ⟨fun e he => ?_,hp'⟩
    rcases List.mem_cons.mp he with rfl | he
    · exact hp.1
    · exact htr e he

/-- What the program waits for at some point on its way is something it may ask. -/
theorem Obeys.waits {post : α → Prop} {p : Prog Q A E α} {tr : List (Exchange Q A)} {q : Q}
    {k : A q → Prog Q A E α} (hp : Obeys g r post p) (h : Path p tr (.ask q k))
    (hr : ∀ e ∈ tr, r e.1 e.2) : g q :=
  (hp.path h hr).2.1

end Obligations

section Reliance

variable {Q : Type} {A : Q → Type} {E α β : Type} {r : (q : Q) → A q → Prop}

/-- The program does not raise as long as it gets answers that satisfy `r`. -/
def Prog.SafeUnder (r : (q : Q) → A q → Prop) : Prog Q A E α → Prop
  | .ret _ => True
  | .raise _ => False
  | .ask q k => ∀ a, r q a → (k a).SafeUnder r

theorem Prog.SafeUnder.bind {p : Prog Q A E α} {f : α → Prog Q A E β} (hp : p.SafeUnder r)
    (hf : ∀ a, (f a).SafeUnder r) : (p.bind f).SafeUnder r := by
  induction p with
  | ret a => exact hf a
  | raise e => exact hp.elim
  | ask q k ih => exact fun a ha => ih a (hp a ha)

theorem Prog.SafeUnder.forEach {xs : List β} {body : β → Prog Q A E Unit}
    (hb : ∀ x ∈ xs, (body x).SafeUnder r) : (Prog.forEach xs body).SafeUnder r := by
  induction xs with
  | nil => trivial
  | cons x xs ih =>
    have hx := hb x (by simp)
    exact hx.bind (fun _ => ih (fun y hy => hb y (by simp [hy])))

theorem Path.safeUnder {p p' : Prog Q A E α} {tr : List (Exchange Q A)} (h : Path p tr p')
    (hp : p.SafeUnder r) (hr : ∀ e ∈ tr, r e.1 e.2) : p'.SafeUnder r := by
  induction h with
  | here p => exact hp
  | step q k a _ ih => exact ih (hp a (hr ⟨q,a⟩ (by simp))) (fun e he => hr e (by simp [he]))

end Reliance

section Conclusions

variable {Q : Type} {A : Q → Type} {E α β : Type} {final : (q : Q) → A q → Prop}
  {good : α → Prop} {p : Prog Q A E α}

/-- The program returns a `good` value at once when it gets a `final` answer. -/
def Prog.Concludes (final : (q : Q) → A q → Prop) (good : α → Prop) : Prog Q A E α → Prop
  | .ask q k => ∀ a, (final q a → ∃ x, k a = .ret x ∧ good x) ∧ (k a).Concludes final good
  | _ => True

/-- A good value has to be passed on at once. -/
theorem Prog.Concludes.bind {good' : β → Prop} {f : α → Prog Q A E β}
    (hp : p.Concludes final good) (hgood : ∀ x, good x → ∃ y, f x = .ret y ∧ good' y)
    (hf : ∀ x, (f x).Concludes final good') : (p.bind f).Concludes final good' := by
  induction p with
  | ret a => exact hf a
  | raise e => trivial
  | ask q k ih =>
    refine fun a => ⟨fun hfin => ?_,ih a (hp a).2⟩
    obtain ⟨x,hx,hg⟩ := (hp a).1 hfin
    obtain ⟨y,hy,hg'⟩ := hgood x hg
    exact ⟨y,by simp [hx,hy],hg'⟩

end Conclusions

section Histories

variable {Q : Type} {A : Q → Type} {E α β : Type}

/-- Obligations that depend on the exchanges made so far: each request satisfies
`g` of them, and a returned value satisfies `post`. -/
def Heeds (g : List (Exchange Q A) → Q → Prop) (r : (q : Q) → A q → Prop)
    (post : List (Exchange Q A) → α → Prop) : List (Exchange Q A) → Prog Q A E α → Prop
  | past, .ret a => post past a
  | _, .raise _ => True
  | past, .ask q k => g past q ∧ ∀ a, r q a → Heeds g r post (past ++ [⟨q,a⟩]) (k a)

variable {g : List (Exchange Q A) → Q → Prop} {r : (q : Q) → A q → Prop}
  {past : List (Exchange Q A)}

theorem Heeds.mono {post post' : List (Exchange Q A) → α → Prop} {p : Prog Q A E α}
    (hp : Heeds g r post past p) (h : ∀ later a, post later a → post' later a) :
    Heeds g r post' past p := by
  induction p generalizing past with
  | ret a => exact h past a hp
  | raise e => trivial
  | ask q k ih => exact ⟨hp.1,fun a ha => ih a (hp.2 a ha)⟩

theorem Heeds.mono_guard {g' : List (Exchange Q A) → Q → Prop}
    {post : List (Exchange Q A) → α → Prop} {p : Prog Q A E α} (hp : Heeds g r post past p)
    (h : ∀ later q, g later q → g' later q) : Heeds g' r post past p := by
  induction p generalizing past with
  | ret a => exact hp
  | raise e => trivial
  | ask q k ih => exact ⟨h past q hp.1,fun a ha => ih a (hp.2 a ha)⟩

theorem Heeds.bind {mid : List (Exchange Q A) → α → Prop}
    {post : List (Exchange Q A) → β → Prop} {p : Prog Q A E α} {f : α → Prog Q A E β}
    (hp : Heeds g r mid past p) (hf : ∀ later a, mid later a → Heeds g r post later (f a)) :
    Heeds g r post past (p.bind f) := by
  induction p generalizing past with
  | ret a => exact hf past a hp
  | raise e => trivial
  | ask q k ih => exact ⟨hp.1,fun a ha => ih a (hp.2 a ha)⟩

theorem Heeds.rescue {post : List (Exchange Q A) → α → Prop} {p : Prog Q A E α}
    {c : E → Prog Q A E α} (hp : Heeds g r post past p)
    (hc : ∀ later e, Heeds g r post later (c e)) : Heeds g r post past (p.rescue c) := by
  induction p generalizing past with
  | ret a => exact hp
  | raise e => exact hc past e
  | ask q k ih => exact ⟨hp.1,fun a ha => ih a (hp.2 a ha)⟩

theorem Heeds.forEach {xs : List β} {body : β → Prog Q A E Unit}
    (hb : ∀ later, ∀ x ∈ xs, Heeds g r (fun _ _ => True) later (body x)) :
    Heeds g r (fun _ _ => True) past (Prog.forEach xs body) := by
  induction xs generalizing past with
  | nil => trivial
  | cons x xs ih =>
    have hx := hb past x (by simp)
    exact hx.bind (fun later _ _ => ih (fun l y hy => hb l y (by simp [hy])))

theorem heeds_extends (p : Prog Q A E α) :
    Heeds (fun _ _ => True) (fun _ _ => True) (fun later _ => past ⊆ later) past p := by
  suffices h : ∀ now, past ⊆ now →
      Heeds (fun _ _ => True) (fun _ _ => True) (fun later _ => past ⊆ later) now p from
    h past (fun _ he => he)
  induction p with
  | ret a => exact fun now h => h
  | raise e => exact fun now h => trivial
  | ask q k ih => exact fun now h => ⟨trivial,fun a _ => ih a _ (fun e he => by simp [h he])⟩

theorem Heeds.and {g' : List (Exchange Q A) → Q → Prop}
    {post post' : List (Exchange Q A) → α → Prop} {p : Prog Q A E α}
    (hp : Heeds g r post past p) (hp' : Heeds g' r post' past p) :
    Heeds g r (fun later a => post later a ∧ post' later a) past p := by
  induction p generalizing past with
  | ret a => exact ⟨hp,hp'⟩
  | raise e => trivial
  | ask q k ih => exact ⟨hp.1,fun a ha => ih a (hp.2 a ha) (hp'.2 a ha)⟩

theorem Obeys.exchanged {g' : Q → Prop} {post : α → Prop} {p : Prog Q A E α}
    (hp : Obeys g' r post p) :
    Heeds (fun _ _ => True) r (fun later _ => ∀ e ∈ later, e ∈ past ∨ g' e.1) past p := by
  suffices h : ∀ now, (∀ e ∈ now, e ∈ past ∨ g' e.1) →
      Heeds (fun _ _ => True) r (fun later _ => ∀ e ∈ later, e ∈ past ∨ g' e.1) now p from
    h past (fun _ he => .inl he)
  induction p with
  | ret a => exact fun now h => h
  | raise e => exact fun now h => trivial
  | ask q k ih =>
    refine fun now h => ⟨trivial,fun a ha => ih a (hp.2 a ha) _ (fun e he => ?_)⟩
    rcases List.mem_append.mp he with he | he
    · exact h e he
    · rw [List.mem_singleton.mp he]
      exact .inr hp.1

/-- Obligations that do not look at the past. -/
theorem Obeys.heeds {g' : Q → Prop} {post : α → Prop} {p : Prog Q A E α}
    (hp : Obeys g' r post p) (h : ∀ later q, g' q → g later q) :
    Heeds g r (fun _ => post) past p := by
  induction p generalizing past with
  | ret a => exact hp
  | raise e => trivial
  | ask q k ih => exact ⟨h past q hp.1,fun a ha => ih a (hp.2 a ha)⟩

/-- What is allowed after any past. -/
theorem Heeds.obeys {g' : Q → Prop} {post : List (Exchange Q A) → α → Prop} {p : Prog Q A E α}
    (hp : Heeds g r post past p) (h : ∀ later q, g later q → g' q) :
    Obeys g' r (fun _ => True) p := by
  induction p generalizing past with
  | ret a => trivial
  | raise e => trivial
  | ask q k ih => exact ⟨h past q hp.1,fun a ha => ih a (hp.2 a ha)⟩

/-- Obligations after `past`. -/
theorem Obeys.heeds_after {g' : Q → Prop} {post : α → Prop} {p : Prog Q A E α}
    (hp : Obeys g' r post p) :
    Heeds (fun later q => past ⊆ later ∧ g' q) r (fun later a => past ⊆ later ∧ post a) past p := by
  suffices h : ∀ now, past ⊆ now → Heeds (fun later q => past ⊆ later ∧ g' q) r
      (fun later a => past ⊆ later ∧ post a) now p from h past (fun _ he => he)
  induction p with
  | ret a => exact fun now h => ⟨h,hp⟩
  | raise e => exact fun now h => trivial
  | ask q k ih =>
    exact fun now h => ⟨⟨h,hp.1⟩,fun a ha => ih a (hp.2 a ha) _ (fun e he => by simp [h he])⟩

/-- Along a path whose answers are relied on, every request was allowed by what
had been exchanged before it. -/
theorem Heeds.path {post : List (Exchange Q A) → α → Prop} {p p' : Prog Q A E α}
    {tr : List (Exchange Q A)} (hp : Heeds g r post past p) (h : Path p tr p')
    (hr : ∀ e ∈ tr, r e.1 e.2) :
    (∀ tr1 e tr2, tr = tr1 ++ e :: tr2 → g (past ++ tr1) e.1) ∧
      Heeds g r post (past ++ tr) p' := by
  induction h generalizing past with
  | here p => exact ⟨by simp,by simpa using hp⟩
  | step q k a _ ih =>
    obtain ⟨htr,hp'⟩ := ih (hp.2 a (hr ⟨q,a⟩ (by simp))) (fun e he => hr e (by simp [he]))
    refine ⟨fun tr1 e tr2 hsplit => ?_,by simpa using hp'⟩
    cases tr1 with
    | nil =>
      cases hsplit
      simpa using hp.1
    | cons e1 tr1 =>
      simp only [List.cons_append,List.cons.injEq] at hsplit
      obtain ⟨rfl,hsplit⟩ := hsplit
      simpa using htr tr1 e tr2 hsplit

theorem Heeds.waits {post : List (Exchange Q A) → α → Prop} {p : Prog Q A E α}
    {tr : List (Exchange Q A)} {q : Q} {k : A q → Prog Q A E α} (hp : Heeds g r post [] p)
    (h : Path p tr (.ask q k)) (hr : ∀ e ∈ tr, r e.1 e.2) : g tr q :=
  (hp.path h hr).2.1

/-- What is allowed only while nothing of its kind has happened, happens at most
once. -/
theorem filter_length_le_one {α : Type} {p : α → Bool} {tr : List α}
    (h : ∀ tr1 e tr2, tr = tr1 ++ e :: tr2 → p e = true → tr1.filter p = []) :
    (tr.filter p).length ≤ 1 := by
  induction tr with
  | nil => simp
  | cons e tr ih =>
    cases hp : p e with
    | false =>
      have htr := ih (fun tr1 e' tr2 hs hp' => by
        simpa [hp] using h (e :: tr1) e' tr2 (by simp [hs]) hp')
      simpa [hp] using htr
    | true =>
      have hnone : tr.filter p = [] := by
        refine List.filter_eq_nil_iff.mpr (fun e' he hp' => ?_)
        obtain ⟨tr1,tr2,rfl⟩ := List.append_of_mem he
        simpa [hp] using h (e :: tr1) e' tr2 rfl hp'
      simp [hp,hnone]

end Histories

end Resume
