import Nevod.Lib.Resume
import Mathlib.Logic.Function.Basic
import Mathlib.Logic.Relation
import Mathlib.Order.Basic

/-!
Tasks interleaved at their requests. Every slot holds one program at a time; a
step answers the request one slot is waiting on, starts a program in a slot that
is done, or changes the world alone.
-/

set_option autoImplicit false

namespace Resume

variable {ι Q : Type} {A : Q → Type} {E α W : Type}

/-- `history i` are the exchanges of slot `i` since `launched i` was started. -/
structure Pool (ι Q : Type) (A : Q → Type) (E α W : Type) where
  launched : ι → Prog Q A E α
  history : ι → List (Exchange Q A)
  tasks : ι → Prog Q A E α
  world : W

/-- The rules of a pool: who may get which answer, what may be started where,
and how the world may change by itself. -/
structure Rules (ι Q : Type) (A : Q → Type) (E α W : Type) where
  answer : ι → W → (q : Q) → A q → W → Prop
  start : ι → W → Prog Q A E α → W → Prop
  drift : W → W → Prop

def Prog.Done : Prog Q A E α → Prop
  | .ask _ _ => False
  | _ => True

theorem Prog.done_ofExcept (x : Except E α) : (Prog.ofExcept x : Prog Q A E α).Done := by
  cases x <;> trivial

theorem Prog.Safe.exists_ret {p : Prog Q A E α} (hp : p.Safe) (hd : p.Done) : ∃ a, p = .ret a := by
  cases p with
  | ret a => exact ⟨a,rfl⟩
  | raise e => exact hp.elim
  | ask q k => exact hd.elim

theorem Prog.SafeUnder.exists_ret {r : (q : Q) → A q → Prop} {p : Prog Q A E α}
    (hp : p.SafeUnder r) (hd : p.Done) : ∃ a, p = .ret a := by
  cases p with
  | ret a => exact ⟨a,rfl⟩
  | raise e => exact hp.elim
  | ask q k => exact hd.elim

variable [DecidableEq ι]

inductive Pool.Step (R : Rules ι Q A E α W) (P : Pool ι Q A E α W) :
    Pool ι Q A E α W → Prop where
  | answer (i : ι) (q : Q) (k : A q → Prog Q A E α) (a : A q) (w : W)
      (ht : P.tasks i = .ask q k) (h : R.answer i P.world q a w) :
      Pool.Step R P ⟨P.launched,Function.update P.history i (P.history i ++ [⟨q,a⟩]),
        Function.update P.tasks i (k a),w⟩
  | start (i : ι) (p : Prog Q A E α) (w : W) (ht : (P.tasks i).Done)
      (h : R.start i P.world p w) :
      Pool.Step R P ⟨Function.update P.launched i p,Function.update P.history i [],
        Function.update P.tasks i p,w⟩
  | drift (w : W) (h : R.drift P.world w) :
      Pool.Step R P ⟨P.launched,P.history,P.tasks,w⟩

/-- A finite run of the pool. -/
abbrev Pool.Steps (R : Rules ι Q A E α W) : Pool ι Q A E α W → Pool ι Q A E α W → Prop :=
  Relation.ReflTransGen (Pool.Step R)

variable {R : Rules ι Q A E α W} {P P' : Pool ι Q A E α W}

/-- What holds of every pool a run goes through. -/
theorem Pool.invariant_of_steps {J : Pool ι Q A E α W → Prop}
    (hJ : ∀ P1 P2, J P1 → Pool.Step R P1 P2 → J P2) (h : Pool.Steps R P P') (h0 : J P) : J P' := by
  induction h with
  | refl => exact h0
  | tail _ hs ih => exact hJ _ _ ih hs

/-- Only the slot that is answered has a new exchange. -/
theorem Pool.snoc_of_answer {i j : ι} {e e' : Exchange Q A}
    (h : Function.update P.history i (P.history i ++ [e]) j = P.history j ++ [e']) :
    j = i ∧ e = e' := by
  by_cases hj : j = i
  · subst hj
    simp only [Function.update_self,List.append_cancel_left_eq] at h
    exact ⟨rfl,List.singleton_inj.mp h⟩
  · simp [hj] at h

theorem Pool.no_snoc_of_start {i j : ι} {e : Exchange Q A} :
    Function.update P.history i [] j ≠ P.history j ++ [e] := by
  by_cases hj : j = i
  · subst hj
    simp
  · simp [hj]

/-- Every slot is somewhere on a path of the program started in it. -/
def Pool.OnPath (P : Pool ι Q A E α W) : Prop :=
  ∀ i, Path (P.launched i) (P.history i) (P.tasks i)

theorem Pool.OnPath.step (hP : P.OnPath) (h : Pool.Step R P P') : P'.OnPath := by
  intro j
  cases h with
  | answer i q k a w ht _ =>
    by_cases hj : j = i
    · subst hj
      have hi := hP j
      rw [ht] at hi
      simpa using hi.snoc a
    · simpa [hj] using hP j
  | start i p w _ _ =>
    by_cases hj : j = i
    · subst hj
      simpa using Path.here p
    · simpa [hj] using hP j
  | drift w _ => exact hP j

theorem Pool.OnPath.steps (hP : P.OnPath) (h : Pool.Steps R P P') : P'.OnPath :=
  Pool.invariant_of_steps (fun _ _ hP1 hs => hP1.step hs) h hP

theorem Pool.OnPath.waits (hP : P.OnPath) (h : Pool.Steps R P P') {i : ι} {q : Q}
    {k : A q → Prog Q A E α} (ht : P'.tasks i = .ask q k) :
    Path (P'.launched i) (P'.history i) (.ask q k) := by
  rw [← ht]
  exact hP.steps h i

theorem Pool.launched_of_steps {S : ι → Prog Q A E α → Prop}
    (hstart : ∀ i w p w', R.start i w p w' → S i p)
    (h0 : ∀ i, ¬ (P.tasks i).Done → S i (P.launched i)) (h : Pool.Steps R P P') :
    ∀ i, ¬ (P'.tasks i).Done → S i (P'.launched i) := by
  induction h with
  | refl => exact h0
  | tail _ hs ih =>
    intro j hj
    cases hs with
    | answer i q k a w ht _ =>
      by_cases hij : j = i
      · subst hij
        exact ih j (by simp [ht,Prog.Done])
      · exact ih j (by simpa [hij] using hj)
    | start i p w _ hp =>
      by_cases hij : j = i
      · subst hij
        simpa using hstart j _ p w hp
      · simpa [hij] using ih j (by simpa [hij] using hj)
    | drift w _ => exact ih j hj

/-- What the rules say of every answer holds of all that were given. -/
theorem Pool.answers_of_steps {ok : (q : Q) → A q → Prop}
    (hR : ∀ i w q a w', R.answer i w q a w' → ok q a)
    (h0 : ∀ i, ∀ e ∈ P.history i, ok e.1 e.2) (h : Pool.Steps R P P') :
    ∀ i, ∀ e ∈ P'.history i, ok e.1 e.2 := by
  refine Pool.invariant_of_steps (J := fun P => ∀ i, ∀ e ∈ P.history i, ok e.1 e.2) ?_ h h0
  intro P1 P2 h1 hs j e he
  cases hs with
  | answer i q k a w ht ha =>
    by_cases hj : j = i
    · subst hj
      simp only [Function.update_self,List.mem_append,List.mem_singleton] at he
      rcases he with he | rfl
      · exact h1 j e he
      · exact hR j _ q a w ha
    · exact h1 j e (by simpa [hj] using he)
  | start i p w ht hp =>
    by_cases hj : j = i
    · subst hj
      simp at he
    · exact h1 j e (by simpa [hj] using he)
  | drift w hd => exact h1 j e he

/-- Slot `i` executes `p` from its beginning to its end, among the steps of all
slots. -/
structure Pool.Executes (step : Pool ι Q A E α W → Pool ι Q A E α W → Prop) (i : ι)
    (p : Prog Q A E α) (P P' : Pool ι Q A E α W) : Prop where
  launched : P.launched i = p
  task : P.tasks i = p
  fresh : P.history i = []
  steps : Relation.ReflTransGen (fun P1 P2 => step P1 P2 ∧ ¬ (P1.tasks i).Done) P P'
  done : (P'.tasks i).Done

/-- A slot in progress stays on the path of its program. -/
theorem Pool.Step.path_of_running {i : ι} {p : Prog Q A E α} (h : Pool.Step R P P')
    (hd : ¬ (P.tasks i).Done) (hl : P.launched i = p) (hp : Path p (P.history i) (P.tasks i)) :
    P'.launched i = p ∧ Path p (P'.history i) (P'.tasks i) := by
  cases h with
  | answer j q k a w ht _ =>
    by_cases hj : i = j
    · subst hj
      rw [ht] at hp
      exact ⟨hl,by simpa using hp.snoc a⟩
    · exact ⟨hl,by simpa [hj] using hp⟩
  | start j p' w hdj _ =>
    have hj : i ≠ j := by
      rintro rfl
      exact hd hdj
    exact ⟨by simpa [hj] using hl,by simpa [hj] using hp⟩
  | drift w _ => exact ⟨hl,hp⟩

/-- What holds of the pool at every moment of an execution. -/
theorem Pool.Executes.invariant {step : Pool ι Q A E α W → Pool ι Q A E α W → Prop} {i : ι}
    {p : Prog Q A E α} (h : Pool.Executes step i p P P')
    (hstep : ∀ P1 P2, step P1 P2 → Pool.Step R P1 P2) {Φ : Pool ι Q A E α W → Prop} (h0 : Φ P)
    (hΦ : ∀ P1 P2, Relation.ReflTransGen step P P1 → step P1 P2 → ¬ (P1.tasks i).Done →
      Path p (P1.history i) (P1.tasks i) → Φ P1 → Φ P2) :
    Relation.ReflTransGen step P P' ∧ Path p (P'.history i) (P'.tasks i) ∧ Φ P' := by
  suffices hall : Relation.ReflTransGen step P P' ∧ P'.launched i = p ∧
      Path p (P'.history i) (P'.tasks i) ∧ Φ P' from ⟨hall.1,hall.2.2⟩
  have hsteps := h.steps
  have hstart : Path p (P.history i) (P.tasks i) := by
    rw [h.task,h.fresh]
    exact .here p
  have hl := h.launched
  clear h
  induction hsteps with
  | refl => exact ⟨.refl,hl,hstart,h0⟩
  | @tail P1 P2 _ hs ih =>
    obtain ⟨hrun,hl,hpath,hΦ1⟩ := ih
    obtain ⟨hl',hpath'⟩ := (hstep P1 P2 hs.1).path_of_running hs.2 hl hpath
    exact ⟨hrun.tail hs.1,hl',hpath',hΦ P1 P2 hrun hs.1 hs.2 hpath hΦ1⟩

/-- What holds of the exchanges so far and the world, at every moment of an
execution. -/
theorem Pool.Executes.track {step : Pool ι Q A E α W → Pool ι Q A E α W → Prop} {i : ι}
    {p : Prog Q A E α} (h : Pool.Executes step i p P P')
    (hstep : ∀ P1 P2, step P1 P2 → Pool.Step R P1 P2)
    {Φ : List (Exchange Q A) → W → Prop} (h0 : Φ [] P.world)
    (hown : ∀ P1 q k a w, Relation.ReflTransGen step P P1 → P1.tasks i = .ask q k →
      R.answer i P1.world q a w → Φ (P1.history i) P1.world → Φ (P1.history i ++ [⟨q,a⟩]) w)
    (hother : ∀ P1 P2, Relation.ReflTransGen step P P1 → step P1 P2 →
      Φ (P1.history i) P1.world → Φ (P1.history i) P2.world) :
    Relation.ReflTransGen step P P' ∧ Path p (P'.history i) (P'.tasks i) ∧
      Φ (P'.history i) P'.world := by
  refine h.invariant hstep (Φ := fun P1 => Φ (P1.history i) P1.world) (by rw [h.fresh]; exact h0) ?_
  intro P1 P2 hrun hs hnd _ hΦ
  have hone := hstep P1 P2 hs
  cases hone with
  | answer j q k a w ht hans =>
    by_cases hj : i = j
    · subst hj
      simpa using hown P1 q k a w hrun ht hans hΦ
    · simp only [Function.update_of_ne hj]
      exact hother P1 _ hrun hs hΦ
  | start j p' w hd hst =>
    have hj : i ≠ j := by
      rintro rfl
      exact hnd hd
    simp only [Function.update_of_ne hj]
    exact hother P1 _ hrun hs hΦ
  | drift w hd => exact hother P1 _ hrun hs hΦ

/-- The exchanges `tr` of slot `i` are allowed one after the other. -/
inductive Rules.Allows (R : Rules ι Q A E α W) (i : ι) :
    W → List (Exchange Q A) → W → Prop where
  | nil (w : W) : Rules.Allows R i w [] w
  | cons {w v u : W} {q : Q} {a : A q} {tr : List (Exchange Q A)}
      (h : R.answer i w q a v) (ht : Rules.Allows R i v tr u) :
      Rules.Allows R i w (⟨q,a⟩ :: tr) u

/-- Every change of state along the requests of `tr` passes the test. -/
def Handler.passes {S : Type} (h : Handler Q A S) (ok : S → S → Bool) :
    S → List (Exchange Q A) → Bool
  | _, [] => true
  | s, e :: tr => ok s (h e.1 s).2 && Handler.passes h ok (h e.1 s).2 tr

theorem Handler.passes_true {S : Type} (h : Handler Q A S) (s : S) (tr : List (Exchange Q A)) :
    h.passes (fun _ _ => true) s tr = true := by
  induction tr generalizing s with
  | nil => rfl
  | cons e tr ih => simpa [Handler.passes] using ih _

omit [DecidableEq ι] in
/-- A program executed alone is allowed if its changes pass a test that is enough
for the rules. -/
theorem Rules.allows_run {S : Type} (h : Handler Q A S) (view : S → W) (ok : S → S → Bool) {i : ι}
    (hR : ∀ q s, ok s (h q s).2 = true → R.answer i (view s) q (h q s).1 (view (h q s).2))
    (p : Prog Q A E α) (s : S) (hok : h.passes ok s (run h p s).trace = true) :
    R.Allows i (view s) (run h p s).trace (view (run h p s).final) := by
  induction p generalizing s with
  | ret a => exact .nil _
  | raise e => exact .nil _
  | ask q k ih =>
    simp only [run_ask,Handler.passes,Bool.and_eq_true] at hok
    exact .cons (hR q s hok.1) (ih _ _ hok.2)

omit [DecidableEq ι] in
theorem Rules.allows_runFor {S : Type} (h : Handler Q A S) (view : S → W) {i : ι}
    (hR : ∀ q s, R.answer i (view s) q (h q s).1 (view (h q s).2)) (n : Nat) (p : Prog Q A E α)
    (s : S) : R.Allows i (view s) (runFor h n p s).1 (view (runFor h n p s).2.2) := by
  induction n generalizing p s with
  | zero => exact .nil _
  | succ n ih =>
    cases p with
    | ret a => exact .nil _
    | raise e => exact .nil _
    | ask q k => exact .cons (hR q s) (ih _ _)

/-- A step among those that take slot `i` of `P` along the exchanges `tr`. -/
def Pool.Along (R : Rules ι Q A E α W) (P : Pool ι Q A E α W) (i : ι)
    (tr : List (Exchange Q A)) (P1 P2 : Pool ι Q A E α W) : Prop :=
  Pool.Step R P1 P2 ∧ ¬ (P1.tasks i).Done ∧ P2.launched = P.launched ∧
    P2.history i <+: P.history i ++ tr

/-- A slot can go along a path whose exchanges are allowed, the others at rest. -/
theorem Pool.exists_along_path {i : ι} {tr : List (Exchange Q A)} {p : Prog Q A E α}
    {w : W} (hp : Path (P.tasks i) tr p) (hw : R.Allows i P.world tr w) :
    ∃ P', Relation.ReflTransGen (P.Along R i tr) P P' ∧ P'.launched = P.launched ∧
      P'.history = Function.update P.history i (P.history i ++ tr) ∧
      P'.tasks = Function.update P.tasks i p ∧ P'.world = w := by
  generalize ht : P.tasks i = t at hp
  induction tr generalizing P t with
  | nil =>
    cases hp
    cases hw
    exact ⟨P,.refl,rfl,by simp,by rw [← ht,Function.update_eq_self],rfl⟩
  | cons e tr ih =>
    cases hp with
    | step q k a hp =>
      cases hw with
      | cons hans hw =>
        obtain ⟨P',hs,hl,hh,htask,hworld⟩ := ih (P := ⟨P.launched,
          Function.update P.history i (P.history i ++ [⟨q,a⟩]),
          Function.update P.tasks i (k a),_⟩) hw _ (by simp) hp
        refine ⟨P',.head ⟨.answer i q k a _ ht hans,by simp [ht,Prog.Done],rfl,by simp⟩ ?_,hl,
          by simpa using hh,by simpa using htask,hworld⟩
        exact hs.lift id (fun P1 P2 h => by simpa [Pool.Along] using h)

theorem Pool.exists_run_of_path {i : ι} {tr : List (Exchange Q A)} {p : Prog Q A E α}
    {w : W} (hp : Path (P.tasks i) tr p) (hw : R.Allows i P.world tr w) :
    ∃ P', Pool.Steps R P P' ∧ P'.launched = P.launched ∧
      P'.history = Function.update P.history i (P.history i ++ tr) ∧
      P'.tasks = Function.update P.tasks i p ∧ P'.world = w := by
  obtain ⟨P',hs,h⟩ := Pool.exists_along_path hp hw
  exact ⟨P',hs.lift id (fun _ _ hs => hs.1),h⟩

theorem Pool.exists_steps_of_path {i : ι} {tr : List (Exchange Q A)} {p : Prog Q A E α}
    {w : W} (hp : Path (P.tasks i) tr p) (hw : R.Allows i P.world tr w) :
    ∃ P', Pool.Steps R P P' ∧ P'.tasks = Function.update P.tasks i p ∧ P'.world = w := by
  obtain ⟨P',hs,_,_,ht,hworld⟩ := Pool.exists_run_of_path hp hw
  exact ⟨P',hs,ht,hworld⟩

/-- A slot that is done can start a program and go along a path of it. -/
theorem Pool.exists_run_of_start {i : ι} {tr : List (Exchange Q A)} {p p' : Prog Q A E α}
    {w w' : W} (hd : (P.tasks i).Done) (hs : R.start i P.world p w) (hp : Path p tr p')
    (hw : R.Allows i w tr w') :
    ∃ P', Pool.Steps R P P' ∧ P'.launched = Function.update P.launched i p ∧
      P'.history = Function.update P.history i tr ∧
      P'.tasks = Function.update P.tasks i p' ∧ P'.world = w' := by
  obtain ⟨P',hsteps,hl,hh,ht,hw'⟩ := Pool.exists_run_of_path (P := ⟨Function.update P.launched i p,
    Function.update P.history i [],Function.update P.tasks i p,w⟩) (i := i) (by simpa using hp) hw
  exact ⟨P',.head (.start i p w hd hs) hsteps,hl,by simpa using hh,by simpa using ht,hw'⟩

theorem Pool.exists_steps_of_start {i : ι} {tr : List (Exchange Q A)} {p p' : Prog Q A E α}
    {w w' : W} (hd : (P.tasks i).Done) (hs : R.start i P.world p w) (hp : Path p tr p')
    (hw : R.Allows i w tr w') :
    ∃ P', Pool.Steps R P P' ∧ P'.tasks = Function.update P.tasks i p' ∧ P'.world = w' := by
  obtain ⟨P',hsteps,_,_,ht,hw'⟩ := Pool.exists_run_of_start hd hs hp hw
  exact ⟨P',hsteps,ht,hw'⟩

/-- A slot that is done can execute a program, the others at rest. -/
theorem Pool.exists_execution {i : ι} {tr : List (Exchange Q A)} {p p' : Prog Q A E α}
    {w w' : W} (step : Pool ι Q A E α W → Pool ι Q A E α W → Prop) (hd : (P.tasks i).Done)
    (hs : R.start i P.world p w) (hp : Path p tr p') (hp' : p'.Done) (hw : R.Allows i w tr w')
    (hstep : ∀ P1 P2, Pool.Step R P1 P2 → P2.launched = Function.update P.launched i p →
      P2.history i <+: tr → step P1 P2) :
    ∃ P1 P', step P P1 ∧ Pool.Executes step i p P1 P' ∧
      P'.launched = Function.update P.launched i p ∧
      P'.history = Function.update P.history i tr ∧
      P'.tasks = Function.update P.tasks i p' ∧ P'.world = w' := by
  obtain ⟨P',hrun,hl,hh,ht,hw'⟩ := Pool.exists_along_path (P := ⟨Function.update P.launched i p,
    Function.update P.history i [],Function.update P.tasks i p,w⟩) (i := i) (by simpa using hp) hw
  refine ⟨_,P',hstep _ _ (.start i p w hd hs) rfl (by simp),
    ⟨by simp,by simp,by simp,?_,by rw [ht]; simpa using hp'⟩,hl,by simpa using hh,
    by simpa using ht,hw'⟩
  exact hrun.lift id (fun P1 P2 h =>
    ⟨hstep P1 P2 h.1 h.2.2.1 (by simpa using h.2.2.2),h.2.1⟩)

theorem Pool.exists_step_of_answer {i : ι} {q : Q} {k : A q → Prog Q A E α} {a : A q} {w : W}
    (ht : P.tasks i = .ask q k) (h : R.answer i P.world q a w) :
    ∃ P', Pool.Step R P P' ∧ P'.tasks = Function.update P.tasks i (k a) ∧ P'.world = w :=
  ⟨_,.answer i q k a w ht h,rfl,rfl⟩

/-- The same rules, with only some requests and changes permitted. -/
def Rules.restrict (R : Rules ι Q A E α W) (ask : W → Q → Prop) (drift : W → W → Prop) :
    Rules ι Q A E α W where
  answer := fun i w q a w' => R.answer i w q a w' ∧ ask w q
  start := R.start
  drift := fun w w' => R.drift w w' ∧ drift w w'

theorem Pool.Step.of_restrict {ask : W → Q → Prop} {drift : W → W → Prop}
    (h : Pool.Step (R.restrict ask drift) P P') : Pool.Step R P P' := by
  cases h with
  | answer i q k a w ht hw => exact .answer i q k a w ht hw.1
  | start i p w hd hs => exact .start i p w hd hs
  | drift w hw => exact .drift w hw.1

/-- If the permitted steps are just those that keep `I`, the runs with permitted
steps are just those that go through `I`-states only. -/
theorem Pool.steps_restrict_iff {ask : W → Q → Prop} {drift : W → W → Prop} {I : W → Prop}
    (hans : ∀ i w q a w', I w → R.answer i w q a w' → (I w' ↔ ask w q))
    (hstart : ∀ i w p w', I w → R.start i w p w' → I w')
    (hdrift : ∀ w w', I w → R.drift w w' → (I w' ↔ drift w w')) (h0 : I P.world) :
    Pool.Steps (R.restrict ask drift) P P' ↔
      Relation.ReflTransGen (fun P1 P2 => Pool.Step R P1 P2 ∧ I P2.world) P P' := by
  constructor
  · intro h
    suffices h : Relation.ReflTransGen (fun P1 P2 => Pool.Step R P1 P2 ∧ I P2.world) P P' ∧
        I P'.world from h.1
    induction h with
    | refl => exact ⟨.refl,h0⟩
    | tail _ hs ih =>
      cases hs with
      | answer i q k a w ht hw =>
        have hI := (hans i _ q a w ih.2 hw.1).mpr hw.2
        exact ⟨ih.1.tail ⟨.answer i q k a w ht hw.1,hI⟩,hI⟩
      | start i p w ht hw =>
        have hI := hstart i _ p w ih.2 hw
        exact ⟨ih.1.tail ⟨.start i p w ht hw,hI⟩,hI⟩
      | drift w hw =>
        have hI := (hdrift _ w ih.2 hw.1).mpr hw.2
        exact ⟨ih.1.tail ⟨.drift w hw.1,hI⟩,hI⟩
  · intro h
    suffices h : Pool.Steps (R.restrict ask drift) P P' ∧ I P'.world from h.1
    induction h with
    | refl => exact ⟨.refl,h0⟩
    | tail _ hs ih =>
      refine ⟨ih.1.tail ?_,hs.2⟩
      obtain ⟨hstep,hI⟩ := hs
      cases hstep with
      | answer i q k a w ht hw =>
        exact .answer i q k a w ht ⟨hw,(hans i _ q a w ih.2 hw).mp hI⟩
      | start i p w ht hw => exact .start i p w ht hw
      | drift w hw => exact .drift w ⟨hw,(hdrift _ w ih.2 hw).mp hI⟩

/-- If under the invariant `J` the permitted steps are just those that keep `I`, the
runs with permitted steps are just those that go through `I`-states only. -/
theorem Pool.steps_permitted_iff {ok : Pool ι Q A E α W → Pool ι Q A E α W → Prop}
    {J I : Pool ι Q A E α W → Prop} (hJ : ∀ P1 P2, J P1 → Pool.Step R P1 P2 → J P2)
    (hok : ∀ P1 P2, J P1 → I P1 → Pool.Step R P1 P2 → (I P2 ↔ ok P1 P2)) (hJ0 : J P) (h0 : I P) :
    Relation.ReflTransGen (fun P1 P2 => Pool.Step R P1 P2 ∧ ok P1 P2) P P' ↔
      Relation.ReflTransGen (fun P1 P2 => Pool.Step R P1 P2 ∧ I P2) P P' := by
  constructor
  · intro h
    suffices h : Relation.ReflTransGen (fun P1 P2 => Pool.Step R P1 P2 ∧ I P2) P P' ∧
        J P' ∧ I P' from h.1
    induction h with
    | refl => exact ⟨.refl,hJ0,h0⟩
    | tail _ hs ih =>
      have hI := (hok _ _ ih.2.1 ih.2.2 hs.1).mpr hs.2
      exact ⟨ih.1.tail ⟨hs.1,hI⟩,hJ _ _ ih.2.1 hs.1,hI⟩
  · intro h
    suffices h : Relation.ReflTransGen (fun P1 P2 => Pool.Step R P1 P2 ∧ ok P1 P2) P P' ∧
        J P' ∧ I P' from h.1
    induction h with
    | refl => exact ⟨.refl,hJ0,h0⟩
    | tail _ hs ih =>
      have hp := (hok _ _ ih.2.1 ih.2.2 hs.1).mp hs.2
      exact ⟨ih.1.tail ⟨hs.1,hp⟩,hJ _ _ ih.2.1 hs.1,hs.2⟩

section Views

variable {V : Type} [Preorder V]

/-- Rely and guarantee with what is known so far: a request has to be permitted
by what is known when it is made, and its answer is interpreted with what is
known when it comes. Knowledge only grows. -/
def Keeps (guard : V → Q → Prop) (rely : V → (q : Q) → A q → Prop) (post : V → α → Prop) :
    V → Prog Q A E α → Prop
  | v,.ret a => post v a
  | _,.raise _ => True
  | v,.ask q k => guard v q ∧ ∀ u, v ≤ u → ∀ a, rely u q a → Keeps guard rely post u (k a)

variable {guard : V → Q → Prop} {rely : V → (q : Q) → A q → Prop}

theorem Keeps.mono {post : V → α → Prop} {v u : V} {p : Prog Q A E α}
    (hp : Keeps guard rely post v p) (hvu : v ≤ u)
    (hguard : ∀ q, guard v q → guard u q) (hpost : ∀ a, post v a → post u a) :
    Keeps guard rely post u p := by
  cases p with
  | ret a => exact hpost a hp
  | raise e => trivial
  | ask q k => exact ⟨hguard q hp.1,fun x hx => hp.2 x (le_trans hvu hx)⟩

/-- Obligations that do not depend on what is known. -/
theorem Obeys.keeps {g : Q → Prop} {r : (q : Q) → A q → Prop} {post : α → Prop}
    {p : Prog Q A E α} (hp : Obeys g r post p) (v : V)
    (hguard : ∀ u, v ≤ u → ∀ q, g q → guard u q)
    (hrely : ∀ u, v ≤ u → ∀ q a, rely u q a → r q a) :
    Keeps guard rely (fun _ => post) v p := by
  induction p generalizing v with
  | ret a => exact hp
  | raise e => trivial
  | ask q k ih =>
    refine ⟨hguard v (le_refl v) q hp.1,fun u hu a ha => ?_⟩
    exact ih a (hp.2 a (hrely u hu q a ha)) u (fun x hx => hguard x (le_trans hu hx))
      (fun x hx => hrely x (le_trans hu hx))

theorem Keeps.bind {β : Type} {mid : V → α → Prop} {post : V → β → Prop} {v : V}
    {p : Prog Q A E α} {f : α → Prog Q A E β} (hp : Keeps guard rely mid v p)
    (hf : ∀ u, v ≤ u → ∀ a, mid u a → Keeps guard rely post u (f a)) :
    Keeps guard rely post v (p.bind f) := by
  induction p generalizing v with
  | ret a => exact hf v (le_refl v) a hp
  | raise e => trivial
  | ask q k ih =>
    refine ⟨hp.1,fun u hu a ha => ?_⟩
    exact ih a (hp.2 u hu a ha) (fun x hx => hf x (le_trans hu hx))

theorem Keeps.rescue {post : V → α → Prop} {v : V} {p : Prog Q A E α}
    {c : E → Prog Q A E α} (hp : Keeps guard rely post v p)
    (hc : ∀ u, v ≤ u → ∀ e, Keeps guard rely post u (c e)) :
    Keeps guard rely post v (p.rescue c) := by
  induction p generalizing v with
  | ret a => exact hp
  | raise e => exact hc v (le_refl v) e
  | ask q k ih =>
    refine ⟨hp.1,fun u hu a ha => ?_⟩
    exact ih a (hp.2 u hu a ha) (fun x hx => hc x (le_trans hu hx))

theorem Keeps.forEach {β : Type} {v : V} {xs : List β} {body : β → Prog Q A E Unit}
    (hb : ∀ x ∈ xs, ∀ u, v ≤ u → Keeps guard rely (fun _ _ => True) u (body x)) :
    Keeps guard rely (fun _ _ => True) v (Prog.forEach xs body) := by
  induction xs generalizing v with
  | nil => trivial
  | cons x xs ih =>
    have hx := hb x (by simp) v (le_refl v)
    exact hx.bind (fun u hu _ _ => ih (fun y hy w hw => hb y (by simp [hy]) w (le_trans hu hw)))

variable (V) in
/-- What every slot may ask and relies on, with an invariant of the world. What is
known is read off the world and never lost. -/
structure Discipline (R : Rules ι Q A E α W) where
  inv : W → Prop
  view : W → V
  guard : ι → V → Q → Prop
  rely : ι → V → (q : Q) → A q → Prop
  mono : ∀ i v u q, v ≤ u → guard i v q → guard i u q
  answer : ∀ i w q a w', R.answer i w q a w' → inv w → guard i (view w) q →
    rely i (view w') q a ∧ inv w' ∧ view w ≤ view w'
  start : ∀ i w p w', R.start i w p w' → inv w →
    Keeps (guard i) (rely i) (fun _ _ => True) (view w') p ∧ inv w' ∧ view w ≤ view w'
  drift : ∀ w w', R.drift w w' → inv w → inv w' ∧ view w ≤ view w'

/-- The world is in order and every task keeps to its guard. -/
def Discipline.Holds (D : Discipline V R) (P : Pool ι Q A E α W) : Prop :=
  D.inv P.world ∧
    ∀ i, Keeps (D.guard i) (D.rely i) (fun _ _ => True) (D.view P.world) (P.tasks i)

theorem Discipline.Holds.step {D : Discipline V R} (hP : D.Holds P) (h : Pool.Step R P P') :
    D.Holds P' := by
  obtain ⟨hw,ht⟩ := hP
  cases h with
  | answer i q k a w hask hans =>
    have hi := ht i
    rw [hask] at hi
    obtain ⟨hr,hw',hle⟩ := D.answer i _ q a w hans hw hi.1
    refine ⟨hw',fun j => ?_⟩
    by_cases hj : j = i
    · subst hj
      simpa using hi.2 _ hle a hr
    · simpa [hj] using (ht j).mono hle (fun q => D.mono j _ _ q hle) (fun _ _ => trivial)
  | start i p w _ hstart =>
    obtain ⟨hp,hw',hle⟩ := D.start i _ p w hstart hw
    refine ⟨hw',fun j => ?_⟩
    by_cases hj : j = i
    · subst hj
      simpa using hp
    · simpa [hj] using (ht j).mono hle (fun q => D.mono j _ _ q hle) (fun _ _ => trivial)
  | drift w hd =>
    obtain ⟨hw',hle⟩ := D.drift _ w hd hw
    exact ⟨hw',fun j => (ht j).mono hle (fun q => D.mono j _ _ q hle) (fun _ _ => trivial)⟩

theorem Discipline.Holds.steps {D : Discipline V R} (hP : D.Holds P) (h : Pool.Steps R P P') :
    D.Holds P' :=
  Pool.invariant_of_steps (fun _ _ hP1 hs => hP1.step hs) h hP

/-- Every exchange in a history was relied on with what was known when it was made. -/
theorem Discipline.Holds.relied_before {D : Discipline V R} (hP : D.Holds P)
    (hh : ∀ i, ∀ e ∈ P.history i, ∃ v, v ≤ D.view P.world ∧ D.rely i v e.1 e.2)
    (h : Pool.Steps R P P') :
    ∀ i, ∀ e ∈ P'.history i, ∃ v, v ≤ D.view P'.world ∧ D.rely i v e.1 e.2 := by
  induction h with
  | refl => exact hh
  | @tail P1 P2 hs hstep ih =>
    obtain ⟨hw,ht⟩ := hP.steps hs
    intro j e he
    have hold : ∀ {w : W}, D.view P1.world ≤ D.view w → e ∈ P1.history j →
        ∃ v, v ≤ D.view w ∧ D.rely j v e.1 e.2 := by
      intro w hle he
      obtain ⟨v,hv,hr⟩ := ih j e he
      exact ⟨v,le_trans hv hle,hr⟩
    cases hstep with
    | answer i q k a w hask hans =>
      have hi := ht i
      rw [hask] at hi
      obtain ⟨hr,_,hle⟩ := D.answer i _ q a w hans hw hi.1
      by_cases hj : j = i
      · subst hj
        simp only [Function.update_self,List.mem_append,List.mem_singleton] at he
        rcases he with he | rfl
        · exact hold hle he
        · exact ⟨_,le_refl _,hr⟩
      · exact hold hle (by simpa [hj] using he)
    | start i p w _ hstart =>
      obtain ⟨_,_,hle⟩ := D.start i _ p w hstart hw
      by_cases hj : j = i
      · subst hj
        simp at he
      · exact hold hle (by simpa [hj] using he)
    | drift w hd => exact hold (D.drift _ w hd hw).2 he

/-- Every exchange in a history was relied on when it was made. -/
theorem Discipline.Holds.relied {D : Discipline V R} (hP : D.Holds P)
    (hh : ∀ i, ∀ e ∈ P.history i, ∃ v, v ≤ D.view P.world ∧ D.rely i v e.1 e.2)
    (h : Pool.Steps R P P') : ∀ i, ∀ e ∈ P'.history i, ∃ v, D.rely i v e.1 e.2 := by
  intro i e he
  obtain ⟨v,_,hr⟩ := hP.relied_before hh h i e he
  exact ⟨v,hr⟩

end Views

end Resume
