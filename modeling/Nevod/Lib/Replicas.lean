import Nevod.Lib.FirstWins

/-!
Replicas of a map that send each other all they hold and merge what they receive,
so that what is there already wins. Messages may be late, doubled or lost.
-/

set_option autoImplicit false

namespace FirstWins

variable {ι κ ν : Type}

/-- The replicas, and all messages sent so far. -/
structure Replicas (ι κ ν : Type) where
  replica : ι → κ → Option ν
  sent : List (κ → Option ν)

/-- A replica is sent in some copies, or receives one of the messages. -/
inductive ReplicaEvent (ι : Type) where
  | share (i : ι) (copies : Nat)
  | deliver (j : ι) (n : Nat)

namespace Replicas

variable [DecidableEq ι]

def step (s : Replicas ι κ ν) : ReplicaEvent ι → Replicas ι κ ν
  | .share i copies => { s with sent := s.sent ++ List.replicate copies (s.replica i) }
  | .deliver j n =>
    match s.sent[n]? with
    | none => s
    | some m => { s with replica := Function.update s.replica j (merge (s.replica j) m) }

def after (s : Replicas ι κ ν) (events : List (ReplicaEvent ι)) : Replicas ι κ ν :=
  events.foldl step s

/-- Among the events there is a chain of received messages from `i` to `k`: each
replica is sent after it has received the message of the one before. -/
inductive Chain : Replicas ι κ ν → List (ReplicaEvent ι) → ι → ι → Prop where
  | stay (s : Replicas ι κ ν) (events : List (ReplicaEvent ι)) (i : ι) : Chain s events i i
  | wait {s : Replicas ι κ ν} (e : ReplicaEvent ι) {events : List (ReplicaEvent ι)} {i k : ι} :
    Chain (s.step e) events i k → Chain s (e :: events) i k
  | hop {s : Replicas ι κ ν} {i j k : ι} (copies : Nat) (before : List (ReplicaEvent ι)) {n : Nat}
    {events : List (ReplicaEvent ι)} (hn : s.sent.length ≤ n)
    (hn' : n < (s.step (.share i copies)).sent.length) :
    Chain (s.after (.share i copies :: before ++ [.deliver j n])) events j k →
    Chain s (.share i copies :: before ++ .deliver j n :: events) i k

variable {s : Replicas ι κ ν}

theorem after_append (s : Replicas ι κ ν) (a b : List (ReplicaEvent ι)) :
    s.after (a ++ b) = (s.after a).after b := List.foldl_append

theorem step_deliver {n : Nat} {m : κ → Option ν} (h : s.sent[n]? = some m) (j : ι) :
    s.step (.deliver j n) =
      { s with replica := Function.update s.replica j (merge (s.replica j) m) } := by
  simp only [step,h]

/-- What a replica holds it keeps. -/
theorem step_kept (e : ReplicaEvent ι) {i : ι} {k : κ} {v : ν} (h : s.replica i k = some v) :
    (s.step e).replica i k = some v := by
  cases e with
  | share j copies => exact h
  | deliver j n =>
    cases hn : s.sent[n]? with
    | none => simp only [step,hn,h]
    | some m =>
      rw [step_deliver hn]
      by_cases hi : i = j
      · subst hi
        simp [merge,h]
      · simp [hi,h]

theorem after_kept (events : List (ReplicaEvent ι)) {i : ι} {k : κ} {v : ν}
    (h : s.replica i k = some v) : (s.after events).replica i k = some v := by
  induction events generalizing s with
  | nil => exact h
  | cons e events ih => exact ih (step_kept e h)

/-- Everything that is held or sent is true. -/
structure Sound (truth : κ → ν → Prop) (s : Replicas ι κ ν) : Prop where
  held : ∀ i k v, s.replica i k = some v → truth k v
  sent : ∀ m ∈ s.sent, ∀ k v, m k = some v → truth k v

theorem Sound.step {truth : κ → ν → Prop} (h : s.Sound truth) (e : ReplicaEvent ι) :
    (s.step e).Sound truth := by
  cases e with
  | share i copies =>
    refine ⟨h.held,fun m hm => ?_⟩
    rcases List.mem_append.mp hm with hm | hm
    · exact h.sent m hm
    · rw [List.eq_of_mem_replicate hm]
      exact h.held i
  | deliver j n =>
    cases hn : s.sent[n]? with
    | none =>
      have hs : s.step (.deliver j n) = s := by simp only [Replicas.step,hn]
      rwa [hs]
    | some m =>
      rw [step_deliver hn]
      refine ⟨fun i k v hv => ?_,h.sent⟩
      by_cases hi : i = j
      · subst hi
        simp only [Function.update_self,merge] at hv
        rcases Option.or_eq_some_iff.mp hv with hv | ⟨_,hv⟩
        · exact h.held i k v hv
        · exact h.sent m (List.mem_of_getElem? hn) k v hv
      · simp only [Function.update_of_ne hi] at hv
        exact h.held i k v hv

theorem Sound.after {truth : κ → ν → Prop} (h : s.Sound truth) (events : List (ReplicaEvent ι)) :
    (s.after events).Sound truth := by
  induction events generalizing s with
  | nil => exact h
  | cons e events ih => exact ih (h.step e)

/-- Messages stay available. -/
theorem sent_prefix (s : Replicas ι κ ν) (events : List (ReplicaEvent ι)) :
    s.sent <+: (s.after events).sent := by
  induction events generalizing s with
  | nil => exact List.prefix_rfl
  | cons e events ih =>
    refine List.IsPrefix.trans ?_ (ih (s.step e))
    cases e with
    | share i copies => exact List.prefix_append _ _
    | deliver j n =>
      simp only [step]
      split <;> exact List.prefix_rfl

/-- A received message passes on all that its sender held. -/
theorem hop {i j : ι} {copies n : Nat} (before : List (ReplicaEvent ι)) (hn : s.sent.length ≤ n)
    (hn' : n < (s.step (.share i copies)).sent.length) {k : κ} {v : ν}
    (h : s.replica i k = some v) :
    ∃ w, (s.after (.share i copies :: before ++ [.deliver j n])).replica j k = some w := by
  have hm : (s.step (.share i copies)).sent[n]? = some (s.replica i) := by
    simp only [step,List.length_append,List.length_replicate] at hn'
    simp only [step,List.getElem?_append_right hn,List.getElem?_replicate]
    rw [if_pos (by omega)]
  -- the message stays among those that were sent until it is received
  obtain ⟨more,hmore⟩ := sent_prefix (s.step (.share i copies)) before
  have hsent : ((s.step (.share i copies)).after before).sent[n]? = some (s.replica i) := by
    rw [← hmore,List.getElem?_append_left hn',hm]
  rw [after_append]
  change ∃ w, (((s.step (.share i copies)).after before).step (.deliver j n)).replica j k = some w
  rw [step_deliver hsent]
  simp only [Function.update_self,merge,h]
  cases ((s.step (.share i copies)).after before).replica j k with
  | none => exact ⟨v,rfl⟩
  | some w => exact ⟨w,rfl⟩

theorem Chain.passes {events : List (ReplicaEvent ι)} {i j : ι} (hc : Chain s events i j) {k : κ}
    {v : ν} (h : s.replica i k = some v) : ∃ w, (s.after events).replica j k = some w := by
  induction hc generalizing v with
  | stay s events i => exact ⟨v,after_kept events h⟩
  | wait e _ ih => exact ih (step_kept e h)
  | @hop s i j k' copies before n events hn hn' _ ih =>
    obtain ⟨w,hw⟩ := Replicas.hop (j := j) before hn hn' h
    obtain ⟨u,hu⟩ := ih hw
    rw [← after_append] at hu
    exact ⟨u,by simpa using hu⟩

/-- Replicas that agree at first hold the same in the end, which is all that any of
them held, however the messages went. -/
theorem converged (hsent : s.sent = [])
    (hagree : ∀ i j k v w, s.replica i k = some v → s.replica j k = some w → v = w)
    {events : List (ReplicaEvent ι)} (hc : ∀ i j, Chain s events i j) (i : ι) (k : κ) (v : ν) :
    (s.after events).replica i k = some v ↔ ∃ j, s.replica j k = some v := by
  have h0 : s.Sound (fun k v => ∃ j, s.replica j k = some v) :=
    ⟨fun i _ _ h => ⟨i,h⟩,by simp [hsent]⟩
  refine ⟨(h0.after events).held i k v,?_⟩
  rintro ⟨j,hj⟩
  obtain ⟨w,hw⟩ := (hc j i).passes hj
  obtain ⟨j',hj'⟩ := (h0.after events).held i k w hw
  rw [hw,hagree j' j k w v hj' hj]

end Replicas

end FirstWins
