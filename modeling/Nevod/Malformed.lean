import Nevod.Handlers
import Nevod.Merge

/-!
GOSSIP packets whose entries are any values: which of them are entered, and when
the bad ones leave the others alone.
-/

set_option autoImplicit false

namespace Nevod
open Text Resume Keyed

variable {L : Lib}

section Run

variable (env : Env)

variable {n nodeId address : Val} {w : World}

theorem mergeNode_not_named (h : ¬ ∃ nodeId address, Names n nodeId address) :
    ∃ e, (run env.handler (GossipEngine.mergeNode L n) w).result = .error e := by
  unfold GossipEngine.mergeNode
  cases hid : n.get "node_id" (.str "") with
  | error e => exact ⟨e,rfl⟩
  | ok nodeId =>
    cases haddr : n.get "address" (.str "") with
    | error e => exact ⟨e,rfl⟩
    | ok address => exact (h ⟨nodeId,address,hid,haddr⟩).elim

theorem mergeNode_empty (hn : Names n nodeId address)
    (h : nodeId.truthy = false ∨ address.truthy = false) :
    run env.handler (GossipEngine.mergeNode L n) w = ⟨.ok (),[],w⟩ := by
  unfold GossipEngine.mergeNode
  rcases h with h | h <;> simp [hn.nodeId,hn.address,h]

theorem mergeNode_unbound (hn : Names n nodeId address) (h1 : nodeId.truthy = true)
    (h2 : address.truthy = true) {e : Err} (hk : SqlText.ofVal L.realText nodeId = .error e) :
    (run env.handler (GossipEngine.mergeNode L n) w).result = .error e := by
  unfold GossipEngine.mergeNode Storage.getNode
  simp [hn.nodeId,hn.address,h1,h2,hk]

end Run

namespace Malformed

/-- The element is a map with a text for its id and one for its address, both not empty. -/
structure Valid (n : Val) (id addr : String) : Prop where
  names : Names n (.str id) (.str addr)
  named : id ≠ ""
  addressed : addr ≠ ""

/-- The round of an element completes; it enters a valid element with an id that is
not known, and any other element changes nothing. -/
structure RoundOk (L : Lib) (env : Env) (n : Val) (w : World) : Prop where
  completes : (run env.handler (GossipEngine.mergeNode L n) w).result = .ok ()
  enters : ∀ id addr, Valid n id addr → w.nodeRow (.text id) = none →
    ∃ row, row.nodeId = .text id ∧ row.address = .text addr ∧ Offers L n row ∧
      (run env.handler (GossipEngine.mergeNode L n) w).final.state = w.state.enter row
  skips : (∀ id addr, Valid n id addr → w.nodeRow (.text id) ≠ none) →
    (run env.handler (GossipEngine.mergeNode L n) w).final.state = w.state

/-- The element does no harm where the ids in `known` are known: it is a map, and its
id or address is empty, or its id is known, or it has a text for both and a type and
an access that can be stored. -/
def Harmless (L : Lib) (known : SqlText → Prop) (n : Val) : Prop :=
  ∃ nodeId address, Names n nodeId address ∧
    (nodeId.truthy = false ∨ address.truthy = false ∨
      (∃ k, SqlText.ofVal L.realText nodeId = .ok (some k) ∧ known k) ∨
      ∃ id addr type access t a, nodeId = .str id ∧ address = .str addr ∧
        n.get "type" (.str "permanent") = .ok type ∧
        n.get "access" (.str "closed") = .ok access ∧
        SqlText.ofVal L.realText type = .ok (some t) ∧
        SqlText.ofVal L.realText access = .ok (some a))

section Round

variable {env : Env} {n : Val} {w : World}

theorem Names.unique {nodeId address nodeId' address' : Val} (h : Names n nodeId address)
    (h' : Names n nodeId' address') : nodeId = nodeId' ∧ address = address' := by
  have h1 := h.nodeId
  have h2 := h.address
  rw [h'.nodeId] at h1
  rw [h'.address] at h2
  exact ⟨(Except.ok.inj h1).symm,(Except.ok.inj h2).symm⟩

theorem truthy_str {s : String} : (Val.str s).truthy = true ↔ s ≠ "" := by
  simp [Val.truthy]

theorem Valid.truthy {id addr : String} (h : Valid n id addr) {nodeId address : Val}
    (hn : Names n nodeId address) : nodeId.truthy = true ∧ address.truthy = true := by
  obtain ⟨rfl,rfl⟩ := Names.unique hn h.names
  exact ⟨truthy_str.mpr h.named,truthy_str.mpr h.addressed⟩

/-- An element that changes nothing and is not valid with an id that is not known. -/
theorem RoundOk.of_skip
    (hres : (run env.handler (GossipEngine.mergeNode L n) w).result = .ok ())
    (hfin : (run env.handler (GossipEngine.mergeNode L n) w).final.state = w.state)
    (hno : ∀ id addr, Valid n id addr → w.nodeRow (.text id) ≠ none) : RoundOk L env n w :=
  ⟨hres,fun id addr hv hnew => (hno id addr hv hnew).elim,fun _ => hfin⟩

theorem bindNode_storable (id addr : String) {type access : Val} {t a : SqlText}
    (ht : SqlText.ofVal L.realText type = .ok (some t))
    (ha : SqlText.ofVal L.realText access = .ok (some a)) (lastSeen addedAt added : Int) :
    ∃ row, Storage.bindNode L (learntEntry (.str id) (.str addr) type access lastSeen addedAt) added =
      .ok (some row) := by
  refine ⟨⟨.text id,.text addr,t,a,[],"",lastSeen,0,"online",added⟩,?_⟩
  have hs : ∀ s, SqlText.ofVal L.realText (.str s) = .ok (some (.text s)) := fun _ => rfl
  simp [Storage.bindNode,ht,ha,hs,bind,Except.bind,pure,Except.pure]

theorem harmless_round (h : Harmless L (fun k => w.nodeRow k ≠ none) n) : RoundOk L env n w := by
  obtain ⟨nodeId,address,hn,h⟩ := h
  by_cases hempty : nodeId.truthy = false ∨ address.truthy = false
  · have hrun := mergeNode_empty (L := L) env (w := w) hn hempty
    refine .of_skip (by rw [hrun]) (by rw [hrun]) (fun id addr hv => ?_)
    have ht := hv.truthy hn
    rcases hempty with he | he
    · simp [ht.1] at he
    · simp [ht.2] at he
  · simp only [not_or,Bool.not_eq_false] at hempty
    obtain ⟨h1,h2⟩ := hempty
    rcases h with he | he | ⟨k,hk,hknown⟩ | ⟨id,addr,type,access,t,a,rfl,rfl,ht,ha,hst,hsa⟩
    · simp [h1] at he
    · simp [h2] at he
    · obtain ⟨row,hrow⟩ := Option.ne_none_iff_exists'.mp hknown
      have hrun := mergeNode_known env hn h1 h2 hk hrow
      refine .of_skip hrun.1 hrun.2 (fun id addr hv => ?_)
      obtain ⟨rfl,rfl⟩ := Names.unique hn hv.names
      cases hk
      exact hknown
    · cases hrow : w.nodeRow (.text id) with
      | some row =>
        have hrun := mergeNode_known (L := L) env hn h1 h2 rfl hrow
        refine .of_skip hrun.1 hrun.2 (fun id' addr' hv => ?_)
        obtain ⟨he,_⟩ := Names.unique hn hv.names
        cases he
        rw [hrow]
        simp
      | none =>
        obtain ⟨type',access',lastSeen,addedAt,added,ht',ha',hres,hfin⟩ :=
          mergeNode_new (L := L) env hn h1 h2 (k := some (.text id)) rfl
            (fun k' he => by cases he; exact hrow)
        rw [ht] at ht'
        rw [ha] at ha'
        cases ht'
        cases ha'
        obtain ⟨row,hb⟩ := bindNode_storable id addr hst hsa lastSeen addedAt added
        have hbinds := bindNode_ok hb
        have hid : row.nodeId = .text id := by simpa [SqlText.ofVal] using hbinds.nodeId.symm
        have haddr : row.address = .text addr := by simpa [SqlText.ofVal] using hbinds.address.symm
        rw [hb] at hres
        rw [put_enter hb (by rw [hid]; exact hrow)] at hfin
        refine ⟨hres,fun id' addr' hv _ => ?_,fun hno => ?_⟩
        · obtain ⟨he,he'⟩ := Names.unique hn hv.names
          cases he
          cases he'
          exact ⟨row,hid,haddr,⟨_,_,type,access,lastSeen,addedAt,hn.nodeId,hn.address,h1,h2,ht,ha,
            hbinds⟩,hfin⟩
        · exact (hno id addr ⟨hn,truthy_str.mp h1,truthy_str.mp h2⟩ hrow).elim

/-- The new row of an element that is not skipped. -/
theorem RoundOk.new (h : RoundOk L env n w) {nodeId address : Val} (hn : Names n nodeId address)
    (h1 : nodeId.truthy = true) (h2 : address.truthy = true) {k : Option SqlText}
    (hk : SqlText.ofVal L.realText nodeId = .ok k)
    (hnew : ∀ k', k = some k' → w.nodeRow k' = none) :
    ∃ id addr type access t a, nodeId = .str id ∧ address = .str addr ∧
      n.get "type" (.str "permanent") = .ok type ∧ n.get "access" (.str "closed") = .ok access ∧
      SqlText.ofVal L.realText type = .ok (some t) ∧
      SqlText.ofVal L.realText access = .ok (some a) := by
  obtain ⟨type,access,lastSeen,addedAt,added,ht,ha,hres,hfin⟩ :=
    mergeNode_new env hn h1 h2 hk hnew
  rw [h.completes] at hres
  obtain ⟨row,hb,hslice⟩ := exists_of_bind hres.symm
  cases row with
  | none =>
    -- an id that is bound as NULL is a float, which cannot be sliced
    have hnull : SqlText.ofVal L.realText nodeId = .ok none := bindNode_none hb
    cases nodeId with
    | none => simp [Val.truthy] at h1
    | float bits => simp [Val.slice] at hslice
    | int i =>
      simp only [SqlText.ofVal] at hnull
      split at hnull <;> simp at hnull
    | _ => simp [SqlText.ofVal] at hnull
  | some row =>
    have hbinds := bindNode_ok hb
    have hkey : k = some row.nodeId := Except.ok.inj (hk.symm.trans hbinds.nodeId)
    have hrow := hnew row.nodeId hkey
    rw [put_enter hb hrow] at hfin
    by_cases hv : ∃ id addr, Valid n id addr
    · obtain ⟨id,addr,hv⟩ := hv
      obtain ⟨rfl,rfl⟩ := Names.unique hn hv.names
      exact ⟨id,addr,type,access,row.type,row.access,rfl,rfl,ht,ha,hbinds.type,hbinds.access⟩
    · have hsame := h.skips (fun id addr hvalid => (hv ⟨id,addr,hvalid⟩).elim)
      rw [hfin] at hsame
      have hfind := congrArg (fun s : NodeState => s.storage.nodeTable.find row.nodeId) hsame
      simp only [NodeState.enter,Table.find_insertIgnore] at hfind
      rw [show w.state.storage.nodeTable.find row.nodeId = none from hrow] at hfind
      simp at hfind

theorem round_harmless (h : RoundOk L env n w) : Harmless L (fun k => w.nodeRow k ≠ none) n := by
  by_cases hnamed : ∃ nodeId address, Names n nodeId address
  · obtain ⟨nodeId,address,hn⟩ := hnamed
    refine ⟨nodeId,address,hn,?_⟩
    cases h1 : nodeId.truthy with
    | false => exact .inl rfl
    | true =>
      cases h2 : address.truthy with
      | false => exact .inr (.inl rfl)
      | true =>
        cases hk : SqlText.ofVal L.realText nodeId with
        | error e =>
          have hres := mergeNode_unbound env (w := w) hn h1 h2 hk
          rw [h.completes] at hres
          contradiction
        | ok k =>
          by_cases hknown : ∃ k', k = some k' ∧ w.nodeRow k' ≠ none
          · obtain ⟨k',rfl,hrow⟩ := hknown
            exact .inr (.inr (.inl ⟨k',rfl,hrow⟩))
          · refine .inr (.inr (.inr (h.new hn h1 h2 hk (fun k' he => ?_))))
            by_contra hrow
            exact hknown ⟨k',he,hrow⟩
  · obtain ⟨e,hres⟩ := mergeNode_not_named (L := L) env (w := w) hnamed
    rw [h.completes] at hres
    contradiction

theorem round_iff : RoundOk L env n w ↔ Harmless L (fun k => w.nodeRow k ≠ none) n :=
  ⟨round_harmless,harmless_round⟩

end Round

/-- What the loop over `pre` leaves behind. -/
def after (L : Lib) (env : Env) (pre : List Val) (w : World) : World :=
  (run env.handler (Prog.forEach pre (GossipEngine.mergeNode L)) w).final

/-- Every element of the list has its own effect only. -/
def Rounds (L : Lib) (env : Env) (items : List Val) (w : World) : Prop :=
  ∀ pre n post, items = pre ++ n :: post → RoundOk L env n (after L env pre w)

/-- The ids that are known after the elements `pre`. -/
def knownAfter (known : SqlText → Prop) (pre : List Val) (k : SqlText) : Prop :=
  known k ∨ ∃ n ∈ pre, ∃ id addr, Valid n id addr ∧ k = .text id

def AllHarmless (L : Lib) (known : SqlText → Prop) (items : List Val) : Prop :=
  ∀ pre n post, items = pre ++ n :: post → Harmless L (knownAfter known pre) n

section Rounds

variable {env : Env} {n : Val} {items : List Val} {w : World}

/-- The state after one element. -/
abbrev next (L : Lib) (env : Env) (n : Val) (w : World) : World :=
  (run env.handler (GossipEngine.mergeNode L n) w).final

theorem after_cons (h : RoundOk L env n w) (pre : List Val) :
    after L env (n :: pre) w = after L env pre (next L env n w) := by
  rw [after,Prog.forEach_cons,run_bind_ok h.completes]
  rfl

theorem rounds_cons : Rounds L env (n :: items) w ↔
    RoundOk L env n w ∧ Rounds L env items (next L env n w) := by
  constructor
  · intro h
    have hn : RoundOk L env n w := h [] n items rfl
    refine ⟨hn,fun pre m post hitems => ?_⟩
    rw [← after_cons hn]
    exact h (n :: pre) m post (by rw [hitems,List.cons_append])
  · rintro ⟨hn,hitems⟩ pre m post he
    cases pre with
    | nil =>
      cases he
      exact hn
    | cons x pre =>
      cases he
      rw [after_cons hn]
      exact hitems pre m post rfl

theorem knownAfter_cons (known : SqlText → Prop) (pre : List Val) :
    knownAfter known (n :: pre) = knownAfter (knownAfter known [n]) pre := by
  funext k
  simp only [knownAfter,List.mem_cons,List.not_mem_nil,or_false,exists_eq_left,exists_eq_or_imp,
    or_assoc]

theorem allHarmless_cons {known : SqlText → Prop} : AllHarmless L known (n :: items) ↔
    Harmless L known n ∧ AllHarmless L (knownAfter known [n]) items := by
  have hnil : knownAfter known [] = known := by
    funext k
    simp [knownAfter]
  constructor
  · intro h
    refine ⟨by simpa [hnil] using h [] n items rfl,fun pre m post hitems => ?_⟩
    rw [← knownAfter_cons]
    exact h (n :: pre) m post (by rw [hitems,List.cons_append])
  · rintro ⟨hn,hitems⟩ pre m post he
    cases pre with
    | nil =>
      cases he
      rw [hnil]
      exact hn
    | cons x pre =>
      cases he
      rw [knownAfter_cons]
      exact hitems pre m post rfl

/-- The row of an id after a round. -/
theorem RoundOk.row (h : RoundOk L env n w) (k : SqlText) :
    (∃ id addr, k = .text id ∧ Valid n id addr ∧ w.nodeRow k = none ∧
      ∃ row, (next L env n w).nodeRow k = some row ∧ row.address = .text addr ∧ Offers L n row) ∨
    ((next L env n w).nodeRow k = w.nodeRow k ∧
      ∀ id addr, Valid n id addr → k = .text id → w.nodeRow k ≠ none) := by
  by_cases hnew : ∃ id addr, Valid n id addr ∧ w.nodeRow (.text id) = none
  · obtain ⟨id,addr,hv,hrow⟩ := hnew
    obtain ⟨row,hid,haddr,hoffers,hfin⟩ := h.enters id addr hv hrow
    have hfind : ∀ j, (next L env n w).nodeRow j =
        (w.nodeRow j).or (if row.nodeId = j then some row else none) := by
      intro j
      simp only [World.nodeRow,hfin,NodeState.enter,Table.find_insertIgnore]
      cases w.state.storage.nodeTable.find j <;> rfl
    by_cases hk : k = .text id
    · subst hk
      refine .inl ⟨id,addr,rfl,hv,hrow,row,?_,haddr,hoffers⟩
      rw [hfind,hrow]
      simp [hid]
    · refine .inr ⟨?_,fun id' addr' hv' he => ?_⟩
      · rw [hfind,hid]
        cases w.nodeRow k with
        | some s => rfl
        | none => simp [Ne.symm hk]
      · obtain ⟨hs,_⟩ := Names.unique hv.names hv'.names
        cases hs
        exact (hk he).elim
  · have hno : ∀ id addr, Valid n id addr → w.nodeRow (.text id) ≠ none :=
      fun id addr hv hrow => hnew ⟨id,addr,hv,hrow⟩
    refine .inr ⟨?_,fun id addr hv he => by rw [he]; exact hno id addr hv⟩
    rw [World.nodeRow,h.skips hno]

/-- The ids that are known after a round. -/
theorem RoundOk.known (h : RoundOk L env n w) :
    (fun k => (next L env n w).nodeRow k ≠ none) = knownAfter (fun k => w.nodeRow k ≠ none) [n] := by
  funext k
  refine propext ⟨fun hk => ?_,fun hk => ?_⟩
  · rcases h.row k with ⟨id,addr,rfl,hv,_⟩ | ⟨hsame,_⟩
    · exact .inr ⟨n,by simp,id,addr,hv,rfl⟩
    · exact .inl (by rwa [hsame] at hk)
  · rcases h.row k with ⟨_,_,_,_,_,row,hrow,_⟩ | ⟨hsame,hknown⟩
    · rw [hrow]
      simp
    · rw [hsame]
      rcases hk with hk | ⟨m,hm,id,addr,hv,he⟩
      · exact hk
      · obtain rfl : m = n := by simpa using hm
        exact hknown id addr hv he

theorem rounds_iff : Rounds L env items w ↔ AllHarmless L (fun k => w.nodeRow k ≠ none) items := by
  induction items generalizing w with
  | nil => exact iff_of_true (fun pre n post h => by simp at h) (fun pre n post h => by simp at h)
  | cons n items ih =>
    rw [rounds_cons,allHarmless_cons,round_iff]
    constructor
    · rintro ⟨hn,hitems⟩
      refine ⟨hn,?_⟩
      rw [← (round_iff.mpr hn).known]
      exact ih.mp hitems
    · rintro ⟨hn,hitems⟩
      refine ⟨hn,ih.mpr ?_⟩
      rw [(round_iff.mpr hn).known]
      exact hitems

/-- The loop completes, and known rows stay as they are. -/
theorem Rounds.final (h : Rounds L env items w) :
    (run env.handler (Prog.forEach items (GossipEngine.mergeNode L)) w).result = .ok () ∧
      ∀ k row, w.nodeRow k = some row → (after L env items w).nodeRow k = some row := by
  induction items generalizing w with
  | nil => exact ⟨rfl,fun _ _ => id⟩
  | cons n items ih =>
    obtain ⟨hn,hitems⟩ := rounds_cons.mp h
    obtain ⟨hres,hkept⟩ := ih hitems
    rw [after_cons hn,Prog.forEach_cons,run_bind_ok hn.completes]
    refine ⟨hres,fun k row hrow => hkept k row ?_⟩
    rcases hn.row k with ⟨_,_,_,_,hnone,_⟩ | ⟨hsame,_⟩
    · rw [hrow] at hnone
      contradiction
    · rw [hsame,hrow]

/-- Of several valid elements with one id the first is entered. -/
theorem Rounds.first (h : Rounds L env items w) {pre post : List Val} {id addr : String}
    (hitems : items = pre ++ n :: post) (hv : Valid n id addr) (hnew : w.nodeRow (.text id) = none)
    (hpre : ∀ m ∈ pre, ∀ addr', ¬ Valid m id addr') :
    ∃ row, (after L env items w).nodeRow (.text id) = some row ∧ row.address = .text addr ∧
      Offers L n row := by
  induction pre generalizing items w with
  | nil =>
    subst hitems
    obtain ⟨hn,hpost⟩ := rounds_cons.mp h
    obtain ⟨row,hid,haddr,hoffers,hfin⟩ := hn.enters id addr hv hnew
    rw [List.nil_append,after_cons hn]
    refine ⟨row,hpost.final.2 _ row ?_,haddr,hoffers⟩
    rcases hn.row (.text id) with ⟨_,_,_,_,_,row',hrow',_⟩ | ⟨_,hknown⟩
    · rw [World.nodeRow,hfin] at hrow' ⊢
      simp only [NodeState.enter,Table.find_insertIgnore]
      rw [show w.state.storage.nodeTable.find (.text id) = none from hnew]
      simp [hid]
    · exact (hknown id addr hv rfl hnew).elim
  | cons m pre ih =>
    subst hitems
    obtain ⟨hm,hrest⟩ := rounds_cons.mp h
    rw [List.cons_append,after_cons hm]
    refine ih hrest rfl ?_ (fun x hx => hpre x (by simp [hx]))
    rcases hm.row (.text id) with ⟨id',addr',he,hv',_⟩ | ⟨hsame,_⟩
    · cases he
      exact (hpre m (by simp) addr' hv').elim
    · rw [hsame,hnew]

theorem Rounds.others (h : Rounds L env items w) {k : SqlText} (hk : w.nodeRow k = none)
    (hno : ∀ n ∈ items, ∀ id addr, Valid n id addr → k ≠ .text id) :
    (after L env items w).nodeRow k = none := by
  induction items generalizing w with
  | nil => exact hk
  | cons n items ih =>
    obtain ⟨hn,hitems⟩ := rounds_cons.mp h
    rw [after_cons hn]
    refine ih hitems ?_ (fun m hm => hno m (by simp [hm]))
    rcases hn.row k with ⟨id,addr,he,hv,_⟩ | ⟨hsame,_⟩
    · exact (hno n (by simp) id addr hv he).elim
    · rw [hsame,hk]

end Rounds

/-- What the handler of a GOSSIP packet with these elements does: it completes, every
element has its own effect only, and in the end the table has its old rows and one
row for each new id, made of the first valid element that has it. -/
structure Merged (L : Lib) (env : Env) (pkt : Packet) (items : List Val) (w : World) : Prop where
  completes : (run env.handler (GossipEngine.handleGossip L pkt) w).result = .ok ()
  rounds : Rounds L env items w
  kept : ∀ k row, w.nodeRow k = some row →
    (run env.handler (GossipEngine.handleGossip L pkt) w).final.nodeRow k = some row
  first : ∀ pre n post id addr, items = pre ++ n :: post → Valid n id addr →
    w.nodeRow (.text id) = none → (∀ m ∈ pre, ∀ addr', ¬ Valid m id addr') →
    ∃ row, (run env.handler (GossipEngine.handleGossip L pkt) w).final.nodeRow (.text id) =
        some row ∧ row.address = .text addr ∧ Offers L n row
  others : ∀ k, w.nodeRow k = none → (∀ n ∈ items, ∀ id addr, Valid n id addr → k ≠ .text id) →
    (run env.handler (GossipEngine.handleGossip L pkt) w).final.nodeRow k = none

/-- The bad elements of a packet leave the others alone just when every element is a
map and none of them has an id, an address, a type or an access the table cannot take
for what it is. -/
theorem gossip_merged_iff (env : Env) (w : World) {pkt : Packet} {nodes : Val}
    (hnodes : GossipEngine.remoteNodes L pkt = .ok nodes) :
    (∃ items, nodes.iter = .ok items ∧ Merged L env pkt items w) ↔
      ∃ items, nodes.iter = .ok items ∧ AllHarmless L (fun k => w.nodeRow k ≠ none) items := by
  constructor
  · rintro ⟨items,hitems,h⟩
    exact ⟨items,hitems,rounds_iff.mp h.rounds⟩
  · rintro ⟨items,hitems,h⟩
    have hrounds : Rounds L env items w := rounds_iff.mpr h
    have hrun : GossipEngine.handleGossip L pkt = Prog.forEach items (GossipEngine.mergeNode L) := by
      simp [GossipEngine.handleGossip,hnodes,hitems]
    refine ⟨items,hitems,?_,hrounds,?_,?_,?_⟩ <;> rw [hrun]
    · exact hrounds.final.1
    · exact hrounds.final.2
    · exact fun pre n post id addr he hv hnew hpre => hrounds.first he hv hnew hpre
    · exact fun k hk hno => hrounds.others hk hno

/-- A GOSSIP packet with this list of nodes. -/
theorem exists_gossip (nodes : Val) (h : nodes.packable 510 = true) :
    ∃ pkt, pkt.type = .str T.gossip ∧ GossipEngine.remoteNodes shortSigLib pkt = .ok nodes := by
  obtain ⟨payload,hp⟩ := (sampleLib_packLaws digest32).packb_ok (.map [(.str "nodes",nodes)])
    (by simp [packDepth,Val.packable,MapKey.toVal,h]; decide +kernel)
  have hd : decodePayload shortSigLib (.bin payload) = .ok _ :=
    (sampleLib_packLaws digest32).unpackb_packb _ _ hp
  refine ⟨{ type := .str T.gossip, payload := .bin payload, id := .str "", ts := .int 0 },rfl,?_⟩
  simp [GossipEngine.remoteNodes,hd,bind,Except.bind,Val.get,Val.lookup]

/-- A valid element. -/
def sampleElement : Val := .map [(.str "node_id",.str "x"),(.str "address",.str "a:1")]

theorem sampleElement_valid : Valid sampleElement "x" "a:1" where
  names := ⟨rfl,rfl⟩
  named := by decide
  addressed := by decide

/-- An element without an id before a valid one. -/
theorem gossip_merged_sample : ∃ pkt,
    GossipEngine.remoteNodes shortSigLib pkt = .ok (.arr [.map [],sampleElement]) ∧
    ∃ items, (Val.arr [.map [],sampleElement]).iter = .ok items ∧
      Merged shortSigLib calmEnv pkt items nobodyKnown := by
  obtain ⟨pkt,_,hnodes⟩ := exists_gossip (.arr [.map [],sampleElement]) (by decide +kernel)
  refine ⟨pkt,hnodes,(gossip_merged_iff calmEnv nobodyKnown hnodes).mpr ⟨_,rfl,?_⟩⟩
  rw [allHarmless_cons,allHarmless_cons]
  refine ⟨⟨_,_,⟨rfl,rfl⟩,.inl rfl⟩,?_,fun pre n post h => by simp at h⟩
  exact ⟨_,_,sampleElement_valid.names,.inr (.inr (.inr ⟨"x","a:1",_,_,_,_,rfl,rfl,rfl,rfl,rfl,rfl⟩))⟩

/-- A number in the list before a valid element: its round raises. -/
theorem number_stops_gossip : ∃ pkt,
    GossipEngine.remoteNodes shortSigLib pkt = .ok (.arr [.int 5,sampleElement]) ∧
    ¬ ∃ items, (Val.arr [.int 5,sampleElement]).iter = .ok items ∧
      Merged shortSigLib calmEnv pkt items nobodyKnown := by
  obtain ⟨pkt,_,hnodes⟩ := exists_gossip (.arr [.int 5,sampleElement]) (by decide +kernel)
  refine ⟨pkt,hnodes,?_⟩
  rintro ⟨items,hitems,h⟩
  have hround := h.rounds [] (.int 5) [sampleElement] (by cases hitems; rfl)
  have hres := hround.completes
  obtain ⟨e,he⟩ := mergeNode_not_named (L := shortSigLib) calmEnv (n := .int 5)
    (w := after shortSigLib calmEnv [] nobodyKnown) (fun ⟨_,_,hn⟩ => by cases hn.nodeId)
  rw [he] at hres
  contradiction

end Malformed

end Nevod
