import Nevod.Persistence
import Nevod.Merge
import Nevod.Homebound

/-!
A node over several lives: it is founded once, and each later life starts from the
identity file and from the database that the life before has left.
-/

set_option autoImplicit false

namespace Nevod
open Text Resume Keyed

variable {L : Lib}

namespace Restarts

/-- The row of a node and what its file has agree. -/
structure Lists (row : NodeRow) (node : LoadedNode) : Prop where
  nodeId : row.nodeId = .text node.nodeId
  address : ∃ a, row.address = .text a ∧ node.address = .ofString a
  type : ∃ t, row.type = .text t ∧ node.nodeType = .ofString t
  access : ∃ a, row.access = .text a ∧ node.access = .ofString a

/-- The row a founder enters for itself. -/
def ownRow (nodeId address access : String) (lastSeen added : Int) : NodeRow :=
  ⟨.text nodeId,.text address,.text "permanent",.text access,[],"",lastSeen,0,"online",added⟩

theorem run_createGenesis (env : Env) (w : World) (self : Node L) (address access : String) :
    (run env.handler (Node.createGenesis self address access) w).result = .ok () ∧
    ∃ added, (run env.handler (Node.createGenesis self address access) w).final.state.storage =
      w.state.storage.upsertNode (ownRow self.id address access (env.now w.step) added) := by
  let entry : NodeEntry :=
    { nodeId := .str self.id, address := .str address, type := .str "permanent",
      access := .str access, lastSeen := env.now w.step, addedAt := env.now (w.step+1) }
  -- the two readings of the clock come first
  obtain ⟨step,added,hres,hfin⟩ := run_putNode (L := L) env entry ⟨w.state,w.step+2⟩
  exact ⟨hres,added,congrArg (fun w' : World => w'.state.storage) hfin⟩

/-- An entry that is made again keeps the type and the access of the row. -/
theorem find_upsertNode (s : Storage) (row : NodeRow) (k : SqlText) :
    (s.upsertNode row).nodeTable.find k =
      if k = row.nodeId then
        some (((s.nodeTable.find k).map (fun old =>
          { old with address := row.address, lastSeen := row.lastSeen,
                     missedPings := row.missedPings, status := row.status,
                     cert := row.cert })).getD row)
      else s.nodeTable.find k :=
  Table.find_upsert _ _ _ _ k

/-- A founder that is started again from its file is the node that its table has, with the
same keys; the other rows are as they were. -/
theorem genesis_restarts (env : Env) (w : World) (signing encryption : Seed)
    (address access : String) (onMessage : Bool) :
    let founder := NodeIdentity.generate L signing encryption address "permanent" access
    let r := run env.handler (Node.createGenesis ⟨founder.identity,onMessage⟩ address access) w
    r.result = .ok () ∧
    ∃ node row, NodeIdentity.load founder.save = .ok node ∧
      node.signing = ⟨signing,L.edPublic signing⟩ ∧
      node.encryption = ⟨encryption,L.xPublic encryption⟩ ∧
      r.final.state.storage.nodeTable.find (.text node.nodeId) = some row ∧
      row.address = .text address ∧ row.status = "online" ∧ row.missedPings = 0 ∧
      (w.state.storage.nodeTable.find (.text node.nodeId) = none → Lists row node) ∧
      ∀ k, k ≠ .text node.nodeId →
        r.final.state.storage.nodeTable.find k = w.state.storage.nodeTable.find k := by
  intro founder r
  obtain ⟨hres,added,hput⟩ := run_createGenesis env w ⟨founder.identity,onMessage⟩ address access
  let row := ownRow founder.loaded.nodeId address access (env.now w.step) added
  have hself := find_upsertNode w.state.storage row row.nodeId
  rw [if_pos rfl] at hself
  refine ⟨hres,founder.loaded,_,founder.load_save,rfl,rfl,hput ▸ hself,?_,?_,?_,?_,?_⟩
  · cases w.state.storage.nodeTable.find row.nodeId <;> rfl
  · cases w.state.storage.nodeTable.find row.nodeId <;> rfl
  · cases w.state.storage.nodeTable.find row.nodeId <;> rfl
  · intro hnew
    rw [show w.state.storage.nodeTable.find row.nodeId = none from hnew]
    exact ⟨rfl,⟨address,rfl,rfl⟩,⟨"permanent",rfl,rfl⟩,⟨access,rfl,rfl⟩⟩
  · intro k hk
    have hother := find_upsertNode w.state.storage row k
    rw [if_neg (show k ≠ row.nodeId from hk)] at hother
    exact hput ▸ hother

section

open Homebound

variable {ι : Type} [DecidableEq ι]

/-- `create` makes the node out of the file. -/
def Creates (file : List Char) (self : Node L) : Prop :=
  ∃ node, NodeIdentity.load file = .ok node ∧ node.signing = self.identity.signing.loaded ∧
    node.encryption = self.identity.encryption.loaded

/-- What a database may be after any number of lives, none of which begins with a
connection. -/
inductive Lives (ι : Type) [DecidableEq ι] (L : Lib) (file : List Char) (s : Storage) :
    Storage → Prop where
  | unchanged : Lives ι L file s s
  | lived {s' : Storage} {self : Node L} {P : Pool ι Req Ans Err Unit NodeState}
      (h : Lives ι L file s s') (hself : Creates file self)
      (hP : Pool.Steps (Running.rules self) (Running.initial ⟨s',ConnectionRegistry.empty⟩) P) :
      Lives ι L file s P.world.storage

theorem Creates.id_eq {file : List Char} {self self' : Node L} (h : Creates file self)
    (h' : Creates file self') : self.id = self'.id := by
  obtain ⟨node,hload,hs,_⟩ := h
  obtain ⟨node',hload',hs',_⟩ := h'
  have hnode : node = node' := Except.ok.inj (hload.symm.trans hload')
  have hkeys : self.identity.signing.loaded = self'.identity.signing.loaded := by
    rw [← hs,← hs',hnode]
  exact congrArg (fun kp : LoadedKeypair => hex kp.pub) hkeys

/-- The next life finds what this one has left. -/
theorem settled_reborn {self self' : Node L} (hid : self.id = self'.id) {w : NodeState}
    (hw : Homebound.Settled self w) :
    Homebound.Settled self' ⟨w.storage,ConnectionRegistry.empty⟩ :=
  ⟨fun c row hrow => hid ▸ hw.home c row hrow,hw.stored,hw.calm,by simp⟩

theorem Lives.settled {file : List Char} {s s' : Storage} (h : Lives ι L file s s')
    (hp : s.presenceTable = Table.empty) (hb : s.messageBuffer = Table.empty) {self : Node L}
    (hself : Creates file self) : Homebound.Settled self ⟨s',ConnectionRegistry.empty⟩ := by
  induction h generalizing self with
  | unchanged => exact settled_fresh self hp hb
  | lived h hself' hP ih =>
    have hrun := ((holds_initial (ih hself')).steps hP).1
    exact settled_reborn (hself'.id_eq hself) hrun

theorem Lives.trans {file : List Char} {s1 s2 s3 : Storage} (h : Lives ι L file s1 s2)
    (h' : Lives ι L file s2 s3) : Lives ι L file s1 s3 := by
  induction h' with
  | unchanged => exact h
  | lived _ hself hP ih => exact ih.lived hself hP

theorem kept_run {self : Node L} {P P' : Pool ι Req Ans Err Unit NodeState}
    (hP : Pool.Steps (Running.rules self) P P') {c : String}
    (hc : P.world.storage.presenceTable.find c ≠ none) :
    P'.world.storage.presenceTable.find c ≠ none :=
  Pool.invariant_of_steps (J := fun P => P.world.storage.presenceTable.find c ≠ none)
    (fun _ _ hJ hs => kept_step hs hJ) hP hc

theorem Lives.kept {file : List Char} {s s' : Storage} (h : Lives ι L file s s') {c : String}
    (hc : s.presenceTable.find c ≠ none) : s'.presenceTable.find c ≠ none := by
  induction h with
  | unchanged => exact hc
  | lived _ _ hP ih => exact kept_run hP ih

/-- A node remembers its cells over any number of lives: who was registered once is at
home at this node, at any time later. -/
theorem remembered_through_lives {file : List Char} {s0 s1 s2 : Storage}
    (hp : s0.presenceTable = Table.empty) (hb : s0.messageBuffer = Table.empty)
    (hearlier : Lives ι L file s0 s1) (hlater : Lives ι L file s1 s2) {self : Node L}
    (hself : Creates file self) {P : Pool ι Req Ans Err Unit NodeState}
    (hP : Pool.Steps (Running.rules self) (Running.initial ⟨s2,ConnectionRegistry.empty⟩) P) :
    Homebound.Settled self P.world ∧ ∀ c, s1.presenceTable.find c ≠ none →
      ∃ row, P.world.storage.presenceTable.find c = some row ∧ row.homeNodeId = self.id ∧
        row.visitingNodeId = none := by
  have hw : Homebound.Settled self ⟨s2,ConnectionRegistry.empty⟩ :=
    (hearlier.trans hlater).settled hp hb hself
  have hsettled := ((holds_initial hw).steps hP).1
  refine ⟨hsettled,fun c hc => ?_⟩
  obtain ⟨row,hrow⟩ := Option.ne_none_iff_exists'.mp (kept_run hP (hlater.kept hc))
  exact ⟨row,hrow,hsettled.home c row hrow⟩

end

def sampleFounder : NodeIdentity shortSigLib :=
  NodeIdentity.generate shortSigLib (Seed.fill 1) (Seed.fill 1) "h:0"

theorem creates_sampleNode (onMessage : Bool) : Creates sampleFounder.save (sampleNode onMessage) :=
  ⟨sampleFounder.loaded,sampleFounder.load_save,rfl,rfl⟩

/-- A cell registers in the first life; the second one runs with a callback. -/
theorem remembered_through_lives_sample : ∃ (P : Pool Unit Req Ans Err Unit NodeState)
    (row : PresenceEntry), P.world.storage.presenceTable.find "c" = some row ∧
      row.homeNodeId = (sampleNode true).id ∧ row.visitingNodeId = none := by
  obtain ⟨P1,hP1,_,_,_,hw1⟩ := Running.exists_ran (sampleNode false) Forwarding.sampleEnv
    (.register "c" [] []) ⟨Storage.empty,ConnectionRegistry.empty⟩
  obtain ⟨P2,hP2,_⟩ := Running.exists_ran (sampleNode true) Forwarding.sampleEnv .turn
    ⟨P1.world.storage,ConnectionRegistry.empty⟩
  have hcell : P1.world.storage.presenceTable.find "c" ≠ none := by
    rw [hw1]
    decide +kernel
  exact ⟨P2,(remembered_through_lives rfl rfl (.lived .unchanged (creates_sampleNode false) hP1)
    .unchanged (creates_sampleNode true) hP2).2 "c" hcell⟩

end Restarts
end Nevod
