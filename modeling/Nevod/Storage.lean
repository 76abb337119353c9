import Nevod.External
import Nevod.Lib.Table

/-!
`node/storage.py`: the four tables of a node and the statements executed on
them. A statement comes with its parameters already bound, so that a column of
TEXT affinity holds a `SqlText`.
-/

set_option autoImplicit false

namespace Nevod
open Text Keyed

def ttlNodeOfflineSecs : Int := 72*3600
def ttlMessageSecs : Int := 72*3600
def missedPingsOffline : Int := 3

/-- `NodeEntry` as callers fill it in. -/
structure NodeEntry where
  nodeId : Val
  address : Val
  type : Val := .str "permanent"
  access : Val := .str "closed"
  cert : Bytes := []
  parentNode : String := ""
  lastSeen : Int := 0
  missedPings : Int := 0
  status : String := "online"
  addedAt : Int := 0

/-- A row of `node_table`. -/
structure NodeRow where
  nodeId : SqlText
  address : SqlText
  type : SqlText
  access : SqlText
  cert : Bytes
  parentNode : String
  lastSeen : Int
  missedPings : Int
  status : String
  addedAt : Int
  deriving DecidableEq, Repr

/-- `_row_to_node`. -/
def NodeRow.toEntry (r : NodeRow) : NodeEntry :=
  { r with nodeId := r.nodeId.toVal, address := r.address.toVal, type := r.type.toVal,
           access := r.access.toVal }

structure CellEntry where
  cellId : String
  signingPubkey : Bytes
  encPubkey : Bytes
  registeredAt : Int
  isHome : Bool
  deriving DecidableEq, Repr

structure PresenceEntry where
  cellId : String
  homeNodeId : String
  visitingNodeId : Option String
  updatedAt : Int
  deriving DecidableEq, Repr

structure BufferedMessage where
  messageId : SqlText
  toCell : String
  toNode : String
  payload : Bytes
  createdAt : Int
  expiresAt : Int
  deriving DecidableEq, Repr

structure Storage where
  nodeTable : Table NodeRow.nodeId
  cells : Table CellEntry.cellId
  presenceTable : Table PresenceEntry.cellId
  messageBuffer : Table BufferedMessage.messageId

def Storage.empty : Storage := ⟨Table.empty,Table.empty,Table.empty,Table.empty⟩

inductive StoreOp where
  | upsertNode (row : NodeRow)
  | getNode (nodeId : SqlText)
  | getAllNodes
  | updateNodePing (nodeId : SqlText) (success : Bool)
  | removeNode (nodeId : SqlText)
  | cleanupExpiredNodes
  | registerCell (cellId : String) (signingPubkey encPubkey : Bytes) (isHome : Bool)
  | getCell (cellId : String)
  | updatePresence (cellId homeNodeId : String) (visitingNodeId : Option String)
  | getPresence (cellId : String)
  | bufferMessage (messageId : SqlText) (toCell toNode : String) (payload : Bytes)
  | getBuffered (toCell : String)
  | deleteBuffered (messageId : SqlText)
  | cleanupExpiredMessages

abbrev StoreOp.Result : StoreOp → Type
  | .getNode _ => Option NodeRow
  | .getAllNodes => List NodeRow
  | .getCell _ => Option CellEntry
  | .getPresence _ => Option PresenceEntry
  | .getBuffered _ => List BufferedMessage
  | _ => Unit

namespace Storage

def upsertNode (s : Storage) (row : NodeRow) : Storage :=
  { s with
    nodeTable := s.nodeTable.upsert row
      (fun r => { r with address := row.address, lastSeen := row.lastSeen,
                         missedPings := row.missedPings, status := row.status,
                         cert := row.cert })
      (fun _ => rfl) }

/-- A failed ping takes a node offline at the third miss in a row. -/
def missPing (r : NodeRow) : NodeRow :=
  { r with missedPings := r.missedPings + 1,
           status := if r.missedPings + 1 ≥ missedPingsOffline then "offline" else r.status }

def updateNodePing (s : Storage) (now : Int) (nodeId : SqlText) (success : Bool) : Storage :=
  { s with
    nodeTable :=
      if success then
        s.nodeTable.modify nodeId
          (fun r => { r with lastSeen := now, missedPings := 0, status := "online" })
          (fun _ => rfl)
      else s.nodeTable.modify nodeId missPing (fun _ => rfl) }

def removeNode (s : Storage) (nodeId : SqlText) : Storage :=
  { s with nodeTable := s.nodeTable.delete nodeId }

def cleanupExpiredNodes (s : Storage) (now : Int) : Storage :=
  { s with
    nodeTable := s.nodeTable.deleteWhere
      (fun r => r.status == "offline" && decide (r.lastSeen < now - ttlNodeOfflineSecs)) }

/-- On a conflict the flag `is_home` keeps its old value. -/
def registerCell (s : Storage) (now : Int) (cellId : String) (signingPubkey encPubkey : Bytes)
    (isHome : Bool) : Storage :=
  { s with
    cells := s.cells.upsert ⟨cellId,signingPubkey,encPubkey,now,isHome⟩
      (fun r => { r with signingPubkey := signingPubkey, encPubkey := encPubkey })
      (fun _ => rfl) }

def updatePresence (s : Storage) (now : Int) (cellId homeNodeId : String)
    (visitingNodeId : Option String) : Storage :=
  { s with
    presenceTable := s.presenceTable.upsert ⟨cellId,homeNodeId,visitingNodeId,now⟩
      (fun r => { r with homeNodeId := homeNodeId, visitingNodeId := visitingNodeId,
                         updatedAt := now })
      (fun _ => rfl) }

def bufferMessage (s : Storage) (now : Int) (messageId : SqlText) (toCell toNode : String)
    (payload : Bytes) : Storage :=
  { s with
    messageBuffer := s.messageBuffer.insertIgnore
      ⟨messageId,toCell,toNode,payload,now,now + ttlMessageSecs⟩ }

def getBuffered (s : Storage) (now : Int) (toCell : String) : List BufferedMessage :=
  s.messageBuffer.rows.filter (fun r => r.toCell == toCell && decide (now < r.expiresAt))

def deleteBuffered (s : Storage) (messageId : SqlText) : Storage :=
  { s with messageBuffer := s.messageBuffer.delete messageId }

def cleanupExpiredMessages (s : Storage) (now : Int) : Storage :=
  { s with messageBuffer := s.messageBuffer.deleteWhere (fun r => decide (r.expiresAt ≤ now)) }

/-- Executing one statement at time `now`. -/
def exec (s : Storage) (now : Int) : (op : StoreOp) → op.Result × Storage
  | .upsertNode row => ((),s.upsertNode row)
  | .getNode nodeId => (s.nodeTable.find nodeId,s)
  | .getAllNodes => (s.nodeTable.rows,s)
  | .updateNodePing nodeId success => ((),s.updateNodePing now nodeId success)
  | .removeNode nodeId => ((),s.removeNode nodeId)
  | .cleanupExpiredNodes => ((),s.cleanupExpiredNodes now)
  | .registerCell cellId sp ep isHome => ((),s.registerCell now cellId sp ep isHome)
  | .getCell cellId => (s.cells.find cellId,s)
  | .updatePresence cellId home visiting => ((),s.updatePresence now cellId home visiting)
  | .getPresence cellId => (s.presenceTable.find cellId,s)
  | .bufferMessage messageId toCell toNode payload =>
    ((),s.bufferMessage now messageId toCell toNode payload)
  | .getBuffered toCell => (s.getBuffered now toCell,s)
  | .deleteBuffered messageId => ((),s.deleteBuffered messageId)
  | .cleanupExpiredMessages => ((),s.cleanupExpiredMessages now)

theorem mem_getBuffered (s : Storage) (now : Int) (toCell : String) (r : BufferedMessage) :
    r ∈ s.getBuffered now toCell ↔
      r ∈ s.messageBuffer.rows ∧ r.toCell = toCell ∧ now < r.expiresAt := by
  simp [getBuffered]

end Storage

end Nevod
