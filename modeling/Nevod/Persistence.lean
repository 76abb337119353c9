import Nevod.Lib.Json
import Nevod.Handshake

/-!
`node/identity.py`: the identities of nodes and cells, and the JSON files they are
kept in between two runs. A file is the text that is written to it.
-/

set_option autoImplicit false

namespace Nevod
open Text

variable (L : Lib)

structure NodeIdentity where
  identity : Identity L
  address : String
  nodeType : String := "permanent"
  access : String := "closed"

structure CellIdentity where
  identity : Identity L
  name : String := ""

variable {L}

/-- A key pair as a file has it: nothing relates the public key to the private one. -/
structure LoadedKeypair where
  priv : Seed
  pub : Bytes

def SigningKeypair.loaded (self : SigningKeypair L) : LoadedKeypair := ⟨self.priv,self.pub⟩

def EncryptionKeypair.loaded (self : EncryptionKeypair L) : LoadedKeypair := ⟨self.priv,self.pub⟩

/-- The fields are whatever the file has for them. -/
structure LoadedNode where
  signing : LoadedKeypair
  encryption : LoadedKeypair
  address : Json.Value
  nodeType : Json.Value
  access : Json.Value

structure LoadedCell where
  signing : LoadedKeypair
  encryption : LoadedKeypair
  name : Json.Value

def LoadedNode.nodeId (self : LoadedNode) : String := hex self.signing.pub

def LoadedCell.cellId (self : LoadedCell) : String := hex self.signing.pub

namespace Persistence

/-- `data[key]`. -/
def item (data : Json.Value) (key : String) : Except Err Json.Value :=
  match data with
  | .obj members =>
    match Json.member members key with
    | some v => .ok v
    | none => .error .keyError
  | _ => .error .typeError

/-- `data.get(key, default)`. -/
def get (data : Json.Value) (key dflt : String) : Except Err Json.Value :=
  match data with
  | .obj members => .ok ((Json.member members key).getD (.ofString dflt))
  | _ => .error .attributeError

def notHex (i : Nat) : Err :=
  .valueError ("non-hexadecimal number found in fromhex() arg at position " ++ toString i)

/-- `bytes.fromhex`. What is not ASCII is found first, a surrogate on its own too. -/
def unhex : Json.Value → Except Err Bytes
  | .str s =>
    match s.findIdx? (fun n => 128 ≤ n) with
    | some i => .error (notHex i)
    | none =>
      match fromHexAt 0 (s.map Char.ofNat) with
      | .error i => .error (notHex i)
      | .ok b => .ok b
  | _ => .error .typeError

/-- `from_private_bytes`, for the two kinds of keys. -/
def privFromBytes (kind : String) (b : Bytes) : Except Err Seed :=
  if h : b.length = 32 then .ok ⟨b,h⟩
  else .error (.valueError (kind ++ " private key is 32 bytes long"))

def loadKeypair (kind : String) (data : Json.Value) (privKey pubKey : String) :
    Except Err LoadedKeypair := do
  let privHex ← item data privKey
  let privBytes ← unhex privHex
  let priv ← privFromBytes kind privBytes
  let pubHex ← item data pubKey
  let pub ← unhex pubHex
  pure ⟨priv,pub⟩

def parse (text : List Char) : Except Err Json.Value :=
  match Json.loads text with
  | some data => .ok data
  | none => .error (.other "JSONDecodeError")

def keyNames : List String := ["signing_priv","signing_pub","enc_priv","enc_pub"]

def keyMembers (me : Identity L) : List (String × String) :=
  [("signing_priv",hex me.signing.priv.bytes),("signing_pub",hex me.signing.pub),
    ("enc_priv",hex me.encryption.priv.bytes),("enc_pub",hex me.encryption.pub)]

end Persistence

open Persistence

namespace NodeIdentity

def generate (L : Lib) (signing encryption : Seed) (address : String)
    (nodeType : String := "permanent") (access : String := "closed") : NodeIdentity L :=
  ⟨⟨genSigning L signing,genEncryption L encryption⟩,address,nodeType,access⟩

def members (self : NodeIdentity L) : List (String × String) :=
  keyMembers self.identity ++
    [("address",self.address),("node_type",self.nodeType),("access",self.access)]

def save (self : NodeIdentity L) : List Char := Json.dumps self.members

def load (text : List Char) : Except Err LoadedNode := do
  let data ← parse text
  let signing ← loadKeypair "An Ed25519" data "signing_priv" "signing_pub"
  let encryption ← loadKeypair "An X25519" data "enc_priv" "enc_pub"
  let address ← item data "address"
  let nodeType ← get data "node_type" "permanent"
  let access ← get data "access" "closed"
  pure ⟨signing,encryption,address,nodeType,access⟩

/-- The same fields, as they are loaded. -/
def loaded (self : NodeIdentity L) : LoadedNode where
  signing := self.identity.signing.loaded
  encryption := self.identity.encryption.loaded
  address := .ofString self.address
  nodeType := .ofString self.nodeType
  access := .ofString self.access

end NodeIdentity

namespace CellIdentity

def generate (L : Lib) (signing encryption : Seed) (name : String := "") : CellIdentity L :=
  ⟨⟨genSigning L signing,genEncryption L encryption⟩,name⟩

def members (self : CellIdentity L) : List (String × String) :=
  keyMembers self.identity ++ [("name",self.name)]

def save (self : CellIdentity L) : List Char := Json.dumps self.members

def load (text : List Char) : Except Err LoadedCell := do
  let data ← parse text
  let signing ← loadKeypair "An Ed25519" data "signing_priv" "signing_pub"
  let encryption ← loadKeypair "An X25519" data "enc_priv" "enc_pub"
  let name ← get data "name" ""
  pure ⟨signing,encryption,name⟩

def loaded (self : CellIdentity L) : LoadedCell where
  signing := self.identity.signing.loaded
  encryption := self.identity.encryption.loaded
  name := .ofString self.name

end CellIdentity

namespace Persistence

theorem unhex_hex (b : Bytes) : unhex (.ofString (hex b)) = .ok b := by
  have hascii : (Json.codes (hex b)).findIdx? (fun n => 128 ≤ n) = none := by
    rw [List.findIdx?_eq_none_iff]
    intro n hn
    obtain ⟨c,hc,rfl⟩ := List.mem_map.mp hn
    have hlt := (mem_hex hc).2
    simp only [decide_eq_false_iff_not]
    omega
  have hchars : (Json.codes (hex b)).map Char.ofNat = (hex b).toList := by
    simp [Json.codes,Function.comp_def]
  have hbytes : fromHexAt 0 (hex b).toList = .ok b := by
    rw [hex,String.toList_ofList]
    exact fromHexAt_hexByte 0 b
  simp only [unhex,Json.Value.ofString,hascii,hchars,hbytes]

theorem privFromBytes_seed (kind : String) (s : Seed) : privFromBytes kind s.bytes = .ok s := by
  rw [privFromBytes,dif_pos s.length]

/-- What is written under a key once is what is read there. -/
theorem item_written {ms : List (String × String)} {key v : String}
    (h : ms.reverse.find? (fun m => m.1 = key) = some (key,v)) :
    item (.obj (ms.map Json.asMember)) key = .ok (.ofString v) := by
  simp [item,Json.member_written,h]

theorem get_written {ms : List (String × String)} {key v dflt : String}
    (h : ms.reverse.find? (fun m => m.1 = key) = some (key,v)) :
    get (.obj (ms.map Json.asMember)) key dflt = .ok (.ofString v) := by
  simp [get,Json.member_written,h]

theorem item_missing {ms : List (String × String)} {key : String}
    (h : ms.reverse.find? (fun m => m.1 = key) = none) :
    item (.obj (ms.map Json.asMember)) key = .error .keyError := by
  simp [item,Json.member_written,h]

theorem get_missing {ms : List (String × String)} {key dflt : String}
    (h : ms.reverse.find? (fun m => m.1 = key) = none) :
    get (.obj (ms.map Json.asMember)) key dflt = .ok (.ofString dflt) := by
  simp [get,Json.member_written,h]

theorem loadKeypair_written {ms : List (String × String)} (kind : String)
    {privKey pubKey : String} {priv : Seed} {pub : Bytes}
    (hpriv : ms.reverse.find? (fun m => m.1 = privKey) = some (privKey,hex priv.bytes))
    (hpub : ms.reverse.find? (fun m => m.1 = pubKey) = some (pubKey,hex pub)) :
    loadKeypair kind (.obj (ms.map Json.asMember)) privKey pubKey = .ok ⟨priv,pub⟩ := by
  simp only [loadKeypair,item_written hpriv,item_written hpub,bind,Except.bind,unhex_hex,
    privFromBytes_seed]
  rfl

/-- The keys are found in a file whatever other members it has after them. -/
theorem loadKeys_written (me : Identity L) {rest : List (String × String)}
    (hrest : ∀ m ∈ rest, m.1 ∉ keyNames) :
    loadKeypair "An Ed25519" (.obj ((keyMembers me ++ rest).map Json.asMember)) "signing_priv"
      "signing_pub" = .ok me.signing.loaded ∧
    loadKeypair "An X25519" (.obj ((keyMembers me ++ rest).map Json.asMember)) "enc_priv"
      "enc_pub" = .ok me.encryption.loaded := by
  have hfind : ∀ key ∈ keyNames, (keyMembers me ++ rest).reverse.find? (fun m => m.1 = key) =
      (keyMembers me).reverse.find? (fun m => m.1 = key) := by
    intro key hkey
    have hnone : rest.reverse.find? (fun m => m.1 = key) = none := by
      rw [List.find?_eq_none]
      intro m hm he
      exact hrest m (List.mem_reverse.mp hm) (of_decide_eq_true he ▸ hkey)
    rw [List.reverse_append,List.find?_append,hnone,Option.none_or]
  exact ⟨loadKeypair_written _ (hfind "signing_priv" (by simp [keyNames]))
      (hfind "signing_pub" (by simp [keyNames])),
    loadKeypair_written _ (hfind "enc_priv" (by simp [keyNames]))
      (hfind "enc_pub" (by simp [keyNames]))⟩

theorem parse_save (ms : List (String × String)) :
    parse (Json.dumps ms) = .ok (.obj (ms.map Json.asMember)) := by
  rw [parse,Json.loads_dumps]

end Persistence

theorem NodeIdentity.load_save (me : NodeIdentity L) : load me.save = .ok me.loaded := by
  let data : Json.Value := .obj (me.members.map Json.asMember)
  have hdata : parse me.save = .ok data := parse_save me.members
  obtain ⟨hsigning,hencryption⟩ : loadKeypair "An Ed25519" data "signing_priv" "signing_pub" =
        .ok me.loaded.signing ∧
      loadKeypair "An X25519" data "enc_priv" "enc_pub" = .ok me.loaded.encryption :=
    loadKeys_written me.identity (by simp [keyNames])
  have haddress : item data "address" = .ok me.loaded.address := item_written rfl
  have htype : get data "node_type" "permanent" = .ok me.loaded.nodeType := get_written rfl
  have haccess : get data "access" "closed" = .ok me.loaded.access := get_written rfl
  simp only [load,hdata,bind,Except.bind,hsigning,hencryption,haddress,htype,haccess]
  rfl

theorem CellIdentity.load_save (me : CellIdentity L) : load me.save = .ok me.loaded := by
  let data : Json.Value := .obj (me.members.map Json.asMember)
  have hdata : parse me.save = .ok data := parse_save me.members
  obtain ⟨hsigning,hencryption⟩ : loadKeypair "An Ed25519" data "signing_priv" "signing_pub" =
        .ok me.loaded.signing ∧
      loadKeypair "An X25519" data "enc_priv" "enc_pub" = .ok me.loaded.encryption :=
    loadKeys_written me.identity (by simp [keyNames])
  have hname : get data "name" "" = .ok me.loaded.name := get_written rfl
  simp only [load,hdata,bind,Except.bind,hsigning,hencryption,hname]
  rfl

namespace Persistence

/-- A file has nothing but ASCII in it, whatever the names in it are, and is loaded
as what was saved. -/
theorem saved_is_loaded (node : NodeIdentity L) (cell : CellIdentity L) :
    (NodeIdentity.load node.save = .ok node.loaded ∧
      CellIdentity.load cell.save = .ok cell.loaded) ∧
    ∀ c ∈ node.save ++ cell.save, c = '\n' ∨ 32 ≤ c.toNat ∧ c.toNat ≤ 126 := by
  refine ⟨⟨node.load_save,cell.load_save⟩,fun c hc => ?_⟩
  rcases List.mem_append.mp hc with hc | hc
  · exact Json.dumps_printable hc
  · exact Json.dumps_printable hc

/-- A cell's file is refused as the file of a node, as it has no address. The file of a
node is taken as that of a cell, which has the keys of the node, and no name. -/
theorem files_of_each_other (node : NodeIdentity L) (cell : CellIdentity L) :
    NodeIdentity.load cell.save = .error .keyError ∧
    CellIdentity.load node.save =
      .ok ⟨node.loaded.signing,node.loaded.encryption,.ofString ""⟩ := by
  constructor
  · let data : Json.Value := .obj (cell.members.map Json.asMember)
    have hdata : parse cell.save = .ok data := parse_save cell.members
    obtain ⟨hsigning,hencryption⟩ : loadKeypair "An Ed25519" data "signing_priv" "signing_pub" =
          .ok cell.loaded.signing ∧
        loadKeypair "An X25519" data "enc_priv" "enc_pub" = .ok cell.loaded.encryption :=
      loadKeys_written cell.identity (by simp [keyNames])
    have haddress : item data "address" = .error .keyError := item_missing rfl
    simp only [NodeIdentity.load,hdata,bind,Except.bind,hsigning,hencryption,haddress]
  · let data : Json.Value := .obj (node.members.map Json.asMember)
    have hdata : parse node.save = .ok data := parse_save node.members
    obtain ⟨hsigning,hencryption⟩ : loadKeypair "An Ed25519" data "signing_priv" "signing_pub" =
          .ok node.loaded.signing ∧
        loadKeypair "An X25519" data "enc_priv" "enc_pub" = .ok node.loaded.encryption :=
      loadKeys_written node.identity (by simp [keyNames])
    have hname : get data "name" "" = .ok (.ofString "") := get_missing rfl
    simp only [CellIdentity.load,hdata,bind,Except.bind,hsigning,hencryption,hname]
    rfl

end Persistence
end Nevod
