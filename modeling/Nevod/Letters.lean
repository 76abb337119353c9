import Nevod.Client
import Nevod.Console
import Nevod.Homebound

/-!
A message from end to end: what is typed at the console of a cell, or handed to
`send_message` of a node, is what the client of the receiver hands to its callback.
-/

set_option autoImplicit false

namespace Nevod
open Text Resume Keyed

variable {L : Lib} {ι : Type}

namespace Letters
open Homebound

/-- The client of this cell, on this node, would read the plaintext in the frame. -/
def ReadAs (self : Node L) (encPub frame : Bytes) (fromAddr : String) (plaintext : Bytes) : Prop :=
  ∀ client : CellClient L, client.identity.encryption.pub = encPub → client.onMessage = true →
    client.nodeSigningPubkey = self.identity.signing.pub →
    ∃ p, client.receive frame = .ok (some (p,plaintext)) ∧ p.fromAddr = .str fromAddr

theorem readAs_wireForm (hpack : L.PackLaws) (hsig : L.SigLaws) (hseal : L.SealLaws)
    {self : Node L} {pkt signed : Packet} {frame encPub plaintext payload : Bytes}
    {fromAddr : String} {rnd : SealRandom} {enc : Encrypted}
    (hw : Transport.wireForm self pkt = .ok (signed,frame)) (hty : pkt.type = .str T.msg)
    (he : encrypt L rnd plaintext encPub = .ok enc)
    (hpay : encodePayload L (Node.sealedPayload enc) = .ok payload)
    (hpkt : pkt.payload = .bin payload) (hfrom : pkt.fromAddr = .str fromAddr) :
    ReadAs self encPub frame fromAddr plaintext := by
  intro client henc hcall hkey
  obtain ⟨hsign,hf⟩ := wireForm_ok hw
  obtain ⟨hu,s,rfl⟩ := unpack_wireForm hpack hw
  refine ⟨_,CellClient.receive_ok hu ?_ hty hcall ?_,hfrom⟩
  · rw [hkey]
    exact verifyPacket_signPacket hsig hsign
  · exact CellClient.openPayload_sealed hpack hseal (henc ▸ he) hpay hpkt

/-- What is sent of a message for a cell goes to the cell. -/
theorem sent_home {self : Node L} {pkt : Packet} {cellId m : String}
    {tr : List (Exchange Req Ans)}
    {p : NodeProg Unit} (ha : parseAddr pkt.toAddr = .ok (some cellId,m))
    (h : Path (Router.route self pkt) tr p) (hr : ∀ e ∈ tr, told self e.1 e.2)
    {conn : PeerConnection} {frame : Bytes} {a : Ans (.wsSend conn frame)}
    (hmem : (⟨.wsSend conn frame,a⟩ : Exchange Req Ans) ∈ tr) :
    conn.peerNodeId = cellId ∧ ∃ signed, Transport.wireForm self pkt = .ok (signed,frame) := by
  obtain ⟨tr1,tr2,htr⟩ := List.append_of_mem hmem
  exact ((staysHome_of_path ha h hr).1.allowed tr1 _ tr2 htr).2.2

theorem at_not_mem_splitAddr (addrStr nodeId : String) :
    '@' ∉ (Console.splitAddr addrStr nodeId).1.toList := by
  unfold Console.splitAddr Nevod.splitAddr
  cases hd : addrStr.toList.dropWhile (· != '@') with
  | nil =>
    intro hmem
    have := List.dropWhile_eq_nil_iff.mp hd '@' hmem
    simp at this
  | cons c rest =>
    simp only [Option.getD_some,String.toList_ofList]
    intro hmem
    have := List.mem_takeWhile_imp hmem
    simp at this

theorem contactAt_cell {nodeId : String} {addrStr encHex : List Char} {c : Console.Contact}
    (h : Console.contactAt nodeId addrStr encHex = .ok c) : '@' ∉ c.cellId.toList := by
  unfold Console.contactAt at h
  split at h
  · cases h
  · cases h
    exact at_not_mem_splitAddr _ _

theorem saves_cell {nodeId : String} {t : Console.Turn} {e : Console.Entry}
    (h : Console.saves nodeId t = some e) : '@' ∉ e.contact.cellId.toList := by
  unfold Console.saves at h
  split at h
  · cases h
  · split at h
    · unfold Console.add at h
      split at h
      · rename_i name addrStr encHex _
        cases hc : Console.contactAt nodeId addrStr encHex with
        | error text =>
          rw [hc] at h
          cases h
        | ok c =>
          rw [hc] at h
          cases h
          exact contactAt_cell hc
      · cases h
    · cases h

/-- Whom the console sends to, typed or saved, has an id that an address can hold. -/
theorem addressee_cell {nodeId : String} {turns : List Console.Turn} {book : Console.Book}
    (hb : Console.bookAfter nodeId Table.empty turns = some book) {head : List Char}
    {c : Console.Contact} (h : Console.addressee nodeId book head = .ok c) :
    '@' ∉ c.cellId.toList := by
  unfold Console.addressee at h
  cases hf : book.find (String.ofList head) with
  | some e =>
    simp only [hf,Except.ok.injEq] at h
    subst h
    rw [Console.bookAfter_find hb,Table.find_empty,Option.or_none] at hf
    obtain ⟨t,_,ht⟩ := List.mem_filterMap.mp (List.mem_reverse.mp (List.mem_of_find?_eq_some hf))
    exact saves_cell ht
  | none =>
    simp only [hf] at h
    split at h
    · exact contactAt_cell h
    · cases h

/-- What is typed at one console is what the other cell reads. A line that makes a
console send makes a packet that the sender's node accepts; and if that node, on which
only home cells are registered, sends anything on account of the packet, it sends it to
the cell that was typed, and whoever holds the private key to the key that was typed
reads the text of the line in it, with the sender's address. -/
theorem typed_is_read [DecidableEq ι] (hpack : L.PackLaws) (hsig : L.SigLaws) (hseal : L.SealLaws)
    {sender : CellClient L} {turns : List Console.Turn} {c : Console.Contact} {m : Bytes}
    (h : .send c m ∈ Console.session sender.nodeId Table.empty turns) {st : Stamp}
    {rnd : SealRandom} {pkt : Packet} {frame : Bytes}
    (hsend : sender.send st rnd c.cellId c.nodeId c.encPub m = .ok (pkt,frame)) {self : Node L}
    {w : NodeState} (hw : Homebound.Settled self w) {P : Pool ι Req Ans Err Unit NodeState}
    (hP : Pool.Steps (Running.rules self) (Running.initial w) P) {i : ι} {conn : PeerConnection}
    (hl : P.launched i = Node.dispatch self pkt conn) :
    (∃ t ∈ turns, ∃ s head message, Console.Reads t s ∧
      strip s.toList = head ++ [':',' '] ++ message ∧ m = utf8 (String.ofList message)) ∧
    (unpack L frame = .ok pkt ∧
      verifyPacket L pkt sender.identity.signing.pub = .ok true) ∧
    ∀ conn' frame' a, (⟨.wsSend conn' frame',a⟩ : Exchange Req Ans) ∈ P.history i →
      conn'.peerNodeId = c.cellId ∧
        ReadAs self c.encPub frame' (CellClient.address sender.cellId sender.nodeId) m := by
  have hsends : (c,m) ∈ Console.sendsOf (Console.session sender.nodeId Table.empty turns) :=
    List.mem_filterMap.mpr ⟨_,h,rfl⟩
  obtain ⟨pre,t,post,book,rfl,hb,hturn⟩ := Console.mem_session hsends
  obtain ⟨s,hs,head,message,hsplit,hto,rfl⟩ := Console.turn_sends hturn
  obtain ⟨enc,payload,he,hpay,hsigned,hf⟩ := CellClient.send_ok hsend
  obtain ⟨sig,_,hpkt⟩ := signPacket_ok hsigned
  refine ⟨⟨t,by simp,s,head,message,hs,splitOnce_some hsplit,rfl⟩,
    ⟨unpack_pack_signed hpack hsigned hf,verifyPacket_signPacket hsig hsigned⟩,?_⟩
  intro conn' frame' a hmem
  have hty : pkt.type = .str T.msg := by rw [hpkt]; rfl
  have haddr : parseAddr pkt.toAddr = .ok (some c.cellId,c.nodeId) := by
    rw [hpkt]
    simp [parseAddr,CellClient.message,CellClient.address,splitAddr_join (addressee_cell hb hto)]
  have hpath := Pool.OnPath.steps (P := Running.initial w) (fun _ => .here _) hP i
  rw [hl,dispatch_msg _ hty] at hpath
  obtain ⟨hcell,signed,hwire⟩ := sent_home haddr hpath (told_of_history hw hP i) hmem
  refine ⟨hcell,readAs_wireForm hpack hsig hseal hwire hty he hpay ?_ ?_⟩
  · rw [hpkt]
    rfl
  · rw [hpkt]
    rfl

/-- On whose behalf a node sends. -/
def fromAddress (self : Node L) : Option String → String
  | some c => if c = "" then self.id else c ++ "@" ++ self.id
  | none => self.id

/-- The packet that `send_message` routes. -/
def letter (self : Node L) (receiver : String) (sender : Option String) (st : Stamp)
    (payload : Bytes) : Packet :=
  { type := .str T.msg, payload := .bin payload, id := .str st.id, ts := .int st.ts,
    fromAddr := .str (fromAddress self sender), toAddr := .str receiver }

theorem sendMessage_eq (self : Node L) (receiver : String) (plaintext : Bytes)
    (sender : Option String) {cellId m : String} (hr : splitAddr receiver = some (cellId,m)) :
    Node.sendMessage self receiver plaintext sender = .ask (.store (.getCell cellId)) (fun found =>
      match found with
      | none => .raise (.valueError "unknown cell: no enc_pubkey")
      | some cell => .ask .sealRandom (fun rnd =>
        (Prog.ofExcept ((encrypt L rnd plaintext cell.encPubkey).bind (fun enc =>
          encodePayload L (Node.sealedPayload enc)))).bind (fun payload =>
            .ask .stamp (fun st => Router.route self (letter self receiver sender st payload))))) := by
  unfold Node.sendMessage
  simp only [hr,Prog.bind_eq,Prog.bind_ask,Prog.bind_ret]
  congr 1
  funext found
  cases found with
  | none => rfl
  | some cell =>
    change Prog.ask _ _ = Prog.ask _ _
    congr 1
    funext rnd
    cases encrypt L rnd plaintext cell.encPubkey with
    | error e => rfl
    | ok enc =>
      cases hp : encodePayload L (Node.sealedPayload enc) with
      | error e => simp [Except.bind,hp,Prog.ofExcept]
      | ok payload =>
        simp only [Except.bind,hp,Prog.ofExcept,Prog.bind_ret]
        cases sender <;> rfl

/-- Whatever `send_message` sends or hands over is its letter, sealed for the key that
is stored of the cell. -/
theorem sendMessage_path {self : Node L} {receiver : String} {plaintext : Bytes}
    {sender : Option String} {tr : List (Exchange Req Ans)} {p : NodeProg Unit}
    (h : Path (Node.sendMessage self receiver plaintext sender) tr p)
    (hsettles : tr.filter Forwarding.settles ≠ []) :
    ∃ cellId m cell rnd st enc payload rest, splitAddr receiver = some (cellId,m) ∧
      tr = ⟨.store (.getCell cellId),some cell⟩ :: ⟨.sealRandom,rnd⟩ :: ⟨.stamp,st⟩ :: rest ∧
      encrypt L rnd plaintext cell.encPubkey = .ok enc ∧
      encodePayload L (Node.sealedPayload enc) = .ok payload ∧
      Path (Router.route self (letter self receiver sender st payload)) rest p := by
  cases hr : splitAddr receiver with
  | none =>
    unfold Node.sendMessage at h
    rw [hr] at h
    obtain ⟨rfl,_⟩ := h.of_raise
    exact absurd rfl hsettles
  | some x =>
    obtain ⟨cellId,m⟩ := x
    rw [sendMessage_eq self receiver plaintext sender hr] at h
    cases h with
    | here => exact absurd rfl hsettles
    | step _ _ found h => cases found with
      | none =>
        obtain ⟨rfl,_⟩ := h.of_raise
        exact absurd rfl hsettles
      | some cell => cases h with
        | here => exact absurd rfl hsettles
        | step _ _ rnd h => cases he : encrypt L rnd plaintext cell.encPubkey with
          | error e =>
            simp only [he,Except.bind,Prog.ofExcept_error,Prog.bind_raise] at h
            obtain ⟨rfl,_⟩ := h.of_raise
            exact absurd rfl hsettles
          | ok enc => cases hp : encodePayload L (Node.sealedPayload enc) with
            | error e =>
              simp only [he,hp,Except.bind,Prog.ofExcept_error,Prog.bind_raise] at h
              obtain ⟨rfl,_⟩ := h.of_raise
              exact absurd rfl hsettles
            | ok payload =>
              simp only [he,hp,Except.bind,Prog.ofExcept_ok,Prog.bind_ret] at h
              cases h with
              | here => exact absurd rfl hsettles
              | step _ _ st h =>
                exact ⟨cellId,m,cell,rnd,st,enc,payload,_,rfl,rfl,he,hp,h⟩

/-- `send_message` sends its text to nobody but the cell it names, at most once, and
what it sends is sealed: whoever holds the private key to the key that is stored of the
cell reads exactly this text in it. -/
theorem sent_message_is_read [DecidableEq ι] (hpack : L.PackLaws) (hsig : L.SigLaws)
    (hseal : L.SealLaws) {self : Node L} {w : NodeState} (hw : Homebound.Settled self w)
    {P : Pool ι Req Ans Err Unit NodeState}
    (hP : Pool.Steps (Running.rules self) (Running.initial w) P) {i : ι} {receiver : String}
    {plaintext : Bytes} {sender : Option String}
    (hl : P.launched i = Node.sendMessage self receiver plaintext sender) :
    ((P.history i).filter Forwarding.settles).length ≤ 1 ∧
    ∀ conn frame, (⟨.wsSend conn frame,.ok ()⟩ : Exchange Req Ans) ∈ P.history i →
      ∃ m cell, splitAddr receiver = some (conn.peerNodeId,m) ∧
        (⟨.store (.getCell conn.peerNodeId),some cell⟩ : Exchange Req Ans) ∈ P.history i ∧
        ReadAs self cell.encPubkey frame (fromAddress self sender) plaintext := by
  have hpath := Pool.OnPath.steps (P := Running.initial w) (fun _ => .here _) hP i
  rw [hl] at hpath
  by_cases hnone : (P.history i).filter Forwarding.settles = []
  · refine ⟨by simp [hnone],fun conn frame hmem => ?_⟩
    have hs : (⟨.wsSend conn frame,.ok ()⟩ : Exchange Req Ans) ∈
        (P.history i).filter Forwarding.settles := List.mem_filter.mpr ⟨hmem,rfl⟩
    rw [hnone] at hs
    cases hs
  · obtain ⟨cellId,m,cell,rnd,st,enc,payload,rest,hr,htr,he,hpay,hroute⟩ :=
      sendMessage_path hpath hnone
    have hto : parseAddr (letter self receiver sender st payload).toAddr = .ok (some cellId,m) := by
      simp [letter,parseAddr,hr]
    have htold : ∀ e ∈ rest, told self e.1 e.2 := fun e he =>
      told_of_history hw hP i e (by rw [htr]; simp [he])
    refine ⟨?_,fun conn frame hmem => ?_⟩
    · rw [htr]
      exact (staysHome_of_path hto hroute htold).1.once
    · have hrest : (⟨.wsSend conn frame,.ok ()⟩ : Exchange Req Ans) ∈ rest := by
        rw [htr] at hmem
        simpa using hmem
      obtain ⟨rfl,signed,hwire⟩ := sent_home hto hroute htold hrest
      exact ⟨m,cell,hr,by rw [htr]; simp,
        readAs_wireForm hpack hsig hseal hwire rfl he hpay rfl rfl⟩

/-- A client that holds the private key to the key in the sample contact. -/
def sampleReader : CellClient shortSigLib where
  identity := sampleIdentity shortSigLib 0
  onMessage := true
  nodeSigningPubkey := (sampleIdentity shortSigLib 1).signing.pub

def sampleSender : CellClient shortSigLib where
  identity := sampleIdentity shortSigLib 2
  onMessage := true
  ws := some 0
  nodeId := "n"

/-- A node where the cell "c" is registered with that key, and connected. -/
def sampleHome : NodeState := registeredWith (List.replicate 32 0)

/-- What is typed at the sample console, as a packet on its way. -/
def sampleTyped : Except Err (Packet × Bytes) :=
  sampleSender.send ⟨"m",0⟩ .zero Console.sampleContact.cellId Console.sampleContact.nodeId
    Console.sampleContact.encPub (utf8 "hi")

theorem typed_is_read_sample : ∃ (frame : Bytes) (p : Packet),
    sampleReader.receive frame = .ok (some (p,utf8 "hi")) := by
  have hsession : .send Console.sampleContact (utf8 "hi") ∈
      Console.session sampleSender.nodeId Table.empty Console.sampleTurns := by decide +kernel
  have hany : (sampleTyped.map (fun x => (run Forwarding.sampleEnv.handler
      (Node.dispatch (sampleNode false) x.1 sampleLine) ⟨sampleHome,0⟩).trace.any
        Forwarding.isSend)).toOption = some true := by decide +kernel
  cases hsend : sampleTyped with
  | error e =>
    rw [hsend] at hany
    cases hany
  | ok x =>
    obtain ⟨pkt,frame⟩ := x
    obtain ⟨P,hP,hl,_,hh,_⟩ := Running.exists_ran (sampleNode false) Forwarding.sampleEnv
      (.packet pkt sampleLine) sampleHome
    rw [hsend] at hany
    have hsent : (P.history ()).any Forwarding.isSend = true := by
      rw [hh]
      exact Option.some.inj hany
    obtain ⟨conn',frame',a,hmem⟩ := Forwarding.exists_isSend hsent
    obtain ⟨_,hread⟩ := (typed_is_read (sampleLib_packLaws digest32) shortSigLib_sigLaws
      (sampleLib_sealLaws digest32) hsession hsend (settled_registeredWith _) hP hl).2.2
        conn' frame' a hmem
    obtain ⟨p,hp,_⟩ := hread sampleReader (by decide +kernel) rfl rfl
    exact ⟨frame',p,hp⟩

/-- The stored key is this one, and what is sent gets through. -/
def asMeant (key : Bytes) : Exchange Req Ans → Bool
  | ⟨.store (.getCell _),some cell⟩ => cell.encPubkey == key
  | ⟨.wsSend _ _,a⟩ => a.isOk
  | _ => true

theorem sent_message_is_read_sample : ∃ (frame : Bytes) (p : Packet),
    sampleReader.receive frame = .ok (some (p,utf8 "hi")) := by
  obtain ⟨P,hP,hl,_,hh,_⟩ := Running.exists_ran (sampleNode false) Forwarding.sampleEnv
    (.send "c@h" (utf8 "hi") none) sampleHome
  have hsent : (P.history ()).any Forwarding.isSend = true := by
    rw [hh]
    decide +kernel
  have hmeant : (P.history ()).all (asMeant (List.replicate 32 0)) = true := by
    rw [hh]
    decide +kernel
  obtain ⟨conn,frame,a,hmem⟩ := Forwarding.exists_isSend hsent
  have hok : asMeant (List.replicate 32 0) ⟨.wsSend conn frame,a⟩ = true :=
    List.all_eq_true.mp hmeant _ hmem
  obtain ⟨u,ha⟩ := exists_ok hok
  obtain ⟨m,cell,_,hcell,hread⟩ := (sent_message_is_read (sampleLib_packLaws digest32)
    shortSigLib_sigLaws (sampleLib_sealLaws digest32) (settled_registeredWith _) hP hl).2
      conn frame (ha ▸ hmem)
  have hkey : asMeant (List.replicate 32 0) ⟨.store (.getCell conn.peerNodeId),some cell⟩ = true :=
    List.all_eq_true.mp hmeant _ hcell
  obtain ⟨p,hp,_⟩ := hread sampleReader ((beq_iff_eq.mp hkey).symm ▸ by decide +kernel) rfl rfl
  exact ⟨frame,p,hp⟩

end Letters

end Nevod
