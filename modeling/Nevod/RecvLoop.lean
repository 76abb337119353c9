import Nevod.Delivery

/-!
What the two receive loops make of the frames that come in, one after another
until the socket is closed.
-/

set_option autoImplicit false

namespace Nevod
open Text Resume

variable {L : Lib}

/-- Checking a frame does not raise. -/
def Readable (L : Lib) (pub : Bytes) (raw : Bytes) : Prop :=
  ∃ pkt valid, unpack L raw = .ok pkt ∧ verifyPacket L pkt pub = .ok valid

/-- The packet in a frame that passes the check; a frame on which unpacking or
verifying raises counts as invalid. -/
def accepted (L : Lib) (pub : Bytes) (raw : Bytes) : Option Packet :=
  match unpack L raw with
  | .error _ => none
  | .ok pkt =>
    match verifyPacket L pkt pub with
    | .ok true => some pkt
    | _ => none

theorem accepted_eq_some {pub raw : Bytes} {pkt : Packet} :
    accepted L pub raw = some pkt ↔
      unpack L raw = .ok pkt ∧ verifyPacket L pkt pub = .ok true := by
  unfold accepted
  constructor
  · intro h
    split at h
    · cases h
    · rename_i p hu
      split at h
      · rename_i hv
        cases h
        exact ⟨hu,hv⟩
      · cases h
  · rintro ⟨hu,hv⟩
    simp only [hu,hv]

theorem accepted_of_signed (hp : L.PackLaws) (hs : L.SigLaws) {kp : SigningKeypair L}
    {pkt signed : Packet} {frame : Bytes} (hsign : signPacket L pkt kp = .ok signed)
    (hpack : pack L signed = .ok frame) : accepted L kp.pub frame = some signed :=
  accepted_eq_some.mpr ⟨unpack_pack_signed hp hsign hpack,verifyPacket_signPacket hs hsign⟩

/-- Four texts, and bytes for the payload and the signature. -/
def Packet.WellTyped (pkt : Packet) : Prop :=
  ∃ id type fromAddr toAddr payload sig, pkt.id = .str id ∧ pkt.type = .str type ∧
    pkt.fromAddr = .str fromAddr ∧ pkt.toAddr = .str toAddr ∧ pkt.payload = .bin payload ∧
    pkt.sig = .bin sig

theorem signData_wellTyped {pkt : Packet} (h : pkt.WellTyped) : ∃ m, pkt.signData L = .ok m := by
  obtain ⟨id,type,fromAddr,toAddr,payload,sig,h1,h2,h3,h4,h5,_⟩ := h
  unfold Packet.signData
  rw [h1,h2,h3,h4,h5]
  exact ⟨_,rfl⟩

/-- With a proper key, checking a packet raises exactly if it is signed but not
well typed. -/
theorem verifyPacket_ok_iff {pub : Bytes} (hpub : L.edKeyOk pub = true) (pkt : Packet) :
    (∃ valid, verifyPacket L pkt pub = .ok valid) ↔
      pkt.sig.truthy = false ∨ pkt.WellTyped := by
  unfold verifyPacket
  cases ht : pkt.sig.truthy with
  | false => simp [pure,Except.pure]
  | true =>
    simp only [Bool.not_true,Bool.false_eq_true,if_false,bind,Except.bind,reduceCtorEq,false_or]
    cases hm : pkt.signData L with
    | error e =>
      constructor
      · rintro ⟨valid,hv⟩
        cases hv
      · intro hw
        obtain ⟨m,hm'⟩ := signData_wellTyped (L := L) hw
        rw [hm] at hm'
        cases hm'
    | ok m =>
      obtain ⟨id,type,fromAddr,toAddr,payload,h1,h2,h3,h4,h5⟩ := signData_ok hm
      simp only [verify,hpub,if_true]
      constructor
      · rintro ⟨valid,hv⟩
        cases hs : pkt.sig with
        | bin sig => exact ⟨id,type,fromAddr,toAddr,payload,sig,h1,h2,h3,h4,h5,hs⟩
        | _ => simp [hs] at hv
      · rintro ⟨_,_,_,_,_,sig,_,_,_,_,_,hs⟩
        rw [hs]
        exact ⟨_,rfl⟩

/-- The frames that can be checked: maps that carry no signature, or texts and
bytes where these belong. -/
theorem readable_iff {pub : Bytes} (hpub : L.edKeyOk pub = true) (raw : Bytes) :
    Readable L pub raw ↔
      ∃ pkt, unpack L raw = .ok pkt ∧ (pkt.sig.truthy = false ∨ pkt.WellTyped) := by
  constructor
  · rintro ⟨pkt,valid,hu,hv⟩
    exact ⟨pkt,hu,(verifyPacket_ok_iff hpub pkt).mp ⟨valid,hv⟩⟩
  · rintro ⟨pkt,hu,hw⟩
    obtain ⟨valid,hv⟩ := (verifyPacket_ok_iff hpub pkt).mpr hw
    exact ⟨pkt,valid,hu,hv⟩

theorem exists_unreadable {pub : Bytes} {frames : List Bytes}
    (h : ¬ ∀ raw ∈ frames, Readable L pub raw) :
    ∃ pre raw post, frames = pre ++ raw :: post ∧ (∀ r ∈ pre, Readable L pub r) ∧
      ¬ Readable L pub raw := by
  induction frames with
  | nil => exact absurd (fun _ hr => absurd hr List.not_mem_nil) h
  | cons raw frames ih =>
    by_cases hraw : Readable L pub raw
    · have hrest : ¬ ∀ r ∈ frames, Readable L pub r :=
        fun hall => h (List.forall_mem_cons.mpr ⟨hraw,hall⟩)
      obtain ⟨pre,bad,post,rfl,hpre,hbad⟩ := ih hrest
      exact ⟨raw :: pre,bad,post,rfl,List.forall_mem_cons.mpr ⟨hraw,hpre⟩,hbad⟩
    · exact ⟨[],raw,frames,rfl,by simp,hraw⟩

/-- The exceptions of msgpack are not those of the socket. -/
def Lib.UnpackErrs (L : Lib) : Prop := ∀ data, L.unpackb data ≠ .error .connectionClosed

theorem signData_error {pkt : Packet} : pkt.signData L ≠ .error .connectionClosed := by
  have hencode : ∀ v : Val, v.encode ≠ .error .connectionClosed := by
    intro v
    cases v <;> simp [Val.encode]
  unfold Packet.signData
  cases hid : pkt.id.encode with
  | error e =>
    rintro ⟨rfl⟩
    exact hencode _ hid
  | ok id => cases hty : pkt.type.encode with
    | error e =>
      rintro ⟨rfl⟩
      exact hencode _ hty
    | ok type => cases hfr : pkt.fromAddr.encode with
      | error e =>
        rintro ⟨rfl⟩
        exact hencode _ hfr
      | ok fromAddr => cases hto : pkt.toAddr.encode with
        | error e =>
          rintro ⟨rfl⟩
          exact hencode _ hto
        | ok toAddr => cases hpl : pkt.payload <;> simp [Val.asBin,bind,Except.bind,pure,Except.pure]

theorem verifyPacket_error {pkt : Packet} {pub : Bytes} :
    verifyPacket L pkt pub ≠ .error .connectionClosed := by
  unfold verifyPacket
  split
  · simp [pure,Except.pure]
  · cases hm : pkt.signData L with
    | error e =>
      rintro ⟨rfl⟩
      exact signData_error hm
    | ok m =>
      unfold verify
      simp only [bind,Except.bind]
      split
      · split
        · simp
        · simp
      · simp

theorem unpack_error (he : L.UnpackErrs) (raw : Bytes) :
    unpack L raw ≠ .error .connectionClosed := by
  unfold unpack
  cases hd : L.unpackb raw with
  | error e =>
    rintro ⟨rfl⟩
    exact he raw hd
  | ok d => cases d <;> simp [Packet.ofDict,Val.get,bind,Except.bind,pure,Except.pure]

instance (op : StoreOp) : Nonempty op.Result := by
  cases op <;> first | exact ⟨()⟩ | exact ⟨none⟩ | exact ⟨([] : List _)⟩

instance (q : Req) : Nonempty (Ans q) := by
  cases q with
  | store op => exact (inferInstance : Nonempty op.Result)
  | connGet _ | wsRecv _ => exact ⟨none⟩
  | dial _ _ | accept => exact ⟨.error .connectionClosed⟩
  | wsSend _ _ | onMessage _ => exact ⟨.ok ()⟩
  | connAdd _ | connRemove _ | startRecv _ _ | endRecv _ => exact ⟨()⟩
  | stamp => exact ⟨⟨"",0⟩⟩
  | time => exact ⟨(0 : Int)⟩
  | sample _ _ => exact ⟨([] : List Nat)⟩
  | sealRandom => exact ⟨SealRandom.zero⟩

namespace Transport

/-- `_recv_loop` on the frames that come before the socket is closed, cleanly or
with an exception. -/
def recvLoop (L : Lib) (onPacket : Packet → PeerConnection → NodeProg Unit)
    (conn : PeerConnection) (frames : List Bytes) (clean : Bool) : NodeProg Unit :=
  let body : NodeProg Unit := do
    Prog.forEach frames (handleFrame L onPacket conn)
    Prog.ofExcept (if clean then .ok () else .error .connectionClosed)
  (body.rescue (fun e => if e = .connectionClosed then pure () else Prog.raise e)).ensure
    (NodeProg.connRemove conn.peerNodeId)

/-- The handler is called once and in order for precisely the valid packets,
nothing it raises gets out, and the loop ends when the socket does. -/
def Exact (L : Lib) (onPacket : Packet → PeerConnection → NodeProg Unit)
    (conn : PeerConnection) (frames : List Bytes) (clean : Bool) : Prop :=
  recvLoop L onPacket conn frames clean = do
    Prog.forEach (frames.filterMap (accepted L conn.peerSigningPubkey))
      (fun pkt => (onPacket pkt conn).rescue (fun _ => pure ()))
    NodeProg.connRemove conn.peerNodeId

section Frames

variable {onPacket : Packet → PeerConnection → NodeProg Unit} {conn : PeerConnection}

theorem handleFrame_readable {raw : Bytes} (h : Readable L conn.peerSigningPubkey raw) :
    handleFrame L onPacket conn raw = (accepted L conn.peerSigningPubkey raw).elim (.ret ())
      (fun pkt => (onPacket pkt conn).rescue (fun _ => .ret ())) := by
  obtain ⟨pkt,valid,hu,hv⟩ := h
  unfold handleFrame accepted
  simp only [hu,hv,Prog.bind_eq,Prog.ofExcept_ok,Prog.bind_ret]
  cases valid <;> rfl

theorem handleFrame_unreadable (he : L.UnpackErrs)
    (onPacket : Packet → PeerConnection → NodeProg Unit) {raw : Bytes}
    (h : ¬ Readable L conn.peerSigningPubkey raw) :
    ∃ e, e ≠ .connectionClosed ∧ handleFrame L onPacket conn raw = .raise e := by
  unfold handleFrame
  cases hu : unpack L raw with
  | error e =>
    refine ⟨e,?_,rfl⟩
    rintro rfl
    exact unpack_error he raw hu
  | ok pkt =>
    cases hv : verifyPacket L pkt conn.peerSigningPubkey with
    | error e =>
      refine ⟨e,?_,by simp only [Prog.bind_eq,Prog.ofExcept_ok,Prog.bind_ret,hv]; rfl⟩
      rintro rfl
      exact verifyPacket_error hv
    | ok valid => exact absurd ⟨pkt,valid,hu,hv⟩ h

theorem forEach_readable {frames : List Bytes}
    (h : ∀ raw ∈ frames, Readable L conn.peerSigningPubkey raw) :
    Prog.forEach frames (handleFrame L onPacket conn) =
      Prog.forEach (frames.filterMap (accepted L conn.peerSigningPubkey))
        (fun pkt => (onPacket pkt conn).rescue (fun _ => .ret ())) :=
  Prog.forEach_filterMap (fun raw hraw => handleFrame_readable (h raw hraw))

theorem safe_handlers (pkts : List Packet) :
    (Prog.forEach pkts (fun pkt => (onPacket pkt conn).rescue (fun _ => .ret ()))).Safe :=
  Prog.Safe.forEach (fun _ => Prog.safe_rescue (fun _ => trivial))

/-- What the loop does once the frames that can be checked are done. -/
theorem recvLoop_append (onPacket : Packet → PeerConnection → NodeProg Unit)
    {pre : List Bytes} (post : List Bytes) (clean : Bool)
    (h : ∀ raw ∈ pre, Readable L conn.peerSigningPubkey raw) :
    recvLoop L onPacket conn (pre ++ post) clean =
      (Prog.forEach (pre.filterMap (accepted L conn.peerSigningPubkey))
        (fun pkt => (onPacket pkt conn).rescue (fun _ => .ret ()))).bind
        (fun _ => recvLoop L onPacket conn post clean) := by
  unfold recvLoop
  simp only [Prog.bind_eq,Prog.forEach_append,forEach_readable h,Prog.bind_assoc]
  rw [(safe_handlers _).rescue_bind,(safe_handlers _).ensure_bind]

theorem recvLoop_nil (clean : Bool) :
    recvLoop L onPacket conn [] clean = NodeProg.connRemove conn.peerNodeId := by
  cases clean <;> rfl

theorem exact_of_readable {frames : List Bytes} (clean : Bool)
    (h : ∀ raw ∈ frames, Readable L conn.peerSigningPubkey raw) :
    Exact L onPacket conn frames clean := by
  have ha := recvLoop_append onPacket [] clean h
  rw [List.append_nil,recvLoop_nil] at ha
  exact ha

theorem recvLoop_unreadable (he : L.UnpackErrs)
    (onPacket : Packet → PeerConnection → NodeProg Unit) {raw : Bytes} (post : List Bytes)
    (clean : Bool)
    (h : ¬ Readable L conn.peerSigningPubkey raw) :
    ∃ e, recvLoop L onPacket conn (raw :: post) clean =
      (NodeProg.connRemove conn.peerNodeId).bind (fun _ => .raise e) := by
  obtain ⟨e,hne,hraise⟩ := handleFrame_unreadable he onPacket h
  refine ⟨e,?_⟩
  unfold recvLoop
  simp only [Prog.bind_eq,Prog.forEach_cons,hraise,Prog.bind_raise,Prog.rescue_raise,if_neg hne,
    Prog.ensure_raise]

theorem not_exact_of_unreadable (he : L.UnpackErrs) (pre post : List Bytes) {raw : Bytes}
    (clean : Bool) (hpre : ∀ raw ∈ pre, Readable L conn.peerSigningPubkey raw)
    (h : ¬ Readable L conn.peerSigningPubkey raw) :
    ¬ Exact L onPacket conn (pre ++ raw :: post) clean := by
  intro hexact
  obtain ⟨e,hends⟩ := recvLoop_unreadable he onPacket post clean h
  have hsafe : (recvLoop L onPacket conn (pre ++ raw :: post) clean).Safe := by
    rw [hexact]
    exact (safe_handlers _).bind (fun _ _ => trivial)
  rw [recvLoop_append onPacket _ clean hpre,hends] at hsafe
  obtain ⟨_,hs⟩ := (safe_handlers _).of_bind hsafe
  exact hs ()

/-- The loop does what it should on all frames if and only if checking none of
them raises. -/
theorem recvLoop_exact_iff (he : L.UnpackErrs)
    (onPacket : Packet → PeerConnection → NodeProg Unit) (conn : PeerConnection)
    (frames : List Bytes) (clean : Bool) :
    Exact L onPacket conn frames clean ↔
      ∀ raw ∈ frames, Readable L conn.peerSigningPubkey raw := by
  constructor
  · intro hexact
    by_contra hall
    obtain ⟨pre,raw,post,rfl,hpre,hbad⟩ := exists_unreadable hall
    exact not_exact_of_unreadable he pre post clean hpre hbad hexact
  · exact exact_of_readable clean

end Frames

end Transport

namespace CellClient

/-- `_recv_loop` on the frames that come before the socket is closed: the calls of
`on_message`, and the client then. The `n`-th call is the next; what ends the loop
early clears the socket. -/
def recvLoop (self : CellClient L) (callback : Nat → Val → Bytes → Except Err Unit) :
    Nat → List Bytes → List (Val × Bytes) × CellClient L
  | _, [] => ([],self)
  | n, raw :: frames =>
    match self.receive raw with
    | .error _ => ([],{ self with ws := none })
    | .ok none => recvLoop self callback n frames
    | .ok (some (pkt,plaintext)) =>
      match callback n pkt.fromAddr plaintext with
      | .error _ => ([(pkt.fromAddr,plaintext)],{ self with ws := none })
      | .ok _ =>
        ((pkt.fromAddr,plaintext) :: (recvLoop self callback (n+1) frames).1,
          (recvLoop self callback (n+1) frames).2)

/-- The sender and the text of a frame that is a validly signed MSG and decrypts
under the cell's key. -/
def heard (self : CellClient L) (raw : Bytes) : Option (Val × Bytes) :=
  match accepted L self.nodeSigningPubkey raw with
  | none => none
  | some pkt =>
    if pkt.type.eqStr T.msg then
      match self.openPayload pkt with
      | .ok plaintext => some (pkt.fromAddr,plaintext)
      | .error _ => none
    else none

/-- The callback is invoked once and in order for every message, and the client
is still connected. -/
def Undisturbed (self : CellClient L) (callback : Nat → Val → Bytes → Except Err Unit)
    (n : Nat) (frames : List Bytes) : Prop :=
  self.recvLoop callback n frames = (frames.filterMap self.heard,self)

/-- No invocation of the callback raises. -/
def NeverRaises (callback : Nat → Val → Bytes → Except Err Unit) (n : Nat)
    (calls : List (Val × Bytes)) : Prop :=
  ∀ k fromAddr plaintext, calls[k]? = some (fromAddr,plaintext) →
    callback (n+k) fromAddr plaintext = .ok ()

section Frames

variable {self : CellClient L} {callback : Nat → Val → Bytes → Except Err Unit}

theorem neverRaises_cons {n : Nat} {fromAddr : Val} {plaintext : Bytes}
    {calls : List (Val × Bytes)} :
    NeverRaises callback n ((fromAddr,plaintext) :: calls) ↔
      callback n fromAddr plaintext = .ok () ∧ NeverRaises callback (n+1) calls := by
  constructor
  · intro h
    refine ⟨h 0 fromAddr plaintext rfl,fun k a p hk => ?_⟩
    have := h (k+1) a p (by simpa using hk)
    rwa [show n + 1 + k = n + (k+1) by omega]
  · rintro ⟨hhead,htail⟩ k a p hk
    cases k with
    | zero =>
      simp only [List.getElem?_cons_zero,Option.some.injEq,Prod.mk.injEq] at hk
      obtain ⟨rfl,rfl⟩ := hk
      exact hhead
    | succ k =>
      have := htail k a p (by simpa using hk)
      rwa [show n + 1 + k = n + (k+1) by omega] at this

/-- Nothing but the check of a frame raises before the callback is reached. -/
theorem receive_readable {raw : Bytes} (h : Readable L self.nodeSigningPubkey raw) :
    ∃ r, self.receive raw = .ok r ∧
      (self.onMessage = true → r.map (fun x => (x.1.fromAddr,x.2)) = self.heard raw) := by
  obtain ⟨pkt,valid,hu,hv⟩ := h
  unfold receive heard accepted
  simp only [hu,hv,bind,Except.bind]
  cases valid with
  | false => exact ⟨none,rfl,fun _ => rfl⟩
  | true =>
    cases hty : pkt.type.eqStr T.msg with
    | false => exact ⟨none,rfl,fun _ => by simp [hty]⟩
    | true =>
      simp only [Bool.not_true,Bool.false_eq_true,if_false,if_true,handleMsg,hty]
      cases ho : self.openPayload pkt with
      | ok plaintext =>
        refine ⟨_,rfl,fun hm => ?_⟩
        simp [hm]
      | error e =>
        -- the log call slices `from_addr`, which is a text here
        obtain ⟨m,_,hs,_⟩ := verifyPacket_true hv
        obtain ⟨_,_,fromAddr,_,_,_,_,hfrom,_⟩ := signData_ok hs
        simp only [hfrom,Val.slice,pure,Except.pure,bind,Except.bind]
        exact ⟨none,rfl,fun _ => rfl⟩

theorem receive_unreadable {raw : Bytes} (h : ¬ Readable L self.nodeSigningPubkey raw) :
    ∃ e, self.receive raw = .error e := by
  unfold receive
  cases hu : unpack L raw with
  | error e => exact ⟨e,rfl⟩
  | ok pkt =>
    cases hv : verifyPacket L pkt self.nodeSigningPubkey with
    | error e => exact ⟨e,by simp [hv,bind,Except.bind]⟩
    | ok valid => exact absurd ⟨pkt,valid,hu,hv⟩ h

theorem recvLoop_goes_on (hcb : ∀ n fromAddr plaintext, callback n fromAddr plaintext = .ok ())
    (n : Nat) {frames : List Bytes} (h : ∀ raw ∈ frames, Readable L self.nodeSigningPubkey raw) :
    (self.recvLoop callback n frames).2 = self := by
  induction frames generalizing n with
  | nil => rfl
  | cons raw frames ih =>
    obtain ⟨hraw,hframes⟩ := List.forall_mem_cons.mp h
    obtain ⟨r,hrec,_⟩ := receive_readable hraw
    cases r with
    | none =>
      simp only [recvLoop,hrec]
      exact ih n hframes
    | some x =>
      simp only [recvLoop,hrec,hcb]
      exact ih (n+1) hframes

/-- The client hears everything and stays connected if and only if checking a
frame never raises and neither does the callback. -/
theorem recvLoop_undisturbed_iff (hm : self.onMessage = true) (hw : self.ws ≠ none) (n : Nat)
    (frames : List Bytes) :
    self.Undisturbed callback n frames ↔
      (∀ raw ∈ frames, Readable L self.nodeSigningPubkey raw) ∧
        NeverRaises callback n (frames.filterMap self.heard) := by
  have hgone : ∀ calls calls' : List (Val × Bytes),
      (calls,{ self with ws := none }) ≠ (calls',self) := by
    intro calls calls' he
    exact hw (congrArg (fun x => x.2.ws) he).symm
  induction frames generalizing n with
  | nil => simp [Undisturbed,recvLoop,NeverRaises]
  | cons raw frames ih =>
    simp only [Undisturbed,recvLoop] at ih ⊢
    by_cases hr : Readable L self.nodeSigningPubkey raw
    · obtain ⟨r,hrec,hheard⟩ := receive_readable hr
      rw [List.forall_mem_cons,and_iff_right hr,hrec,List.filterMap_cons,← hheard hm]
      cases r with
      | none => exact ih n
      | some x =>
        obtain ⟨pkt,plaintext⟩ := x
        simp only [Option.map_some,neverRaises_cons]
        cases hc : callback n pkt.fromAddr plaintext with
        | error e => simp [hgone]
        | ok u =>
          simp only [Prod.mk.injEq,List.cons.injEq,true_and]
          exact Prod.ext_iff.symm.trans (ih (n+1))
    · obtain ⟨e,he⟩ := receive_unreadable hr
      simp [he,hgone,hr]

end Frames

end CellClient

theorem sampleLib_unpackErrs (digest : Bytes → Bytes) : (sampleLib digest).UnpackErrs := by
  intro data
  change Msgpack.unpackb data ≠ _
  unfold Msgpack.unpackb
  split <;> simp

/-- A byte that starts no msgpack value. -/
def junk : Bytes := [0xc1]

theorem unreadable_junk (pub : Bytes) : ¬ Readable shortSigLib pub junk := by
  rintro ⟨pkt,valid,hu,_⟩
  have herr : (unpack shortSigLib junk).isOk = false := by decide +kernel
  rw [hu] at herr
  cases herr

/-- The frame that was sent, if any. -/
def frameOf : Except Err (Packet × Bytes) → Bytes
  | .ok (_,frame) => frame
  | .error _ => []

/-- A message as its sender puts it on the socket. -/
def sentFrame : Bytes :=
  frameOf ((sampleCells.sender ()).send ⟨"m",0⟩ SealRandom.zero sampleCells.receiver.cellId
    sampleCells.node.id sampleCells.receiver.identity.encryption.pub (utf8 "hi"))

theorem inbound_sentFrame : sampleCells.Inbound () sentFrame (utf8 "hi") := by
  obtain ⟨pkt,frame,hsend⟩ := Cells.sampleClient_sends
  have hf : sentFrame = frame := congrArg frameOf hsend
  rw [hf]
  exact Cells.inbound_send (sampleLib_packLaws digest32) shortSigLib_sigLaws
    (sampleLib_sealLaws digest32) hsend

theorem accepted_sentFrame :
    ∃ pkt, accepted shortSigLib (sampleConn 2 2).peerSigningPubkey sentFrame = some pkt := by
  obtain ⟨pkt,hu,hv,_⟩ := inbound_sentFrame
  exact ⟨pkt,accepted_eq_some.mpr ⟨hu,hv⟩⟩

theorem recvLoop_exact_sample :
    Transport.Exact shortSigLib (fun pkt _ => NodeProg.onMessage pkt) (sampleConn 2 2)
      [sentFrame,sentFrame] true ↔
    ∀ raw ∈ [sentFrame,sentFrame], Readable shortSigLib (sampleConn 2 2).peerSigningPubkey raw :=
  Transport.recvLoop_exact_iff (sampleLib_unpackErrs digest32) _ _ _ _

/-- The valid frame after the junk is not read any more. -/
theorem junk_ends_loop :
    (∃ pkt, accepted shortSigLib (sampleConn 2 2).peerSigningPubkey sentFrame = some pkt) ∧
    (∃ e, Transport.recvLoop shortSigLib (fun pkt _ => NodeProg.onMessage pkt) (sampleConn 2 2)
      [junk,sentFrame] true =
        (NodeProg.connRemove (sampleConn 2 2).peerNodeId).bind (fun _ => .raise e)) ∧
    ¬ Transport.Exact shortSigLib (fun pkt _ => NodeProg.onMessage pkt) (sampleConn 2 2)
      [junk,sentFrame] true :=
  ⟨accepted_sentFrame,
    Transport.recvLoop_unreadable (sampleLib_unpackErrs digest32) _ _ _ (unreadable_junk _),
    Transport.not_exact_of_unreadable (sampleLib_unpackErrs digest32) [] _ _ (by simp)
      (unreadable_junk _)⟩

theorem exists_relayed : ∃ raw pkt,
    (sampleClient 3).receive raw = .ok (some (pkt,utf8 "hi")) := by
  obtain ⟨pkt,_,_,hc⟩ := inbound_sentFrame
  obtain ⟨signed,frame,_,out,hr,_⟩ := Cells.outbound_wireForm (sampleLib_packLaws digest32)
    shortSigLib_sigLaws hc
  exact ⟨frame,out,hr⟩

theorem recvLoop_undisturbed_sample :
    (sampleClient 3).Undisturbed (fun _ _ _ => .ok ()) 0 [sentFrame] ↔
      (∀ raw ∈ [sentFrame], Readable shortSigLib (sampleClient 3).nodeSigningPubkey raw) ∧
        CellClient.NeverRaises (fun _ _ _ => .ok ()) 0
          ([sentFrame].filterMap (sampleClient 3).heard) :=
  CellClient.recvLoop_undisturbed_iff rfl (by decide) 0 [sentFrame]

/-- The callback raises on the first of two messages: the second one is not heard
and the client is no longer connected. -/
theorem callback_ends_loop : ∃ (raw : Bytes) (pkt : Packet),
    [raw,raw].filterMap (sampleClient 3).heard = [(pkt.fromAddr,utf8 "hi"),(pkt.fromAddr,utf8 "hi")] ∧
    (sampleClient 3).recvLoop (fun n _ _ => if n = 0 then .error (.other "callback") else .ok ()) 0
      [raw,raw] = ([(pkt.fromAddr,utf8 "hi")],{ sampleClient 3 with ws := none }) ∧
    ¬ (sampleClient 3).Undisturbed
      (fun n _ _ => if n = 0 then .error (.other "callback") else .ok ()) 0 [raw,raw] := by
  obtain ⟨raw,pkt,hr⟩ := exists_relayed
  obtain ⟨hu,hv,hty,ho⟩ := CellClient.receive_some hr
  have hheard : (sampleClient 3).heard raw = some (pkt.fromAddr,utf8 "hi") := by
    simp only [CellClient.heard,accepted_eq_some.mpr ⟨hu,hv⟩,Val.eqStr_iff.mpr hty,if_true,ho]
  have hloop : (sampleClient 3).recvLoop
      (fun n _ _ => if n = 0 then .error (.other "callback") else .ok ()) 0 [raw,raw] =
      ([(pkt.fromAddr,utf8 "hi")],{ sampleClient 3 with ws := none }) := by
    simp only [CellClient.recvLoop,hr,if_true]
  refine ⟨raw,pkt,by simp [hheard],hloop,?_⟩
  intro h
  have hlen := congrArg (fun x => x.1.length) (hloop.symm.trans h)
  simp [hheard] at hlen

end Nevod
