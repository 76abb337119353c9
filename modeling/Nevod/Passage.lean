import Nevod.Routing

/-!
What arrives of a packet that is passed on from node to node and waits in
buffers on the way.
-/

set_option autoImplicit false

namespace Nevod
open Text Resume Keyed

variable {L : Lib}

/-- One stretch of a packet's way: from a node to the next one, or in and out of
the buffer of a node. -/
inductive Leg (L : Lib) where
  | forward (self : Node L)
  | buffer

namespace Leg

/-- `q` is what comes out if `p` goes in. A row that is found in the buffer under
the key of the message is the one that was inserted. -/
def Passes : Leg L → Packet → Packet → Prop
  | .forward self,p,q => ∃ signed frame, Transport.wireForm self p = .ok (signed,frame) ∧
      unpack L frame = .ok q ∧ verifyPacket L q self.identity.signing.pub = .ok true
  | .buffer,p,q => ∃ (s : Storage) (now later : Int) (k : SqlText) (cellId home : String)
      (payload : Bytes) (r : BufferedMessage) (p' : Packet),
      Resigned p p' ∧ serializePacket L p' = .ok payload ∧ s.messageBuffer.find k = none ∧
      r ∈ ((s.exec now (.bufferMessage k cellId home payload)).2.exec later
        (.getBuffered cellId)).1 ∧
      r.messageId = k ∧ deserializePacket L r.payload = some q

def buffers : Leg L → Bool
  | .forward _ => false
  | .buffer => true

theorem passes_of_forwards {self : Node L} {conn : PeerConnection} {p q : Packet} {frame : Bytes}
    (h : Router.Forwards self p (.wsSend conn frame)) (hu : unpack L frame = .ok q)
    (hv : verifyPacket L q self.identity.signing.pub = .ok true) :
    (Leg.forward self).Passes p q := by
  obtain ⟨signed,hw⟩ := h
  exact ⟨signed,frame,hw,hu,hv⟩

theorem passes_of_buffers {s : Storage} {now later : Int} {k : SqlText} {cellId home : String}
    {p q : Packet} {payload : Bytes} {r : BufferedMessage}
    (h : Router.Buffers L p (.store (.bufferMessage k cellId home payload)))
    (hk : s.messageBuffer.find k = none)
    (hr : r ∈ ((s.exec now (.bufferMessage k cellId home payload)).2.exec later
      (.getBuffered cellId)).1)
    (hid : r.messageId = k) (hd : deserializePacket L r.payload = some q) :
    (Leg.buffer : Leg L).Passes p q := by
  obtain ⟨_,_,p',hp,hs⟩ := h
  exact ⟨s,now,later,k,cellId,home,payload,r,p',hp,hs,hk,hr,hid,hd⟩

theorem forward_resigned (hp : L.PackLaws) {self : Node L} {p q : Packet}
    (h : (Leg.forward self).Passes p q) : Resigned p q := by
  obtain ⟨signed,frame,hw,hu,_⟩ := h
  obtain ⟨hread,hres⟩ := unpack_wireForm hp hw
  rw [hread] at hu
  cases hu
  exact hres

theorem payload_of_mem {s : Storage} {now later : Int} {k : SqlText} {cellId home : String}
    {payload : Bytes} {r : BufferedMessage} (hk : s.messageBuffer.find k = none)
    (hr : r ∈ ((s.exec now (.bufferMessage k cellId home payload)).2.exec later
      (.getBuffered cellId)).1) (hid : r.messageId = k) : r.payload = payload := by
  have hmem := ((Storage.mem_getBuffered _ _ _ r).mp hr).1
  simp only [Storage.exec,Storage.bufferMessage,Table.mem_insertIgnore] at hmem
  rcases hmem with hmem | ⟨rfl,_⟩
  · exact absurd hid (s.messageBuffer.find_eq_none.mp hk r hmem)
  · rfl

/-- The version is not written into the buffer. -/
theorem buffer_version (hp : L.PackLaws) {p q : Packet} {b : Bytes} (hb : p.payload = .bin b)
    (h : (Leg.buffer : Leg L).Passes p q) : Resigned { p with v := .int protoVersion } q := by
  obtain ⟨s,now,later,k,cellId,home,payload,r,p',⟨s',rfl⟩,hs,hk,hr,hid,hd⟩ := h
  rw [payload_of_mem hk hr hid,deserialize_serialize hp hs] at hd
  cases hd
  exact ⟨s'.orEmpty,by simp [hb]⟩

theorem packable_serialized {p : Packet} (h : p.toDict.packable packDepth = true) :
    (Val.map [(.str "type",p.type),(.str "id",p.id),(.str "from",p.fromAddr),(.str "to",p.toAddr),
      (.str "payload",p.payload),(.str "sig",p.sig),(.str "ts",p.ts)]).packable packDepth = true := by
  simp only [packDepth,Packet.toDict,Val.packable,List.all_cons,List.all_nil,
    Bool.and_eq_true] at h ⊢
  simp_all

theorem packable_v {p : Packet} (h : p.toDict.packable packDepth = true) (v : Int)
    (hv : -2^63 ≤ v ∧ v < 2^64) :
    ({ p with v := .int v } : Packet).toDict.packable packDepth = true := by
  simp only [packDepth,Packet.toDict,Val.packable,List.all_cons,List.all_nil,
    Bool.and_eq_true] at h ⊢
  simp_all

theorem packable_orEmpty {p : Packet} (h : p.toDict.packable packDepth = true) :
    ({ p with payload := p.payload.orEmpty, sig := p.sig.orEmpty } : Packet).toDict.packable
      packDepth = true := by
  have hor : ∀ v : Val, v.packable 510 = true → v.orEmpty.packable 510 = true := by
    intro v hv
    unfold Val.orEmpty
    split
    · exact hv
    · rfl
  simp only [packDepth,Packet.toDict,Val.packable,List.all_cons,List.all_nil,
    Bool.and_eq_true] at h ⊢
  simp_all

theorem exists_passes (hp : L.PackLaws) (hv : L.SigLaws) {p : Packet} {m : Bytes}
    (hm : p.signData L = .ok m) (hpack : p.toDict.packable packDepth = true) (l : Leg L) :
    ∃ q, l.Passes p q ∧ q.signData L = .ok m ∧ q.toDict.packable packDepth = true := by
  obtain ⟨_,_,_,_,b,_,_,_,_,hb⟩ := signData_ok hm
  cases l with
  | forward self =>
    have hsign : signPacket L p self.identity.signing =
        .ok { p with sig := .bin (sign m self.identity.signing) } := by
      simp [signPacket,hm,bind,Except.bind,pure,Except.pure]
    have hsigned := packable_sig hpack (hv.length self.identity.signing.priv m)
    obtain ⟨frame,hf⟩ := hp.packb_ok _ hsigned
    exact ⟨_,⟨_,frame,wireForm_of_ok hsign hf,unpack_pack_signed hp hsign hf,
      verifyPacket_signPacket hv hsign⟩,hm,hsigned⟩
  | buffer =>
    obtain ⟨payload,hs⟩ := hp.packb_ok _ (packable_serialized hpack)
    have hq := packable_orEmpty (packable_v hpack protoVersion (by decide))
    refine ⟨_,⟨Storage.empty,0,0,.text "","","",payload,⟨.text "","","",payload,0,ttlMessageSecs⟩,p,
      Resigned.refl p,hs,rfl,?_,rfl,deserialize_serialize hp hs⟩,?_,hq⟩
    · simp [Storage.mem_getBuffered,Storage.exec,Storage.bufferMessage,Table.mem_insertIgnore,
        Storage.empty,ttlMessageSecs]
    · simpa [Packet.signData,hb] using hm

end Leg

/-- The packet goes all the way. -/
inductive Travels : List (Leg L) → Packet → Packet → Prop where
  | arrived (p : Packet) : Travels [] p p
  | leg {l : Leg L} {path : List (Leg L)} {p q r : Packet} (h : l.Passes p q)
      (ht : Travels path q r) : Travels (l :: path) p r

namespace Travels

/-- Only the signature and the version change, and the version only in a buffer. -/
theorem fields (hp : L.PackLaws) {path : List (Leg L)} {p q : Packet} {b : Bytes}
    (hb : p.payload = .bin b) (h : Travels path p q) :
    Resigned { p with v := if path.any Leg.buffers then .int protoVersion else p.v } q := by
  induction h with
  | arrived p => exact Resigned.refl p
  | @leg l path p q r hl ht ih =>
    cases l with
    | forward self =>
      obtain ⟨s,rfl⟩ := Leg.forward_resigned hp hl
      obtain ⟨s',hr⟩ := ih hb
      exact ⟨s',by simpa [Leg.buffers] using hr⟩
    | buffer =>
      obtain ⟨s,rfl⟩ := Leg.buffer_version hp hb hl
      obtain ⟨s',hr⟩ := ih hb
      exact ⟨s',by simpa [Leg.buffers] using hr⟩

/-- A packet arrives as it was, up to its signature, unless it had another version
than this program's and was buffered on the way. -/
theorem transparent_iff (hp : L.PackLaws) {path : List (Leg L)} {p q : Packet} {b : Bytes}
    (hb : p.payload = .bin b) (h : Travels path p q) :
    Resigned p q ↔ p.v = .int protoVersion ∨ ∀ l ∈ path, l.buffers = false := by
  obtain ⟨s,rfl⟩ := h.fields hp hb
  have hv : Resigned p { p with v := if path.any Leg.buffers then .int protoVersion else p.v, sig := s } ↔
      p.v = if path.any Leg.buffers then .int protoVersion else p.v := by
    constructor
    · rintro ⟨s',he⟩
      exact (congrArg Packet.v he).symm
    · intro he
      exact ⟨s,by rw [← he]⟩
  rw [hv]
  by_cases hany : path.any Leg.buffers = true
  · simp only [hany,if_true]
    constructor
    · exact .inl
    · rintro (hv | hnone)
      · exact hv
      · obtain ⟨l,hl,hbuf⟩ := List.any_eq_true.mp hany
        rw [hnone l hl] at hbuf
        cases hbuf
  · simp only [hany,Bool.false_eq_true,if_false,true_iff]
    refine .inr (fun l hl => ?_)
    by_contra hbuf
    exact hany (List.any_eq_true.mpr ⟨l,hl,by simpa using hbuf⟩)

theorem exists_travels (hp : L.PackLaws) (hv : L.SigLaws) {p : Packet} {m : Bytes}
    (hm : p.signData L = .ok m) (hpack : p.toDict.packable packDepth = true)
    (path : List (Leg L)) : ∃ q, Travels path p q := by
  induction path generalizing p with
  | nil => exact ⟨p,.arrived p⟩
  | cons l path ih =>
    obtain ⟨q,hq,hmq,hpq⟩ := Leg.exists_passes hp hv hm hpack l
    obtain ⟨r,hr⟩ := ih hmq hpq
    exact ⟨r,.leg hq hr⟩

end Travels

/-- A message of protocol version `v`. -/
def versionedPacket (v : Int) : Packet :=
  { samplePacket "c@n" with v := .int v }

/-- To a node, into a buffer and out of it, and on to another one. -/
def bufferedWay : List (Leg shortSigLib) :=
  [.forward (sampleNode false),.buffer,.forward (sampleNode false)]

theorem exists_travels_sample (v : Int) (hv : -2^63 ≤ v ∧ v < 2^64) :
    ∃ q, Travels bufferedWay (versionedPacket v) q := by
  exact Travels.exists_travels (sampleLib_packLaws digest32) shortSigLib_sigLaws rfl
    (Leg.packable_v (p := samplePacket "c@n") (by decide) v hv) bufferedWay

theorem transparent_iff_sample : ∃ q, Travels bufferedWay (versionedPacket 1) q ∧
    (Resigned (versionedPacket 1) q ↔ (versionedPacket 1).v = .int protoVersion ∨
      ∀ l ∈ bufferedWay, l.buffers = false) := by
  obtain ⟨q,hq⟩ := exists_travels_sample 1 (by decide)
  exact ⟨q,hq,Travels.transparent_iff (sampleLib_packLaws digest32) rfl hq⟩

/-- A packet of version 2 comes out of the buffer as one of version 1. -/
theorem version_replaced : ∃ q, Travels bufferedWay (versionedPacket 2) q ∧ q.v = .int 1 ∧
    ¬ Resigned (versionedPacket 2) q := by
  obtain ⟨q,hq⟩ := exists_travels_sample 2 (by decide)
  obtain ⟨s,rfl⟩ := hq.fields (sampleLib_packLaws digest32) rfl
  refine ⟨_,hq,rfl,?_⟩
  rintro ⟨s',he⟩
  have hv : Val.int 1 = .int 2 := congrArg Packet.v he
  cases hv

end Nevod
