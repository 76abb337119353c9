import Nevod.External
import Mathlib.Tactic.IntervalCases

/-!
A codec for the msgpack format, with the shortest header for every value as the
packer of the `msgpack` package writes it. It shows that the laws asked of the
packing functions can be met.
-/

set_option autoImplicit false

namespace Nevod.Msgpack
open Text

/-- The `w` low bytes of `n`, the most significant first. -/
def be : Nat → Nat → Bytes
  | 0, _ => []
  | w+1, n => be w (n/256) ++ [UInt8.ofNat n]

def ofBe (b : Bytes) : Nat := b.foldl (fun acc x => 256*acc + x.toNat) 0

@[simp] theorem length_be (w n : Nat) : (be w n).length = w := by
  induction w generalizing n with
  | zero => rfl
  | succ w ih => simp [be,ih]

theorem ofBe_be {w n : Nat} (h : n < 256^w) : ofBe (be w n) = n := by
  induction w generalizing n with
  | zero =>
    have h0 : n = 0 := by simpa using h
    rw [h0]
    rfl
  | succ w ih =>
    have hd : n/256 < 256^w := Nat.div_lt_of_lt_mul (by rw [Nat.pow_succ] at h; omega)
    have hq := ih hd
    simp only [ofBe] at hq
    have hb : (UInt8.ofNat n).toNat = n%256 := by simp
    simp only [ofBe,be,List.foldl_append,List.foldl_cons,List.foldl_nil,hq,hb]
    omega

/-- The first `n` bytes and the rest. -/
def takeBytes (n : Nat) (b : Bytes) : Option (Bytes × Bytes) :=
  if n ≤ b.length then some (b.take n,b.drop n) else none

theorem takeBytes_append (b rest : Bytes) : takeBytes b.length (b ++ rest) = some (b,rest) := by
  simp [takeBytes]

/-- What stands before the contents of a value. -/
inductive Head where
  | nil
  | bool (b : Bool)
  | int (n : Int)
  | float (bits : UInt64)
  | str (len : Nat)
  | bin (len : Nat)
  | arr (len : Nat)
  | map (len : Nat)
  | ext (len : Nat) (code : UInt8)

/-- The first width that holds `n`, under consecutive tags. -/
def putSized (tag : Nat) : List Nat → Nat → Option Bytes
  | [], _ => none
  | w :: ws, n =>
    if n < 256^w then some (UInt8.ofNat tag :: be w n) else putSized (tag+1) ws n

def getSized (w : Nat) (b : Bytes) : Option (Nat × Bytes) :=
  (takeBytes w b).map (fun x => (ofBe x.1,x.2))

theorem getSized_be {w n : Nat} (h : n < 256^w) (rest : Bytes) :
    getSized w (be w n ++ rest) = some (n,rest) := by
  have ht := takeBytes_append (be w n) rest
  rw [length_be] at ht
  simp [getSized,ht,ofBe_be h]

theorem putSized_some {tag : Nat} {ws : List Nat} {n : Nat} {b : Bytes}
    (h : putSized tag ws n = some b) :
    ∃ i w, ws[i]? = some w ∧ n < 256^w ∧ b = UInt8.ofNat (tag+i) :: be w n := by
  induction ws generalizing tag with
  | nil => cases h
  | cons w ws ih =>
    unfold putSized at h
    by_cases hn : n < 256^w
    · rw [if_pos hn] at h
      cases h
      exact ⟨0,w,rfl,hn,rfl⟩
    · rw [if_neg hn] at h
      obtain ⟨i,v,hv,hlt,hb⟩ := ih h
      exact ⟨i+1,v,hv,hlt,by rw [hb,show tag+1+i = tag+(i+1) by omega]⟩

theorem putSized_isSome {tag : Nat} {ws : List Nat} {n w : Nat} (hw : w ∈ ws)
    (hn : n < 256^w) : (putSized tag ws n).isSome := by
  induction ws generalizing tag with
  | nil => cases hw
  | cons v ws ih =>
    unfold putSized
    by_cases hv : n < 256^v
    · simp [hv]
    · rw [if_neg hv]
      rcases List.mem_cons.mp hw with rfl | hw
      · exact absurd hn hv
      · exact ih hw

/-- A negative number in the first width that holds it. -/
def putNeg (tag : Nat) : List Nat → Nat → Option Bytes
  | [], _ => none
  | w :: ws, k =>
    if 2*k ≤ 256^w then some (UInt8.ofNat tag :: be w (256^w-k)) else putNeg (tag+1) ws k

theorem putNeg_some {tag : Nat} {ws : List Nat} {k : Nat} {b : Bytes}
    (h : putNeg tag ws k = some b) :
    ∃ i w, ws[i]? = some w ∧ 2*k ≤ 256^w ∧ b = UInt8.ofNat (tag+i) :: be w (256^w-k) := by
  induction ws generalizing tag with
  | nil => cases h
  | cons w ws ih =>
    unfold putNeg at h
    by_cases hn : 2*k ≤ 256^w
    · rw [if_pos hn] at h
      cases h
      exact ⟨0,w,rfl,hn,rfl⟩
    · rw [if_neg hn] at h
      obtain ⟨i,v,hv,hlt,hb⟩ := ih h
      exact ⟨i+1,v,hv,hlt,by rw [hb,show tag+1+i = tag+(i+1) by omega]⟩

theorem putNeg_isSome {tag : Nat} {ws : List Nat} {k w : Nat} (hw : w ∈ ws)
    (hk : 2*k ≤ 256^w) : (putNeg tag ws k).isSome := by
  induction ws generalizing tag with
  | nil => cases hw
  | cons v ws ih =>
    unfold putNeg
    by_cases hv : 2*k ≤ 256^v
    · simp [hv]
    · rw [if_neg hv]
      rcases List.mem_cons.mp hw with rfl | hw
      · exact absurd hk hv
      · exact ih hw

def putHead : Head → Option Bytes
  | .nil => some [0xc0]
  | .bool false => some [0xc2]
  | .bool true => some [0xc3]
  | .float bits => some (0xcb :: be 8 bits.toNat)
  | .int (.ofNat n) =>
    if n < 128 then some [UInt8.ofNat n] else putSized 0xcc [1,2,4,8] n
  | .int (.negSucc m) =>
    if m < 32 then some [UInt8.ofNat (255-m)] else putNeg 0xd0 [1,2,4,8] (m+1)
  | .str n => if n < 32 then some [UInt8.ofNat (0xa0+n)] else putSized 0xd9 [1,2,4] n
  | .bin n => putSized 0xc4 [1,2,4] n
  | .arr n => if n < 16 then some [UInt8.ofNat (0x90+n)] else putSized 0xdc [2,4] n
  | .map n => if n < 16 then some [UInt8.ofNat (0x80+n)] else putSized 0xde [2,4] n
  | .ext len code =>
    match len with
    | 1 => some [0xd4,code]
    | 2 => some [0xd5,code]
    | 4 => some [0xd6,code]
    | 8 => some [0xd7,code]
    | 16 => some [0xd8,code]
    | n => (putSized 0xc7 [1,2,4] n).map (· ++ [code])

def getExt (len : Nat) : Bytes → Option (Head × Bytes)
  | [] => none
  | code :: rest => some (.ext len code,rest)

def getSigned (w : Nat) (b : Bytes) : Option (Head × Bytes) :=
  (getSized w b).map (fun x => (.int (if 2*x.1 < 256^w then x.1 else x.1-256^w),x.2))

def getHead : Bytes → Option (Head × Bytes)
  | [] => none
  | tag :: rest =>
    let t := tag.toNat
    if t < 0x80 then some (.int t,rest)
    else if t < 0x90 then some (.map (t-0x80),rest)
    else if t < 0xa0 then some (.arr (t-0x90),rest)
    else if t < 0xc0 then some (.str (t-0xa0),rest)
    else if 0xe0 ≤ t then some (.int (t-256),rest)
    else match t with
      | 0xc0 => some (.nil,rest)
      | 0xc2 => some (.bool false,rest)
      | 0xc3 => some (.bool true,rest)
      | 0xc4 => (getSized 1 rest).map (fun x => (.bin x.1,x.2))
      | 0xc5 => (getSized 2 rest).map (fun x => (.bin x.1,x.2))
      | 0xc6 => (getSized 4 rest).map (fun x => (.bin x.1,x.2))
      | 0xc7 => (getSized 1 rest).bind (fun x => getExt x.1 x.2)
      | 0xc8 => (getSized 2 rest).bind (fun x => getExt x.1 x.2)
      | 0xc9 => (getSized 4 rest).bind (fun x => getExt x.1 x.2)
      | 0xcb => (getSized 8 rest).map (fun x => (.float (UInt64.ofNat x.1),x.2))
      | 0xcc => (getSized 1 rest).map (fun x => (.int x.1,x.2))
      | 0xcd => (getSized 2 rest).map (fun x => (.int x.1,x.2))
      | 0xce => (getSized 4 rest).map (fun x => (.int x.1,x.2))
      | 0xcf => (getSized 8 rest).map (fun x => (.int x.1,x.2))
      | 0xd0 => getSigned 1 rest
      | 0xd1 => getSigned 2 rest
      | 0xd2 => getSigned 4 rest
      | 0xd3 => getSigned 8 rest
      | 0xd4 => getExt 1 rest
      | 0xd5 => getExt 2 rest
      | 0xd6 => getExt 4 rest
      | 0xd7 => getExt 8 rest
      | 0xd8 => getExt 16 rest
      | 0xd9 => (getSized 1 rest).map (fun x => (.str x.1,x.2))
      | 0xda => (getSized 2 rest).map (fun x => (.str x.1,x.2))
      | 0xdb => (getSized 4 rest).map (fun x => (.str x.1,x.2))
      | 0xdc => (getSized 2 rest).map (fun x => (.arr x.1,x.2))
      | 0xdd => (getSized 4 rest).map (fun x => (.arr x.1,x.2))
      | 0xde => (getSized 2 rest).map (fun x => (.map x.1,x.2))
      | 0xdf => (getSized 4 rest).map (fun x => (.map x.1,x.2))
      | _ => none

theorem getSigned_be {w k : Nat} (h : 2*k ≤ 256^w) (hk : 0 < k) (rest : Bytes) :
    getSigned w (be w (256^w-k) ++ rest) = some (.int (-k),rest) := by
  have hlt : 256^w-k < 256^w := by omega
  have hge : ¬ 2*(256^w-k) < 256^w := by omega
  have hle : k ≤ 256^w := by omega
  simp only [getSigned,getSized_be hlt,Option.map_some,if_neg hge]
  push_cast [hle]
  simp

theorem lt_of_widths {ws : List Nat} {i w k : Nat} (h : ws[i]? = some w)
    (hl : ws.length = k) : i < k := by
  rw [← hl]
  exact (List.getElem?_eq_some_iff.mp h).1

theorem toNat_ofNat {n : Nat} (h : n < 256) : (UInt8.ofNat n).toNat = n := by
  simp only [UInt8.toNat_ofNat']
  omega

theorem getHead_fixint {n : Nat} (h : n < 128) (rest : Bytes) :
    getHead (UInt8.ofNat n :: rest) = some (.int n,rest) := by
  simp only [getHead,toNat_ofNat (show n < 256 by omega)]
  rw [if_pos h]

theorem getHead_negative {m : Nat} (h : m < 32) (rest : Bytes) :
    getHead (UInt8.ofNat (255-m) :: rest) = some (.int (.negSucc m),rest) := by
  have hv : ((255-m : Nat) : Int)-256 = .negSucc m := by omega
  simp only [getHead,toNat_ofNat (show 255-m < 256 by omega)]
  rw [if_neg (by omega),if_neg (by omega),if_neg (by omega),if_neg (by omega),
    if_pos (by omega),hv]

theorem getHead_fixmap {n : Nat} (h : n < 16) (rest : Bytes) :
    getHead (UInt8.ofNat (0x80+n) :: rest) = some (.map n,rest) := by
  simp only [getHead,toNat_ofNat (show 0x80+n < 256 by omega)]
  rw [if_neg (by omega),if_pos (by omega),Nat.add_sub_cancel_left]

theorem getHead_fixarr {n : Nat} (h : n < 16) (rest : Bytes) :
    getHead (UInt8.ofNat (0x90+n) :: rest) = some (.arr n,rest) := by
  simp only [getHead,toNat_ofNat (show 0x90+n < 256 by omega)]
  rw [if_neg (by omega),if_neg (by omega),if_pos (by omega),Nat.add_sub_cancel_left]

theorem getHead_fixstr {n : Nat} (h : n < 32) (rest : Bytes) :
    getHead (UInt8.ofNat (0xa0+n) :: rest) = some (.str n,rest) := by
  simp only [getHead,toNat_ofNat (show 0xa0+n < 256 by omega)]
  rw [if_neg (by omega),if_neg (by omega),if_neg (by omega),if_pos (by omega),
    Nat.add_sub_cancel_left]

theorem getHead_putHead {h : Head} {b : Bytes} (hb : putHead h = some b) (rest : Bytes) :
    getHead (b ++ rest) = some (h,rest) := by
  cases h with
  | nil => cases hb; rfl
  | bool x => cases x <;> cases hb <;> rfl
  | float bits =>
    cases hb
    have hs := getSized_be (w := 8) (n := bits.toNat) bits.toNat_lt rest
    simp [getHead,hs]
  | int n =>
    cases n with
    | ofNat n =>
      simp only [putHead] at hb
      by_cases hn : n < 128
      · simp only [hn,if_true,Option.some.injEq] at hb
        rw [← hb]
        exact getHead_fixint hn rest
      · simp only [hn,if_false] at hb
        obtain ⟨i,w,hi,hlt,rfl⟩ := putSized_some hb
        have hil : i < 4 := lt_of_widths hi rfl
        have hs := getSized_be hlt rest
        interval_cases i <;> cases hi <;> simp [getHead,hs]
    | negSucc m =>
      simp only [putHead] at hb
      by_cases hm : m < 32
      · simp only [hm,if_true,Option.some.injEq] at hb
        rw [← hb]
        exact getHead_negative hm rest
      · simp only [hm,if_false] at hb
        obtain ⟨i,w,hi,hle,rfl⟩ := putNeg_some hb
        have hil : i < 4 := lt_of_widths hi rfl
        have hs := getSigned_be hle (Nat.succ_pos m) rest
        have hv : (-((m+1 : Nat) : Int)) = .negSucc m := rfl
        rw [hv] at hs
        interval_cases i <;> cases hi <;> simpa [getHead] using hs
  | str n =>
    simp only [putHead] at hb
    by_cases hn : n < 32
    · simp only [hn,if_true,Option.some.injEq] at hb
      rw [← hb]
      exact getHead_fixstr hn rest
    · simp only [hn,if_false] at hb
      obtain ⟨i,w,hi,hlt,rfl⟩ := putSized_some hb
      have hil : i < 3 := lt_of_widths hi rfl
      have hs := getSized_be hlt rest
      interval_cases i <;> cases hi <;> simp [getHead,hs]
  | bin n =>
    simp only [putHead] at hb
    obtain ⟨i,w,hi,hlt,rfl⟩ := putSized_some hb
    have hil : i < 3 := lt_of_widths hi rfl
    have hs := getSized_be hlt rest
    interval_cases i <;> cases hi <;> simp [getHead,hs]
  | arr n =>
    simp only [putHead] at hb
    by_cases hn : n < 16
    · simp only [hn,if_true,Option.some.injEq] at hb
      rw [← hb]
      exact getHead_fixarr hn rest
    · simp only [hn,if_false] at hb
      obtain ⟨i,w,hi,hlt,rfl⟩ := putSized_some hb
      have hil : i < 2 := lt_of_widths hi rfl
      have hs := getSized_be hlt rest
      interval_cases i <;> cases hi <;> simp [getHead,hs]
  | map n =>
    simp only [putHead] at hb
    by_cases hn : n < 16
    · simp only [hn,if_true,Option.some.injEq] at hb
      rw [← hb]
      exact getHead_fixmap hn rest
    · simp only [hn,if_false] at hb
      obtain ⟨i,w,hi,hlt,rfl⟩ := putSized_some hb
      have hil : i < 2 := lt_of_widths hi rfl
      have hs := getSized_be hlt rest
      interval_cases i <;> cases hi <;> simp [getHead,hs]
  | ext len code =>
    simp only [putHead] at hb
    split at hb
    case h_6 =>
      obtain ⟨b',hb',rfl⟩ := Option.map_eq_some_iff.mp hb
      obtain ⟨i,w,hi,hlt,rfl⟩ := putSized_some hb'
      have hil : i < 3 := lt_of_widths hi rfl
      have hs := getSized_be hlt (code :: rest)
      interval_cases i <;> cases hi <;> simp [getHead,hs,getExt]
    all_goals
      cases hb
      rfl

def readMany {α : Type} (read : Bytes → Option (α × Bytes)) :
    Nat → Bytes → Option (List α × Bytes)
  | 0, b => some ([],b)
  | n+1, b =>
    match read b with
    | none => none
    | some (x,rest) => (readMany read n rest).map (fun r => (x :: r.1,r.2))

def keyOf : Val → Option MapKey
  | .str s => some (.str s)
  | .bin b => some (.bin b)
  | _ => none

@[simp] theorem keyOf_toVal (k : MapKey) : keyOf k.toVal = some k := by
  cases k <;> rfl

/-- A key and its value, each read by `read`. -/
def readEntry (read : Bytes → Option (Val × Bytes)) (b : Bytes) :
    Option ((MapKey × Val) × Bytes) :=
  match read b with
  | none => none
  | some (k,rest) =>
    match keyOf k with
    | none => none
    | some key => (read rest).map (fun r => ((key,r.1),r.2))

def framed (h : Head) (body : Bytes) : Option Bytes := (putHead h).map (· ++ body)

def encodeAll {α : Type} (enc : α → Option Bytes) : List α → Option Bytes
  | [] => some []
  | x :: xs =>
    match enc x with
    | none => none
    | some b => (encodeAll enc xs).map (b ++ ·)

def encodeEntry (enc : Val → Option Bytes) (e : MapKey × Val) : Option Bytes :=
  match enc e.1.toVal with
  | none => none
  | some k => (enc e.2).map (k ++ ·)

def encode : Nat → Val → Option Bytes
  | 0, _ => none
  | _+1, .none => putHead .nil
  | _+1, .bool b => putHead (.bool b)
  | _+1, .int n => putHead (.int n)
  | _+1, .float bits => putHead (.float bits)
  | _+1, .str s => framed (.str (utf8 s).length) (utf8 s)
  | _+1, .bin b => framed (.bin b.length) b
  | d+1, .arr items => (encodeAll (encode d) items).bind (framed (.arr items.length))
  | d+1, .map entries =>
    (encodeAll (encodeEntry (encode d)) entries).bind (framed (.map entries.length))
  | _+1, .ext code data =>
    if 0 ≤ code ∧ code < 128 then framed (.ext data.length (UInt8.ofNat code.toNat)) data
    else none

def decodeBody (read : Bytes → Option (Val × Bytes)) : Head × Bytes → Option (Val × Bytes)
  | (.nil,rest) => some (.none,rest)
  | (.bool b,rest) => some (.bool b,rest)
  | (.int n,rest) => some (.int n,rest)
  | (.float bits,rest) => some (.float bits,rest)
  | (.str n,rest) =>
    (takeBytes n rest).bind (fun r => (String.fromUTF8? r.1.toByteArray).map (fun s => (.str s,r.2)))
  | (.bin n,rest) => (takeBytes n rest).map (fun r => (.bin r.1,r.2))
  | (.arr n,rest) => (readMany read n rest).map (fun r => (.arr r.1,r.2))
  | (.map n,rest) => (readMany (readEntry read) n rest).map (fun r => (.map r.1,r.2))
  | (.ext n code,rest) =>
    (takeBytes n rest).map (fun r =>
      (.ext (if code.toNat < 128 then code.toNat else code.toNat-256) r.1,r.2))

def decode : Nat → Bytes → Option (Val × Bytes)
  | 0, _ => none
  | d+1, b => (getHead b).bind (decodeBody (decode d))

theorem fromUTF8_utf8 (s : String) : String.fromUTF8? (utf8 s).toByteArray = some s := by
  rw [utf8_eq_toByteArray]
  have h : s.toByteArray.IsValidUTF8 := s.isValidUTF8
  simp [String.fromUTF8?,h,String.fromUTF8]

theorem readMany_encodeAll {α : Type} {read : Bytes → Option (α × Bytes)}
    {enc : α → Option Bytes} {xs : List α}
    (h : ∀ x ∈ xs, ∀ b, enc x = some b → ∀ rest, read (b ++ rest) = some (x,rest))
    {b : Bytes} (hb : encodeAll enc xs = some b) (rest : Bytes) :
    readMany read xs.length (b ++ rest) = some (xs,rest) := by
  induction xs generalizing b with
  | nil =>
    cases hb
    rfl
  | cons x xs ih =>
    unfold encodeAll at hb
    cases hx : enc x with
    | none => simp [hx] at hb
    | some bx =>
      simp only [hx,Option.map_eq_some_iff] at hb
      obtain ⟨bs,hbs,rfl⟩ := hb
      have hread := h x (by simp) bx hx (bs ++ rest)
      have htail := ih (fun y hy => h y (by simp [hy])) hbs
      simp [readMany,hread,htail]

theorem readEntry_encodeEntry {read : Bytes → Option (Val × Bytes)}
    {enc : Val → Option Bytes}
    (h : ∀ v b, enc v = some b → ∀ rest, read (b ++ rest) = some (v,rest))
    {e : MapKey × Val} {b : Bytes} (hb : encodeEntry enc e = some b) (rest : Bytes) :
    readEntry read (b ++ rest) = some (e,rest) := by
  unfold encodeEntry at hb
  cases hk : enc e.1.toVal with
  | none => simp [hk] at hb
  | some bk =>
    simp only [hk,Option.map_eq_some_iff] at hb
    obtain ⟨bv,hbv,rfl⟩ := hb
    have hkey := h _ _ hk (bv ++ rest)
    have hval := h _ _ hbv rest
    simp [readEntry,hkey,hval]

theorem decode_framed {read : Nat → Bytes → Option (Val × Bytes)} {d : Nat} {hd : Head}
    {body b : Bytes} (hb : framed hd body = some b) (rest : Bytes) :
    (getHead (b ++ rest)).bind (decodeBody (read d)) =
      decodeBody (read d) (hd,body ++ rest) := by
  obtain ⟨hh,hput,rfl⟩ := Option.map_eq_some_iff.mp hb
  rw [List.append_assoc,getHead_putHead hput]
  rfl

/-- A value is read back from its encoding, whatever follows it. -/
theorem decode_encode {d e : Nat} (hde : d ≤ e) {v : Val} {b : Bytes}
    (hb : encode d v = some b) (rest : Bytes) : decode e (b ++ rest) = some (v,rest) := by
  induction d generalizing e v b rest with
  | zero => cases hb
  | succ d ih =>
    obtain ⟨e,rfl⟩ : ∃ e', e = e'+1 := ⟨e-1,by omega⟩
    have hrec : ∀ v b, encode d v = some b → ∀ rest, decode e (b ++ rest) = some (v,rest) :=
      fun v b hv rest => ih (by omega) hv rest
    cases v with
    | none => simp [decode,getHead_putHead hb,decodeBody]
    | bool x => simp [decode,getHead_putHead hb,decodeBody]
    | int n => simp [decode,getHead_putHead hb,decodeBody]
    | float bits => simp [decode,getHead_putHead hb,decodeBody]
    | str s =>
      rw [decode,decode_framed hb]
      simp [decodeBody,takeBytes_append,fromUTF8_utf8]
    | bin x =>
      rw [decode,decode_framed hb]
      simp [decodeBody,takeBytes_append]
    | arr items =>
      obtain ⟨body,hbody,hf⟩ := Option.bind_eq_some_iff.mp hb
      rw [decode,decode_framed hf]
      have hmany := readMany_encodeAll (fun x _ => hrec x) hbody rest
      simp [decodeBody,hmany]
    | map entries =>
      obtain ⟨body,hbody,hf⟩ := Option.bind_eq_some_iff.mp hb
      rw [decode,decode_framed hf]
      have hmany := readMany_encodeAll
        (fun x _ _ hx rest => readEntry_encodeEntry hrec hx rest) hbody rest
      simp [decodeBody,hmany]
    | ext code data =>
      simp only [encode] at hb
      by_cases hc : 0 ≤ code ∧ code < 128
      · rw [if_pos hc] at hb
        have ht := toNat_ofNat (show code.toNat < 256 by omega)
        have hlt : code.toNat < 128 := by omega
        rw [decode,decode_framed hb]
        simp [decodeBody,takeBytes_append,hlt,ht]
        omega
      · rw [if_neg hc] at hb
        cases hb

theorem framed_isSome {h : Head} (hs : (putHead h).isSome) (body : Bytes) :
    (framed h body).isSome := by
  simpa [framed] using hs

theorem encodeAll_isSome {α : Type} {enc : α → Option Bytes} {xs : List α}
    (h : ∀ x ∈ xs, (enc x).isSome) : (encodeAll enc xs).isSome := by
  induction xs with
  | nil => rfl
  | cons x xs ih =>
    obtain ⟨b,hb⟩ := Option.isSome_iff_exists.mp (h x (by simp))
    have hxs := ih (fun y hy => h y (by simp [hy]))
    simp [encodeAll,hb,hxs]

theorem encodeEntry_isSome {enc : Val → Option Bytes} {e : MapKey × Val}
    (hk : (enc e.1.toVal).isSome) (hv : (enc e.2).isSome) : (encodeEntry enc e).isSome := by
  obtain ⟨b,hb⟩ := Option.isSome_iff_exists.mp hk
  simp [encodeEntry,hb,hv]

theorem putHead_int_isSome {n : Int} (h1 : -2^63 ≤ n) (h2 : n < 2^64) :
    (putHead (.int n)).isSome := by
  cases n with
  | ofNat n =>
    simp only [putHead]
    by_cases hn : n < 128
    · simp [hn]
    · rw [if_neg hn]
      exact putSized_isSome (w := 8) (by simp) (by norm_num at h2 ⊢; omega)
  | negSucc m =>
    simp only [putHead]
    by_cases hm : m < 32
    · simp [hm]
    · rw [if_neg hm]
      exact putNeg_isSome (w := 8) (by simp) (by norm_num at h1 ⊢; omega)

/-- Lengths below `2^32` have a header in each of the sized families. -/
theorem putHead_len_isSome {n : Nat} (h : n < 2^32) (code : UInt8) :
    (putHead (.str n)).isSome ∧ (putHead (.bin n)).isSome ∧ (putHead (.arr n)).isSome ∧
      (putHead (.map n)).isSome ∧ (putHead (.ext n code)).isSome := by
  have hw : n < 256^4 := by omega
  have h4 : ∀ tag, (putSized tag [1,2,4] n).isSome :=
    fun tag => putSized_isSome (w := 4) (by simp) hw
  have h2 : ∀ tag, (putSized tag [2,4] n).isSome :=
    fun tag => putSized_isSome (w := 4) (by simp) hw
  refine ⟨?_,h4 _,?_,?_,?_⟩
  · by_cases hn : n < 32 <;> simp [putHead,hn,h4]
  · by_cases hn : n < 16 <;> simp [putHead,hn,h2]
  · by_cases hn : n < 16 <;> simp [putHead,hn,h2]
  · simp only [putHead]
    split
    case h_6 => simp [h4]
    all_goals rfl

theorem encode_isSome {d : Nat} {v : Val} (h : v.packable d = true) : (encode d v).isSome := by
  induction d generalizing v with
  | zero => simp [Val.packable] at h
  | succ d ih =>
    cases v with
    | none => rfl
    | bool b => cases b <;> rfl
    | float bits => rfl
    | int n =>
      have hn : -2^63 ≤ n ∧ n < 2^64 := by simpa [Val.packable] using h
      exact putHead_int_isSome hn.1 hn.2
    | str s =>
      have hl : (utf8 s).length < 2^32 := by simpa [Val.packable] using h
      exact framed_isSome (putHead_len_isSome hl 0).1 _
    | bin b =>
      have hl : b.length < 2^32 := by simpa [Val.packable] using h
      exact framed_isSome (putHead_len_isSome hl 0).2.1 _
    | arr items =>
      simp only [Val.packable,Bool.and_eq_true,decide_eq_true_eq,List.all_eq_true] at h
      obtain ⟨body,hbody⟩ := Option.isSome_iff_exists.mp
        (encodeAll_isSome (fun x hx => ih (h.2 x hx)))
      simp only [encode,hbody,Option.bind_some]
      exact framed_isSome (putHead_len_isSome h.1 0).2.2.1 _
    | map entries =>
      simp only [Val.packable,Bool.and_eq_true,decide_eq_true_eq,List.all_eq_true] at h
      obtain ⟨body,hbody⟩ := Option.isSome_iff_exists.mp
        (encodeAll_isSome (fun e he => encodeEntry_isSome (ih (h.2 e he).1) (ih (h.2 e he).2)))
      simp only [encode,hbody,Option.bind_some]
      exact framed_isSome (putHead_len_isSome h.1 0).2.2.2.1 _
    | ext code data =>
      have hc : 0 ≤ code ∧ code < 128 ∧ data.length < 2^32 := by simpa [Val.packable] using h
      simp only [encode,if_pos (And.intro hc.1 hc.2.1)]
      exact framed_isSome (putHead_len_isSome hc.2.2 _).2.2.2.2 _

theorem putSized_bound {tag w : Nat} {ws : List Nat} {n : Nat} (hws : ∀ v ∈ ws, v ≤ w)
    (h : (putSized tag ws n).isSome) : n < 256^w := by
  obtain ⟨b,hb⟩ := Option.isSome_iff_exists.mp h
  obtain ⟨i,v,hv,hn,_⟩ := putSized_some hb
  have hle := hws v (List.mem_of_getElem? hv)
  exact lt_of_lt_of_le hn (Nat.pow_le_pow_right (by omega) hle)

theorem putNeg_bound {tag w : Nat} {ws : List Nat} {k : Nat} (hws : ∀ v ∈ ws, v ≤ w)
    (h : (putNeg tag ws k).isSome) : 2*k ≤ 256^w := by
  obtain ⟨b,hb⟩ := Option.isSome_iff_exists.mp h
  obtain ⟨i,v,hv,hn,_⟩ := putNeg_some hb
  have hle := hws v (List.mem_of_getElem? hv)
  exact le_trans hn (Nat.pow_le_pow_right (by omega) hle)

/-- What a header can announce. -/
def Head.InRange : Head → Prop
  | .int n => -2^63 ≤ n ∧ n < 2^64
  | .str n | .bin n | .arr n | .map n | .ext n _ => n < 2^32
  | _ => True

theorem putHead_inRange {h : Head} (hs : (putHead h).isSome) : h.InRange := by
  have h4 : ∀ v ∈ [1,2,4], v ≤ 4 := by simp
  have h2 : ∀ v ∈ [2,4], v ≤ 4 := by simp
  cases h with
  | nil => trivial
  | bool b => trivial
  | float bits => trivial
  | int n =>
    simp only [Head.InRange]
    cases n with
    | ofNat n =>
      rw [Int.ofNat_eq_natCast]
      by_cases hn : n < 128
      · omega
      · rw [putHead,if_neg hn] at hs
        have hb := putSized_bound (w := 8) (by simp) hs
        omega
    | negSucc m =>
      by_cases hm : m < 32
      · omega
      · rw [putHead,if_neg hm] at hs
        have hb := putNeg_bound (w := 8) (by simp) hs
        omega
  | str n =>
    simp only [Head.InRange]
    by_cases hn : n < 32
    · omega
    · rw [putHead,if_neg hn] at hs
      exact putSized_bound h4 hs
  | bin n => exact putSized_bound h4 hs
  | arr n =>
    simp only [Head.InRange]
    by_cases hn : n < 16
    · omega
    · rw [putHead,if_neg hn] at hs
      exact putSized_bound h2 hs
  | map n =>
    simp only [Head.InRange]
    by_cases hn : n < 16
    · omega
    · rw [putHead,if_neg hn] at hs
      exact putSized_bound h2 hs
  | ext n code =>
    simp only [Head.InRange]
    simp only [putHead] at hs
    split at hs
    case h_6 => exact putSized_bound h4 (by simpa using hs)
    all_goals omega

theorem framed_inRange {h : Head} {body : Bytes} (hs : (framed h body).isSome) : h.InRange :=
  putHead_inRange (by simpa [framed] using hs)

theorem isSome_of_encodeAll {α : Type} {enc : α → Option Bytes} {xs : List α}
    (h : (encodeAll enc xs).isSome) : ∀ x ∈ xs, (enc x).isSome := by
  induction xs with
  | nil => simp
  | cons x xs ih =>
    intro y hy
    cases hx : enc x with
    | none => simp [encodeAll,hx] at h
    | some b =>
      simp only [encodeAll,hx,Option.isSome_map] at h
      rcases List.mem_cons.mp hy with rfl | hy
      · simp [hx]
      · exact ih h y hy

theorem isSome_of_encodeEntry {enc : Val → Option Bytes} {e : MapKey × Val}
    (h : (encodeEntry enc e).isSome) : (enc e.1.toVal).isSome ∧ (enc e.2).isSome := by
  cases hk : enc e.1.toVal with
  | none => simp [encodeEntry,hk] at h
  | some k =>
    simp only [encodeEntry,hk,Option.isSome_map] at h
    exact ⟨rfl,h⟩

theorem isSome_of_bind {α β : Type} {o : Option α} {f : α → Option β} (h : (o.bind f).isSome) :
    o.isSome ∧ ∃ a, (f a).isSome := by
  cases o with
  | none => simp at h
  | some a => exact ⟨rfl,a,h⟩

/-- Nothing else can be encoded. -/
theorem packable_of_encode {d : Nat} {v : Val} (h : (encode d v).isSome) :
    v.packable d = true := by
  induction d generalizing v with
  | zero => simp [encode] at h
  | succ d ih =>
    cases v with
    | none => rfl
    | bool b => rfl
    | float bits => rfl
    | int n =>
      have hr : -2^63 ≤ n ∧ n < 2^64 := putHead_inRange (h := .int n) h
      simpa [Val.packable] using hr
    | str s =>
      have hr : (utf8 s).length < 2^32 := framed_inRange h
      simpa [Val.packable] using hr
    | bin b =>
      have hr : b.length < 2^32 := framed_inRange h
      simpa [Val.packable] using hr
    | arr items =>
      obtain ⟨hall,body,hf⟩ := isSome_of_bind h
      have hr : items.length < 2^32 := framed_inRange hf
      have hitems := isSome_of_encodeAll hall
      simp only [Val.packable,Bool.and_eq_true,decide_eq_true_eq,List.all_eq_true]
      exact ⟨hr,fun x hx => ih (hitems x hx)⟩
    | map entries =>
      obtain ⟨hall,body,hf⟩ := isSome_of_bind h
      have hr : entries.length < 2^32 := framed_inRange hf
      have hentries := isSome_of_encodeAll hall
      simp only [Val.packable,Bool.and_eq_true,decide_eq_true_eq,List.all_eq_true]
      refine ⟨hr,fun e he => ?_⟩
      obtain ⟨hk,hv⟩ := isSome_of_encodeEntry (hentries e he)
      exact ⟨ih hk,ih hv⟩
    | ext code data =>
      by_cases hc : 0 ≤ code ∧ code < 128
      · rw [encode,if_pos hc] at h
        have hr : data.length < 2^32 := framed_inRange h
        simpa [Val.packable] using And.intro hc.1 (And.intro hc.2 hr)
      · rw [encode,if_neg hc] at h
        cases h

def packb (v : Val) : Except Err Bytes :=
  match encode packDepth v with
  | some b => .ok b
  | none => .error .packError

/-- Trailing bytes are refused. -/
def unpackb (b : Bytes) : Except Err Val :=
  match decode 1024 b with
  | some (v,[]) => .ok v
  | _ => .error .unpackError

theorem unpackb_packb {v : Val} {b : Bytes} (h : packb v = .ok b) : unpackb b = .ok v := by
  unfold packb at h
  cases he : encode packDepth v with
  | none => simp [he] at h
  | some b' =>
    simp only [he,Except.ok.injEq] at h
    subst h
    have hd := decode_encode (show packDepth ≤ 1024 by decide) he []
    rw [List.append_nil] at hd
    rw [unpackb,hd]

theorem packb_ok {v : Val} (h : v.packable packDepth = true) : ∃ b, packb v = .ok b := by
  obtain ⟨b,hb⟩ := Option.isSome_iff_exists.mp (encode_isSome h)
  exact ⟨b,by rw [packb,hb]⟩

theorem packable_of_packb {v : Val} {b : Bytes} (h : packb v = .ok b) :
    v.packable packDepth = true := by
  unfold packb at h
  cases he : encode packDepth v with
  | none => simp [he] at h
  | some b' => exact packable_of_encode (by rw [he]; rfl)

theorem length_putSized {tag n : Nat} {ws : List Nat} {b : Bytes} (hws : ∀ w ∈ ws, w ≤ 4)
    (h : putSized tag ws n = some b) : b.length ≤ 5 := by
  obtain ⟨i,w,hw,_,rfl⟩ := putSized_some h
  have hle := hws w (List.mem_of_getElem? hw)
  simp only [List.length_cons,length_be]
  omega

theorem length_putHead_str {n : Nat} {b : Bytes} (h : putHead (.str n) = some b) :
    b.length ≤ 5 := by
  simp only [putHead] at h
  split at h
  · cases h
    simp
  · exact length_putSized (by decide) h

theorem length_putHead_bin {n : Nat} {b : Bytes} (h : putHead (.bin n) = some b) :
    b.length ≤ 5 := by
  have hws : ∀ w ∈ [1,2,4], w ≤ 4 := by decide
  exact length_putSized hws h

theorem length_putHead_map {n : Nat} {b : Bytes} (h : putHead (.map n) = some b) :
    b.length ≤ 5 := by
  simp only [putHead] at h
  split at h
  · cases h
    simp
  · exact length_putSized (by decide) h

theorem length_framed {h : Head} {body b : Bytes} (hh : ∀ {hd}, putHead h = some hd → hd.length ≤ 5)
    (hb : framed h body = some b) : b.length ≤ 5 + body.length := by
  obtain ⟨hd,hhd,rfl⟩ := Option.map_eq_some_iff.mp hb
  have hle := hh hhd
  simp only [List.length_append]
  omega

theorem length_encode_str {d : Nat} {t : String} {b : Bytes}
    (h : encode (d+1) (.str t) = some b) : b.length ≤ 5 + (utf8 t).length :=
  length_framed length_putHead_str h

theorem length_encode_bin {d : Nat} {data b : Bytes} (h : encode (d+1) (.bin data) = some b) :
    b.length ≤ 5 + data.length :=
  length_framed length_putHead_bin h

end Nevod.Msgpack
