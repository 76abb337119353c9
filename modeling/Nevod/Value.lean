import Nevod.Lib.Text
import Mathlib.Algebra.Group.Int.Defs
import Mathlib.Algebra.Group.Nat.Defs

/-!
The dynamically typed values of the program: what `msgpack.unpackb(raw=False)`
can return, the exceptions the code distinguishes, and the few built-in
operations that are applied to values of unchecked type.
-/

set_option autoImplicit false

namespace Nevod
open Text

/-- The keys `unpackb` accepts in a map (`strict_map_key`). -/
inductive MapKey where
  | str (s : String)
  | bin (b : Bytes)
  deriving DecidableEq, Repr

/-- Lean strings are sequences of Unicode scalar values, which is what a strict
UTF-8 decoder returns. A map is a dict's entries in order. -/
inductive Val where
  | none
  | bool (b : Bool)
  | int (n : Int)
  | float (bits : UInt64)
  | str (s : String)
  | bin (b : Bytes)
  | arr (items : List Val)
  | map (entries : List (MapKey × Val))
  | ext (code : Int) (data : Bytes)

inductive Err where
  | connectionClosed
  | typeError
  | attributeError
  | keyError
  | valueError (msg : String)
  | runtimeError (msg : String)
  | invalidTag
  | packError
  | unpackError
  | sqlError
  | other (msg : String)
  deriving DecidableEq, Repr

theorem exists_of_bind {ε α β : Type} {x : Except ε α} {f : α → Except ε β} {b : β}
    (h : x.bind f = .ok b) : ∃ a, x = .ok a ∧ f a = .ok b := by
  cases x with
  | error e => cases h
  | ok a => exact ⟨a,rfl,h⟩

/-- Truth value of `v` in a condition. -/
def Val.truthy : Val → Bool
  | .none => false
  | .bool b => b
  | .int n => n != 0
  | .float bits => bits != 0 && bits != 0x8000000000000000
  | .str s => s != ""
  | .bin b => !b.isEmpty
  | .arr items => !items.isEmpty
  | .map entries => !entries.isEmpty
  | .ext _ _ => true

/-- `v or b""`. -/
def Val.orEmpty (v : Val) : Val := if v.truthy then v else .bin []

@[simp] theorem Val.orEmpty_bin (b : Bytes) : (Val.bin b).orEmpty = .bin b := by
  cases b <;> rfl

def MapKey.toVal : MapKey → Val
  | .str s => .str s
  | .bin b => .bin b

/-- The entry of `key`; were there several, the last one would win. -/
def Val.lookup (key : String) : List (MapKey × Val) → Option Val
  | [] => Option.none
  | (k,v) :: rest =>
    match Val.lookup key rest with
    | some w => some w
    | Option.none => if k = .str key then some v else Option.none

/-- `data[key]`. -/
def Val.item (data : Val) (key : String) : Except Err Val :=
  match data with
  | .map entries =>
    match Val.lookup key entries with
    | some v => .ok v
    | Option.none => .error .keyError
  | _ => .error .typeError

/-- `data.get(key, default)`. -/
def Val.get (data : Val) (key : String) (default : Val) : Except Err Val :=
  match data with
  | .map entries => .ok ((Val.lookup key entries).getD default)
  | _ => .error .attributeError

/-- `data == b` for a byte string `b`. -/
def Val.eqBin (b : Bytes) : Val → Bool
  | .bin d => d == b
  | _ => false

/-- `data == s` for a string `s`. -/
def Val.eqStr (s : String) : Val → Bool
  | .str t => t == s
  | _ => false

theorem Val.eqStr_iff {s : String} {v : Val} : v.eqStr s = true ↔ v = .str s := by
  cases v <;> simp [Val.eqStr]

theorem Val.eqBin_iff {b : Bytes} {v : Val} : v.eqBin b = true ↔ v = .bin b := by
  cases v <;> simp [Val.eqBin]

/-- Evaluating `v[:k]`, as the log calls do before the text is formatted. -/
def Val.slice : Val → Except Err Unit
  | .str _ | .bin _ | .arr _ | .ext _ _ => .ok ()
  | _ => .error .typeError

def Val.toByte : Val → Except Err UInt8
  | .int n =>
    if 0 ≤ n ∧ n < 256 then .ok (UInt8.ofNat n.toNat)
    else .error (.valueError "bytes must be in range(0, 256)")
  | .bool b => .ok (if b then 1 else 0)
  | _ => .error .typeError

def Val.toByteList : List Val → Except Err Bytes
  | [] => .ok []
  | v :: vs =>
    match v.toByte with
    | .error e => .error e
    | .ok b =>
      match Val.toByteList vs with
      | .error e => .error e
      | .ok bs => .ok (b :: bs)

/-- `bytes(v)`: an integer gives that many zero bytes, an iterable of small
integers gives those bytes. The keys of a map are never integers. -/
def Val.toBytes : Val → Except Err Bytes
  | .bin b => .ok b
  | .int n => if 0 ≤ n then .ok (List.replicate n.toNat 0) else .error (.valueError "negative count")
  | .bool b => .ok (if b then [0] else [])
  | .arr items => Val.toByteList items
  | .map [] => .ok []
  | _ => .error .typeError

/-- `for x in v`. -/
def Val.iter : Val → Except Err (List Val)
  | .arr items => .ok items
  | .map entries => .ok (entries.map (fun e => e.1.toVal))
  | .str s => .ok (s.toList.map (fun c => .str (String.singleton c)))
  | .bin b => .ok (b.map (fun x => .int x.toNat))
  | .ext code data => if code = -1 then .error .typeError else .ok [.int code,.bin data]
  | _ => .error .typeError

/-- `str(v)`, where `repr` supplies the texts of floats and containers. -/
def Val.pyStr (repr : Val → String) : Val → String
  | .none => "None"
  | .bool true => "True"
  | .bool false => "False"
  | .int n => toString n
  | .str s => s
  | v => repr v

/-- A value as a column of TEXT affinity stores and compares it. -/
inductive SqlText where
  | text (s : String)
  | blob (b : Bytes)
  deriving DecidableEq, Repr

/-- Binding a Python value as a statement parameter and applying TEXT affinity:
`none` is SQL NULL. `realText` is SQLite's text of a REAL (NaN binds as NULL). -/
def SqlText.ofVal (realText : UInt64 → Option String) : Val → Except Err (Option SqlText)
  | .none => .ok Option.none
  | .bool b => .ok (some (.text (if b then "1" else "0")))
  | .int n =>
    if -2^63 ≤ n ∧ n < 2^63 then .ok (some (.text (toString n))) else .error .sqlError
  | .float bits => .ok ((realText bits).map .text)
  | .str s => .ok (some (.text s))
  | .bin b => .ok (some (.blob b))
  | _ => .error .sqlError

/-- The value a TEXT column is read back as. -/
def SqlText.toVal : SqlText → Val
  | .text s => .str s
  | .blob b => .bin b

@[simp] theorem SqlText.ofVal_toVal (realText : UInt64 → Option String) (t : SqlText) :
    SqlText.ofVal realText t.toVal = .ok (some t) := by
  cases t <;> rfl

theorem SqlText.slice_toVal (t : SqlText) : t.toVal.slice = .ok () := by
  cases t <;> rfl

/-- A part of an address before the first `@`, and the rest after it. -/
def splitAddr (addr : String) : Option (String × String) :=
  match addr.toList.dropWhile (· != '@') with
  | [] => Option.none
  | _ :: rest => some (String.ofList (addr.toList.takeWhile (· != '@')),String.ofList rest)

theorem splitAddr_join {c : String} (hc : '@' ∉ c.toList) (n : String) :
    splitAddr (c ++ "@" ++ n) = some (c,n) := by
  have hne : ∀ x ∈ c.toList, (x != '@') = true := by
    intro x hx
    simp only [bne_iff_ne]
    rintro rfl
    exact hc hx
  have hl : (c ++ "@" ++ n).toList = c.toList ++ '@' :: n.toList := by
    simp [String.toList_append]
  simp only [splitAddr,hl,List.dropWhile_append_of_pos hne,List.takeWhile_append_of_pos hne]
  simp

theorem at_not_mem_hex (b : Bytes) : '@' ∉ (hex b).toList := by
  apply not_mem_hex
  have h : ∀ d : Fin 16, Nat.digitChar d.val ≠ '@' := by decide
  exact fun d hd => h ⟨d,hd⟩

end Nevod
