import Nevod.Lib.Words

/-!
JSON as the `json` module of Python reads it, and as it writes objects of strings.
A string is a list of code points, since escapes can name surrogates on their own.
-/

set_option autoImplicit false

namespace Json
open Text

inductive Value where
  | null
  | bool (b : Bool)
  | int (n : Int)
  | float (text : List Char)
  | str (s : List Nat)
  | arr (items : List Value)
  | obj (members : List (List Nat × Value))

def isWs (c : Char) : Bool := c == ' ' || c == '\t' || c == '\n' || c == '\r'

def skipWs (cs : List Char) : List Char := cs.dropWhile isWs

/-- The escapes of one character. -/
def escape : Char → Option Nat
  | '"' => some 34
  | '\\' => some 92
  | '/' => some 47
  | 'b' => some 8
  | 'f' => some 12
  | 'n' => some 10
  | 'r' => some 13
  | 't' => some 9
  | _ => none

def hex4 (a b c d : Char) : Option Nat :=
  match hexValue a,hexValue b,hexValue c,hexValue d with
  | some a,some b,some c,some d => some (((a*16+b)*16+c)*16+d)
  | _,_,_,_ => none

/-- The rest of a string literal, with the numbers its escapes name. -/
def scanUnits : List Char → Option (List Nat × List Char)
  | [] => none
  | '"' :: cs => some ([],cs)
  | '\\' :: 'u' :: a :: b :: c :: d :: cs =>
    match hex4 a b c d with
    | some n => (scanUnits cs).map (fun p => (n :: p.1,p.2))
    | none => none
  | '\\' :: e :: cs =>
    match escape e with
    | some n => (scanUnits cs).map (fun p => (n :: p.1,p.2))
    | none => none
  | c :: cs =>
    if c.toNat < 32 ∨ c = '\\' then none
    else (scanUnits cs).map (fun p => (c.toNat :: p.1,p.2))

def isHigh (n : Nat) : Bool := 0xd800 ≤ n && n ≤ 0xdbff

def isLow (n : Nat) : Bool := 0xdc00 ≤ n && n ≤ 0xdfff

/-- A high surrogate and the low one after it are one code point. -/
def joinSurrogates : List Nat → List Nat
  | h :: l :: rest =>
    if isHigh h && isLow l then (0x10000+(h-0xd800)*1024+(l-0xdc00)) :: joinSurrogates rest
    else h :: joinSurrogates (l :: rest)
  | s => s

def scanString (cs : List Char) : Option (List Nat × List Char) :=
  (scanUnits cs).map (fun p => (joinSurrogates p.1,p.2))

def spanDigits (cs : List Char) : List Char × List Char :=
  (cs.takeWhile Char.isDigit,cs.dropWhile Char.isDigit)

def natOfDigits (ds : List Char) : Nat := ds.foldl (fun n c => n*10+(c.toNat-48)) 0

/-- What follows the integer part: a fraction, if there is a digit after the point. -/
def scanFraction : List Char → List Char × List Char
  | '.' :: cs =>
    let (ds,rest) := spanDigits cs
    if ds = [] then ([],'.' :: cs) else ('.' :: ds,rest)
  | cs => ([],cs)

/-- And an exponent, if there is a digit in it. -/
def scanExponent : List Char → List Char × List Char
  | [] => ([],[])
  | e :: cs =>
    if e = 'e' ∨ e = 'E' then
      let sign := cs.take 1 |>.filter (fun c => c = '+' ∨ c = '-')
      let (ds,rest) := spanDigits (cs.drop sign.length)
      if ds = [] then ([],e :: cs) else (e :: sign ++ ds,rest)
    else ([],e :: cs)

/-- The integer part has no leading zeros. -/
def scanInteger : List Char → Option (List Char × List Char)
  | '0' :: cs => some (['0'],cs)
  | cs =>
    let (ds,rest) := spanDigits cs
    if ds = [] then none else some (ds,rest)

def scanNumber (cs : List Char) : Option (Value × List Char) :=
  let minus := cs.take 1 |>.filter (· = '-')
  match scanInteger (cs.drop minus.length) with
  | none => none
  | some (ds,rest) =>
    let (frac,rest) := scanFraction rest
    let (exp,rest) := scanExponent rest
    if frac = [] ∧ exp = [] then
      let n : Int := natOfDigits ds
      some (.int (if minus = [] then n else -n),rest)
    else some (.float (minus ++ ds ++ frac ++ exp),rest)

mutual

/-- One value. The fuel bounds the nesting; each level takes a character. -/
def scanOnce : Nat → List Char → Option (Value × List Char)
  | 0,_ => none
  | _,[] => none
  | _,'"' :: cs => (scanString cs).map (fun p => (.str p.1,p.2))
  | fuel+1,'\x7b' :: cs =>
    match skipWs cs with
    | '\x7d' :: rest => some (.obj [],rest)
    | rest => (scanMembers fuel rest).map (fun p => (.obj p.1,p.2))
  | fuel+1,'[' :: cs =>
    match skipWs cs with
    | ']' :: rest => some (.arr [],rest)
    | rest => (scanItems fuel rest).map (fun p => (.arr p.1,p.2))
  | _,'n' :: 'u' :: 'l' :: 'l' :: cs => some (.null,cs)
  | _,'t' :: 'r' :: 'u' :: 'e' :: cs => some (.bool true,cs)
  | _,'f' :: 'a' :: 'l' :: 's' :: 'e' :: cs => some (.bool false,cs)
  | _,'N' :: 'a' :: 'N' :: cs => some (.float "NaN".toList,cs)
  | _,'I' :: 'n' :: 'f' :: 'i' :: 'n' :: 'i' :: 't' :: 'y' :: cs =>
    some (.float "Infinity".toList,cs)
  | _,'-' :: 'I' :: 'n' :: 'f' :: 'i' :: 'n' :: 'i' :: 't' :: 'y' :: cs =>
    some (.float "-Infinity".toList,cs)
  | _,cs => scanNumber cs

/-- The members of an object that is not empty. -/
def scanMembers : Nat → List Char → Option (List (List Nat × Value) × List Char)
  | fuel+1,'"' :: cs => do
    let (key,cs) ← scanString cs
    match skipWs cs with
    | ':' :: cs => do
      let (v,cs) ← scanOnce fuel (skipWs cs)
      match skipWs cs with
      | '\x7d' :: cs => some ([(key,v)],cs)
      | ',' :: cs => (scanMembers fuel (skipWs cs)).map (fun p => ((key,v) :: p.1,p.2))
      | _ => none
    | _ => none
  | _,_ => none

/-- The items of an array that is not empty. -/
def scanItems : Nat → List Char → Option (List Value × List Char)
  | 0,_ => none
  | fuel+1,cs => do
    let (v,cs) ← scanOnce fuel cs
    match skipWs cs with
    | ']' :: cs => some ([v],cs)
    | ',' :: cs => (scanItems fuel (skipWs cs)).map (fun p => (v :: p.1,p.2))
    | _ => none

end

/-- `json.loads`; a text that begins with a byte order mark is refused, and so is one
that goes on after its value. -/
def loads (cs : List Char) : Option Value :=
  if cs.head? = some '\uFEFF' then none
  else
    match scanOnce (cs.length+1) (skipWs cs) with
    | some (v,rest) => if skipWs rest = [] then some v else none
    | none => none

def codes (s : String) : List Nat := s.toList.map Char.toNat

def Value.ofString (s : String) : Value := .str (codes s)

/-- The member of an object; of members with the same key the last one counts. -/
def member (members : List (List Nat × Value)) (key : String) : Option Value :=
  (members.reverse.find? (fun p => p.1 = codes key)).map Prod.snd

def hexDigits4 (n : Nat) : List Char :=
  [Nat.digitChar (n/4096%16),Nat.digitChar (n/256%16),Nat.digitChar (n/16%16),Nat.digitChar (n%16)]

/-- The number of a character, or those of its two surrogates. -/
def units (c : Char) : List Nat :=
  if c.toNat < 0x10000 then [c.toNat]
  else [0xd800+(c.toNat-0x10000)/1024,0xdc00+(c.toNat-0x10000)%1024]

def encodeChar (c : Char) : List Char :=
  if c = '"' then ['\\','"']
  else if c = '\\' then ['\\','\\']
  else if c = '\n' then ['\\','n']
  else if c = '\r' then ['\\','r']
  else if c = '\t' then ['\\','t']
  else if c.toNat = 12 then ['\\','f']
  else if c.toNat = 8 then ['\\','b']
  else if 32 ≤ c.toNat ∧ c.toNat ≤ 126 then [c]
  else (units c).flatMap (fun n => '\\' :: 'u' :: hexDigits4 n)

/-- A string literal in ASCII. -/
def encode (s : String) : List Char := '"' :: (s.toList.flatMap encodeChar ++ ['"'])

def encodeMember (m : String × String) : List Char := encode m.1 ++ [':',' '] ++ encode m.2

/-- `json.dump(data, f, indent=2)` for a dictionary of strings. -/
def dumps : List (String × String) → List Char
  | [] => ['\x7b','\x7d']
  | m :: ms => ['\x7b','\n',' ',' '] ++ encodeMember m ++
      ms.flatMap (fun m => [',','\n',' ',' '] ++ encodeMember m) ++ ['\n','\x7d']

theorem hex4_hexDigits4 {n : Nat} (h : n < 0x10000) :
    hex4 (Nat.digitChar (n/4096%16)) (Nat.digitChar (n/256%16)) (Nat.digitChar (n/16%16))
      (Nat.digitChar (n%16)) = some n := by
  have hd : ∀ m, hexValue (Nat.digitChar (m%16)) = some (m%16) :=
    fun m => (digitChar_hex (Nat.mod_lt m (by decide))).1
  simp only [hex4,hd,Option.some.injEq]
  omega

theorem scanUnits_unit {n : Nat} (h : n < 0x10000) (cs : List Char) :
    scanUnits ('\\' :: 'u' :: hexDigits4 n ++ cs) =
      (scanUnits cs).map (fun p => (n :: p.1,p.2)) := by
  simp only [hexDigits4,List.cons_append,List.nil_append,scanUnits,hex4_hexDigits4 h]

theorem scanUnits_plain {c : Char} (hq : c ≠ '"') (hb : c ≠ '\\') (h : 32 ≤ c.toNat)
    (cs : List Char) :
    scanUnits (c :: cs) = (scanUnits cs).map (fun p => (c.toNat :: p.1,p.2)) := by
  rw [scanUnits.eq_def]
  split
  · simp_all
  · simp_all
  · simp_all
  · simp_all
  · rename_i d ds _ _ _ heq
    obtain ⟨rfl,rfl⟩ := List.cons.inj heq
    rw [if_neg (by simp only [not_or]; exact ⟨by omega,hb⟩)]

theorem char_range (c : Char) : c.toNat < 0xd800 ∨ 0xdfff < c.toNat ∧ c.toNat < 0x110000 :=
  c.valid

theorem units_lt {c : Char} {n : Nat} (h : n ∈ units c) : n < 0x10000 := by
  have hc := char_range c
  unfold units at h
  split at h
  · simp only [List.mem_singleton] at h
    omega
  · simp only [List.mem_cons,List.not_mem_nil,or_false] at h
    omega

theorem scanUnits_escaped {ns : List Nat} (h : ∀ n ∈ ns, n < 0x10000) (cs : List Char) :
    scanUnits (ns.flatMap (fun n => '\\' :: 'u' :: hexDigits4 n) ++ cs) =
      (scanUnits cs).map (fun p => (ns ++ p.1,p.2)) := by
  induction ns with
  | nil => simp
  | cons n ns ih =>
    rw [List.flatMap_cons,List.append_assoc,scanUnits_unit (h n (by simp)),
      ih (fun m hm => h m (by simp [hm])),Option.map_map]
    rfl

/-- What is written for a character is read as the numbers of the character. -/
theorem scanUnits_encodeChar (c : Char) (cs : List Char) :
    scanUnits (encodeChar c ++ cs) = (scanUnits cs).map (fun p => (units c ++ p.1,p.2)) := by
  have hshort : ∀ d e n, escape e = some n → e ≠ 'u' → c = d → units d = [n] →
      scanUnits (['\\',e] ++ cs) = (scanUnits cs).map (fun p => (units c ++ p.1,p.2)) := by
    rintro d e n he hu rfl hn
    rw [hn,List.cons_append,List.cons_append,List.nil_append,scanUnits,he]
    · rfl
    · simp_all
  unfold encodeChar
  split
  · exact hshort '"' '"' 34 rfl (by decide) ‹_› rfl
  split
  · exact hshort '\\' '\\' 92 rfl (by decide) ‹_› rfl
  split
  · exact hshort '\n' 'n' 10 rfl (by decide) ‹_› rfl
  split
  · exact hshort '\r' 'r' 13 rfl (by decide) ‹_› rfl
  split
  · exact hshort '\t' 't' 9 rfl (by decide) ‹_› rfl
  split
  · exact hshort '\x0c' 'f' 12 rfl (by decide) (Char.toNat_inj.mp ‹_›) rfl
  split
  · exact hshort '\x08' 'b' 8 rfl (by decide) (Char.toNat_inj.mp ‹_›) rfl
  split
  · rename_i hq hb _ _ _ _ _ hp
    have hu : units c = [c.toNat] := if_pos (by omega)
    rw [List.singleton_append,scanUnits_plain hq hb hp.1,hu]
    rfl
  · exact scanUnits_escaped (fun n hn => units_lt hn) cs

theorem scanUnits_encoded (s : List Char) (cs : List Char) :
    scanUnits (s.flatMap encodeChar ++ '"' :: cs) = some (s.flatMap units,cs) := by
  induction s with
  | nil => rfl
  | cons c s ih =>
    rw [List.flatMap_cons,List.append_assoc,scanUnits_encodeChar,ih]
    rfl

theorem joinSurrogates_cons {n : Nat} (h : isHigh n = false) (ns : List Nat) :
    joinSurrogates (n :: ns) = n :: joinSurrogates ns := by
  cases ns with
  | nil => rfl
  | cons m ns => simp [joinSurrogates,h]

/-- No character is a surrogate, so only the two of one character are joined. -/
theorem joinSurrogates_units (s : List Char) :
    joinSurrogates (s.flatMap units) = s.map Char.toNat := by
  induction s with
  | nil => rfl
  | cons c s ih =>
    have hc := char_range c
    rw [List.flatMap_cons,List.map_cons]
    by_cases hbmp : c.toNat < 0x10000
    · rw [units,if_pos hbmp,List.singleton_append,joinSurrogates_cons,ih]
      simp only [isHigh,Bool.and_eq_false_iff,decide_eq_false_iff_not]
      omega
    · have hh : isHigh (0xd800+(c.toNat-0x10000)/1024) = true := by
        simp only [isHigh,Bool.and_eq_true,decide_eq_true_eq]
        omega
      have hl : isLow (0xdc00+(c.toNat-0x10000)%1024) = true := by
        simp only [isLow,Bool.and_eq_true,decide_eq_true_eq]
        omega
      rw [units,if_neg hbmp,List.cons_append,List.singleton_append,joinSurrogates,hh,hl,ih]
      simp only [Bool.and_self,if_true,List.cons.injEq,and_true]
      omega

theorem scanString_encoded (s : List Char) (cs : List Char) :
    scanString (s.flatMap encodeChar ++ '"' :: cs) = some (s.map Char.toNat,cs) := by
  rw [scanString,scanUnits_encoded]
  simp [joinSurrogates_units]

/-- What is read of a member that was written. -/
def asMember (m : String × String) : List Nat × Value := (codes m.1,.ofString m.2)

theorem scanOnce_encode (fuel : Nat) (s : String) (cs : List Char) :
    scanOnce (fuel+1) (encode s ++ cs) = some (.ofString s,cs) := by
  have henc : encode s ++ cs = '"' :: (s.toList.flatMap encodeChar ++ '"' :: cs) := by
    simp [encode]
  rw [henc,scanOnce,scanString_encoded]
  · rfl
  · simp

theorem skipWs_encode (s : String) (cs : List Char) :
    skipWs (' ' :: (encode s ++ cs)) = encode s ++ cs := rfl

theorem scanMembers_member (fuel : Nat) (m : String × String) (cs : List Char) :
    scanMembers (fuel+2) (encodeMember m ++ cs) =
      match skipWs cs with
      | '\x7d' :: cs => some ([asMember m],cs)
      | ',' :: cs => (scanMembers (fuel+1) (skipWs cs)).map (fun p => (asMember m :: p.1,p.2))
      | _ => none := by
  have henc : encodeMember m ++ cs =
      '"' :: (m.1.toList.flatMap encodeChar ++ '"' :: ':' :: ' ' :: (encode m.2 ++ cs)) := by
    simp [encodeMember,encode]
  have hws : ∀ cs, skipWs (':' :: cs) = ':' :: cs := fun cs => rfl
  rw [henc,scanMembers,scanString_encoded]
  simp only [Option.bind_eq_bind,Option.bind_some,hws,skipWs_encode,scanOnce_encode]
  rfl

theorem scanMembers_encoded {fuel : Nat} (m : String × String) {ms : List (String × String)}
    (h : ms.length+1 < fuel) :
    scanMembers fuel (encodeMember m ++
      (ms.flatMap (fun m => [',','\n',' ',' '] ++ encodeMember m) ++ ['\n','\x7d'])) =
      some ((m :: ms).map asMember,[]) := by
  induction ms generalizing m fuel with
  | nil =>
    obtain ⟨k,rfl⟩ : ∃ k, fuel = k+2 := ⟨fuel-2,by simp at h; omega⟩
    rw [scanMembers_member]
    rfl
  | cons m' ms ih =>
    obtain ⟨k,rfl⟩ : ∃ k, fuel = k+2 := ⟨fuel-2,by simp at h; omega⟩
    rw [scanMembers_member,List.flatMap_cons]
    have hws : ∀ cs, skipWs ([',','\n',' ',' '] ++ cs) = ',' :: '\n' :: ' ' :: ' ' :: cs :=
      fun cs => rfl
    have hnl : ∀ cs, skipWs ('\n' :: ' ' :: ' ' :: (encodeMember m' ++ cs)) =
      encodeMember m' ++ cs := fun cs => rfl
    simp only [List.append_assoc,hws,hnl]
    rw [ih m' (by simp at h; omega)]
    rfl

theorem length_le_flatMap {α β : Type} {f : α → List β} (h : ∀ a, f a ≠ []) (as : List α) :
    as.length ≤ (as.flatMap f).length := by
  induction as with
  | nil => simp
  | cons a as ih =>
    have ha := List.length_pos_iff.mpr (h a)
    simp only [List.flatMap_cons,List.length_append,List.length_cons]
    omega

/-- What is written is read again. -/
theorem loads_dumps (ms : List (String × String)) :
    loads (dumps ms) = some (.obj (ms.map asMember)) := by
  cases ms with
  | nil => rfl
  | cons m ms =>
    have hlen := length_le_flatMap (f := fun m => [',','\n',' ',' '] ++ encodeMember m)
      (by simp) ms
    have hscan : ∀ fuel, ms.length+1 < fuel →
        scanOnce (fuel+1) (dumps (m :: ms)) = some (.obj ((m :: ms).map asMember),[]) := by
      intro fuel hf
      have hm := scanMembers_encoded m hf
      have hd : dumps (m :: ms) = '\x7b' :: '\n' :: ' ' :: ' ' :: (encodeMember m ++
          (ms.flatMap (fun m => [',','\n',' ',' '] ++ encodeMember m) ++ ['\n','\x7d'])) := by
        simp [dumps]
      have hws : ∀ cs, skipWs ('\n' :: ' ' :: ' ' :: (encodeMember m ++ cs)) =
        encodeMember m ++ cs := fun cs => rfl
      have hne : ∀ cs rest, encodeMember m ++ cs ≠ '\x7d' :: rest := by
        intro cs rest he
        simp [encodeMember,encode] at he
      rw [hd,scanOnce,hws]
      split
      · exact absurd ‹_› (hne _ _)
      · rw [hm]
        rfl
    have hhead : (dumps (m :: ms)).head? = some '\x7b' := rfl
    have hws : skipWs (dumps (m :: ms)) = dumps (m :: ms) := rfl
    have hl : ms.length+1 < (dumps (m :: ms)).length := by
      simp only [dumps,List.length_append,List.length_cons,List.length_nil] at hlen ⊢
      omega
    rw [loads,hhead,if_neg (by decide),hws,hscan _ hl]
    rfl

theorem digitChar_printable (n : Nat) :
    32 ≤ (Nat.digitChar (n%16)).toNat ∧ (Nat.digitChar (n%16)).toNat ≤ 126 := by
  have hall : ∀ i : Fin 16, 32 ≤ (Nat.digitChar i.val).toNat ∧
      (Nat.digitChar i.val).toNat ≤ 126 := by decide
  exact hall ⟨n%16,Nat.mod_lt n (by decide)⟩

theorem encodeChar_printable {c x : Char} (h : x ∈ encodeChar c) :
    32 ≤ x.toNat ∧ x.toNat ≤ 126 := by
  have hpair : ∀ d e : Char, (32 ≤ d.toNat ∧ d.toNat ≤ 126) ∧ 32 ≤ e.toNat ∧ e.toNat ≤ 126 →
      x ∈ [d,e] → 32 ≤ x.toNat ∧ x.toNat ≤ 126 := by
    intro d e hde hx
    simp only [List.mem_cons,List.not_mem_nil,or_false] at hx
    rcases hx with rfl | rfl
    · exact hde.1
    · exact hde.2
  unfold encodeChar at h
  split at h
  · exact hpair _ _ (by decide) h
  split at h
  · exact hpair _ _ (by decide) h
  split at h
  · exact hpair _ _ (by decide) h
  split at h
  · exact hpair _ _ (by decide) h
  split at h
  · exact hpair _ _ (by decide) h
  split at h
  · exact hpair _ _ (by decide) h
  split at h
  · exact hpair _ _ (by decide) h
  split at h
  · rw [List.mem_singleton.mp h]
    assumption
  · obtain ⟨n,_,hx⟩ := List.mem_flatMap.mp h
    simp only [hexDigits4,List.mem_cons,List.not_mem_nil,or_false] at hx
    rcases hx with rfl | rfl | rfl | rfl | rfl | rfl
    · decide
    · decide
    all_goals exact digitChar_printable _

theorem encode_printable {s : String} {x : Char} (h : x ∈ encode s) :
    32 ≤ x.toNat ∧ x.toNat ≤ 126 := by
  simp only [encode,List.mem_cons,List.mem_append,List.mem_flatMap,List.not_mem_nil,or_false] at h
  rcases h with rfl | ⟨c,_,hx⟩ | rfl
  · decide
  · exact encodeChar_printable hx
  · decide

/-- Nothing but ASCII is written, with no control character but the ends of lines. -/
theorem dumps_printable {ms : List (String × String)} {x : Char} (h : x ∈ dumps ms) :
    x = '\n' ∨ 32 ≤ x.toNat ∧ x.toNat ≤ 126 := by
  have hm : ∀ m : String × String, x ∈ encodeMember m → 32 ≤ x.toNat ∧ x.toNat ≤ 126 := by
    intro m hx
    simp only [encodeMember,List.mem_append,List.mem_cons,List.not_mem_nil,or_false] at hx
    rcases hx with (hx | rfl | rfl) | hx
    · exact encode_printable hx
    · decide
    · decide
    · exact encode_printable hx
  cases ms with
  | nil =>
    simp only [dumps,List.mem_cons,List.not_mem_nil,or_false] at h
    rcases h with rfl | rfl
    · exact .inr (by decide)
    · exact .inr (by decide)
  | cons m ms =>
    simp only [dumps,List.mem_append,List.mem_cons,List.mem_flatMap,List.not_mem_nil,or_false] at h
    rcases h with (((rfl | rfl | rfl | rfl) | hx) | ⟨m',_,(rfl | rfl | rfl | rfl) | hx⟩) | rfl | rfl
    all_goals first | exact .inl rfl | exact .inr (by decide) | exact .inr (hm _ hx)

theorem codes_injective {s t : String} (h : codes s = codes t) : s = t := by
  have hinj : Function.Injective Char.toNat := fun a b hab => Char.toNat_inj.mp hab
  exact String.toList_inj.mp (List.map_injective_iff.mpr hinj h)

/-- The members of what was written, from the last one to the first. -/
theorem member_written (ms : List (String × String)) (key : String) :
    member (ms.map asMember) key =
      (ms.reverse.find? (fun m => m.1 = key)).map (fun m => .ofString m.2) := by
  have hkey : (fun p : List Nat × Value => decide (p.1 = codes key)) ∘ asMember =
      fun m => decide (m.1 = key) := by
    funext m
    exact decide_eq_decide.mpr ⟨codes_injective,congrArg codes⟩
  rw [member,← List.map_reverse,List.find?_map,hkey,Option.map_map]
  rfl

end Json
