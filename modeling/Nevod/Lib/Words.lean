import Nevod.Lib.Text
import Mathlib.Data.List.DropRight

/-!
Lines of text as they are typed: white space, the words between it, the first
occurrence of a separator, and bytes written in hexadecimal.
-/

set_option autoImplicit false

namespace Text

/-- White space in Unicode, as `str.isspace` has it. -/
def isSpace (c : Char) : Bool :=
  (9 ≤ c.toNat && c.toNat ≤ 13) || (28 ≤ c.toNat && c.toNat ≤ 32) || c.toNat == 0x85 ||
    c.toNat == 0xa0 || c.toNat == 0x1680 || (0x2000 ≤ c.toNat && c.toNat ≤ 0x200a) ||
    c.toNat == 0x2028 || c.toNat == 0x2029 || c.toNat == 0x202f || c.toNat == 0x205f ||
    c.toNat == 0x3000

def Spaces (cs : List Char) : Prop := ∀ c ∈ cs, isSpace c = true

instance (cs : List Char) : Decidable (Spaces cs) :=
  List.decidableBAll (fun c => isSpace c = true) cs

/-- A word has no white space in it, and is not empty. -/
def Word (cs : List Char) : Prop := cs ≠ [] ∧ ∀ c ∈ cs, isSpace c = false

theorem unspaced_of_all {cs : List Char} (h : cs.all (fun c => !isSpace c) = true) :
    ∀ c ∈ cs, isSpace c = false := by
  simpa using h

def strip (cs : List Char) : List Char := (cs.dropWhile isSpace).rdropWhile isSpace

/-- Nothing is to be stripped, and there is something. -/
structure Trimmed (cs : List Char) : Prop where
  head : ∃ c rest, cs = c :: rest ∧ isSpace c = false
  last : ∃ rest c, cs = rest ++ [c] ∧ isSpace c = false

theorem dropWhile_spaces {sp cs : List Char} (h : Spaces sp) :
    (sp ++ cs).dropWhile isSpace = cs.dropWhile isSpace :=
  List.dropWhile_append_of_pos h

theorem rdropWhile_spaces {sp cs : List Char} (h : Spaces sp) :
    (cs ++ sp).rdropWhile isSpace = cs.rdropWhile isSpace := by
  unfold List.rdropWhile
  rw [List.reverse_append,List.dropWhile_append_of_pos (fun c hc => h c (List.mem_reverse.mp hc))]

theorem Trimmed.rdropWhile {cs : List Char} (h : Trimmed cs) : cs.rdropWhile isSpace = cs := by
  obtain ⟨rest,c,rfl,hc⟩ := h.last
  exact List.rdropWhile_concat_neg _ _ _ (by simp [hc])

theorem strip_padded {a cs b : List Char} (ha : Spaces a) (hb : Spaces b) (h : Trimmed cs) :
    strip (a ++ cs ++ b) = cs := by
  obtain ⟨c,rest,hcs,hc⟩ := h.head
  have hdrop : (cs ++ b).dropWhile isSpace = cs ++ b := by
    rw [hcs,List.cons_append,List.dropWhile_cons_of_neg (by simp [hc])]
  rw [strip,List.append_assoc,dropWhile_spaces ha,hdrop,rdropWhile_spaces hb,h.rdropWhile]

theorem strip_trimmed {cs : List Char} (h : Trimmed cs) : strip cs = cs := by
  have hs : strip ([] ++ cs ++ []) = cs := strip_padded (by simp [Spaces]) (by simp [Spaces]) h
  simpa using hs

theorem Word.trimmed {cs : List Char} (h : Word cs) : Trimmed cs := by
  obtain ⟨hne,hall⟩ := h
  refine ⟨?_,cs.dropLast,cs.getLast hne,(List.dropLast_append_getLast hne).symm,
    hall _ (List.getLast_mem hne)⟩
  cases cs with
  | nil => exact absurd rfl hne
  | cons c rest => exact ⟨c,rest,rfl,hall c (by simp)⟩

/-- `str.split()`, with the word that has been begun. -/
def wordsFrom (cur : List Char) : List Char → List (List Char)
  | [] => if cur = [] then [] else [cur]
  | c :: cs =>
    if isSpace c then if cur = [] then wordsFrom [] cs else cur :: wordsFrom [] cs
    else wordsFrom (cur ++ [c]) cs

def words (cs : List Char) : List (List Char) := wordsFrom [] cs

theorem wordsFrom_word {cur w cs : List Char} (hw : ∀ c ∈ w, isSpace c = false) :
    wordsFrom cur (w ++ cs) = wordsFrom (cur ++ w) cs := by
  induction w generalizing cur with
  | nil => simp
  | cons c w ih =>
    rw [List.cons_append,wordsFrom,hw c (by simp)]
    simp only [Bool.false_eq_true,if_false]
    rw [ih (fun x hx => hw x (by simp [hx])),List.append_assoc]
    rfl

theorem words_spaces {sp cs : List Char} (h : Spaces sp) : words (sp ++ cs) = words cs := by
  induction sp with
  | nil => rfl
  | cons c sp ih =>
    simp only [words,List.cons_append,wordsFrom,h c (by simp),if_true] at ih ⊢
    exact ih (fun x hx => h x (by simp [hx]))

/-- A word that white space or the end follows is the first. -/
theorem words_cons {w sp cs : List Char} (hw : Word w) (hsp : Spaces sp) (hne : sp ≠ [] ∨ cs = []) :
    words (w ++ sp ++ cs) = w :: words cs := by
  rw [words,List.append_assoc,wordsFrom_word hw.2,List.nil_append]
  cases sp with
  | nil =>
    rw [hne.resolve_left (by simp)]
    simp [wordsFrom,hw.1,words]
  | cons c sp =>
    rw [List.cons_append,wordsFrom]
    simp only [hsp c (by simp),hw.1,if_true,if_false]
    exact congrArg (w :: ·) (words_spaces (fun x hx => hsp x (by simp [hx])))

/-- `str.split(sep, 1)`, where the separator is found. -/
def splitOnce (sep : List Char) : List Char → Option (List Char × List Char)
  | [] => if sep = [] then some ([],[]) else none
  | c :: cs =>
    if sep.isPrefixOf (c :: cs) then some ([],(c :: cs).drop sep.length)
    else (splitOnce sep cs).map (fun p => (c :: p.1,p.2))

theorem splitOnce_some {sep cs a b : List Char} (h : splitOnce sep cs = some (a,b)) :
    cs = a ++ sep ++ b := by
  induction cs generalizing a b with
  | nil =>
    by_cases hs : sep = []
    · simp only [splitOnce,hs,if_true,Option.some.injEq,Prod.mk.injEq] at h
      obtain ⟨rfl,rfl⟩ := h
      simp [hs]
    · simp [splitOnce,hs] at h
  | cons c cs ih =>
    by_cases hp : sep.isPrefixOf (c :: cs) = true
    · simp only [splitOnce,hp,if_true,Option.some.injEq,Prod.mk.injEq] at h
      obtain ⟨rfl,rfl⟩ := h
      obtain ⟨rest,hrest⟩ := List.isPrefixOf_iff_prefix.mp hp
      rw [← hrest,List.drop_left,List.nil_append]
    · simp only [splitOnce,hp,Bool.false_eq_true,if_false] at h
      obtain ⟨⟨a',b'⟩,hs,he⟩ := Option.map_eq_some_iff.mp h
      obtain ⟨rfl,rfl⟩ := Prod.mk.injEq .. ▸ he
      rw [ih hs]
      rfl

/-- What is before the separator has not the last character of the separator in it. -/
theorem splitOnce_append (sep : List Char) {w : List Char} {x : Char} (hw : x ∉ w) (hsep : x ∉ sep)
    (rest : List Char) : splitOnce (sep ++ [x]) (w ++ (sep ++ [x]) ++ rest) = some (w,rest) := by
  induction w with
  | nil =>
    cases hs : sep ++ [x] with
    | nil => simp at hs
    | cons c cs =>
      have hp : (c :: cs).isPrefixOf (c :: (cs ++ rest)) = true := by
        rw [List.isPrefixOf_iff_prefix]
        exact List.prefix_append (c :: cs) rest
      simp only [List.nil_append,List.cons_append,splitOnce,hp,if_true]
      simp
  | cons c w ih =>
    have hp : (sep ++ [x]).isPrefixOf (c :: (w ++ (sep ++ [x]) ++ rest)) = false := by
      rw [Bool.eq_false_iff,ne_eq,List.isPrefixOf_iff_prefix]
      rintro ⟨more,hmore⟩
      have htake := congrArg (List.take (sep.length+1)) hmore
      have hlen : sep.length+1 ≤ (c :: (w ++ sep)).length := by simp
      rw [List.take_left' (by simp),show c :: (w ++ (sep ++ [x]) ++ rest) =
        (c :: (w ++ sep)) ++ ([x] ++ rest) by simp,List.take_append_of_le_length hlen] at htake
      have hlast : x ∈ List.take (sep.length+1) (c :: (w ++ sep)) := by
        rw [← htake]
        simp
      have hx := List.mem_of_mem_take hlast
      simp only [List.mem_cons,List.mem_append] at hx hw
      rcases hx with rfl | hx | hx
      · exact hw (.inl rfl)
      · exact hw (.inr hx)
      · exact hsep hx
    rw [List.cons_append,List.cons_append,splitOnce,hp,ih (fun h => hw (by simp [h]))]
    rfl

def hexValue (c : Char) : Option Nat :=
  if 48 ≤ c.toNat ∧ c.toNat ≤ 57 then some (c.toNat-48)
  else if 97 ≤ c.toNat ∧ c.toNat ≤ 102 then some (c.toNat-87)
  else if 65 ≤ c.toNat ∧ c.toNat ≤ 70 then some (c.toNat-55)
  else none

def isAsciiSpace (c : Char) : Bool := (9 ≤ c.toNat && c.toNat ≤ 13) || c.toNat == 32

/-- `bytes.fromhex` from a position on, or the position of the wrong character. -/
def fromHexAt (pos : Nat) : List Char → Except Nat Bytes
  | [] => .ok []
  | [c] =>
    if isAsciiSpace c then .ok []
    else match hexValue c with
      | none => .error pos
      | some _ => .error (pos+1)
  | c :: d :: cs =>
    if isAsciiSpace c then fromHexAt (pos+1) (d :: cs)
    else match hexValue c with
      | none => .error pos
      | some hi =>
        match hexValue d with
        | none => .error (pos+1)
        | some lo => (fromHexAt (pos+2) cs).map (UInt8.ofNat (16*hi+lo) :: ·)

/-- A character outside ASCII is found first. -/
def fromHex (cs : List Char) : Except Nat Bytes :=
  match cs.findIdx? (fun c => 128 ≤ c.toNat) with
  | some i => .error i
  | none => fromHexAt 0 cs

theorem digitChar_hex {d : Nat} (h : d < 16) : hexValue d.digitChar = some d ∧
    isAsciiSpace d.digitChar = false ∧ isSpace d.digitChar = false ∧ d.digitChar.toNat < 128 := by
  have hall : ∀ i : Fin 16, hexValue (Nat.digitChar i.val) = some i.val ∧
      isAsciiSpace (Nat.digitChar i.val) = false ∧ isSpace (Nat.digitChar i.val) = false ∧
      (Nat.digitChar i.val).toNat < 128 := by decide
  exact hall ⟨d,h⟩

theorem mem_hex {b : Bytes} {c : Char} (h : c ∈ (hex b).toList) :
    isSpace c = false ∧ c.toNat < 128 := by
  simp only [hex,String.toList_ofList,List.mem_flatMap] at h
  obtain ⟨x,_,hx⟩ := h
  have hlt := x.toNat_lt
  simp only [hexByte,List.mem_cons,List.not_mem_nil,or_false] at hx
  rcases hx with rfl | rfl
  · exact (digitChar_hex (by omega)).2.2
  · exact (digitChar_hex (by omega)).2.2

theorem fromHexAt_hexByte (pos : Nat) (b : Bytes) : fromHexAt pos (b.flatMap hexByte) = .ok b := by
  induction b generalizing pos with
  | nil => rfl
  | cons x b ih =>
    have hlt := x.toNat_lt
    obtain ⟨hhi,hsp,_⟩ := digitChar_hex (d := x.toNat/16) (by omega)
    obtain ⟨hlo,_⟩ := digitChar_hex (d := x.toNat%16) (by omega)
    simp only [List.flatMap_cons,hexByte,List.cons_append,List.nil_append,fromHexAt,hsp,hhi,hlo,ih,
      Bool.false_eq_true,if_false]
    have hx : UInt8.ofNat (16*(x.toNat/16)+x.toNat%16) = x := by
      rw [Nat.div_add_mod,UInt8.ofNat_toNat]
    simp [Except.map,hx]

/-- Bytes are read back from their hexadecimal form. -/
theorem fromHex_hex (b : Bytes) : fromHex (hex b).toList = .ok b := by
  have hnone : (hex b).toList.findIdx? (fun c => 128 ≤ c.toNat) = none := by
    rw [List.findIdx?_eq_none_iff]
    intro c hc
    have := (mem_hex hc).2
    simp only [decide_eq_false_iff_not]
    omega
  rw [fromHex,hnone]
  simp only [hex,String.toList_ofList]
  exact fromHexAt_hexByte 0 b

end Text
