import Mathlib.Data.List.Basic

/-!
Byte strings, the UTF-8 encoding of a string, decimal numerals and lower-case
hexadecimal, with the facts about their first and last bytes that decide how a
concatenation of them can be split again.
-/

set_option autoImplicit false

namespace Text

abbrev Bytes := List UInt8

def utf8 (s : String) : Bytes := s.toList.flatMap String.utf8EncodeChar

@[simp] theorem utf8_empty : utf8 "" = [] := rfl

@[simp] theorem utf8_append (s t : String) : utf8 (s ++ t) = utf8 s ++ utf8 t := by
  simp [utf8]

@[simp] theorem utf8_singleton (c : Char) :
    utf8 (String.singleton c) = String.utf8EncodeChar c := by
  simp [utf8]

theorem utf8_eq_toByteArray (s : String) : (utf8 s).toByteArray = s.toByteArray := by
  have h : s.toList.utf8Encode = s.toByteArray := by simp
  rw [← h]
  rfl

/-- A character takes up to four bytes. -/
theorem length_utf8_le (s : String) : (utf8 s).length ≤ 4*s.toList.length := by
  unfold utf8
  induction s.toList with
  | nil => simp
  | cons c cs ih =>
    have hc := c.utf8Size_le_four
    simp only [List.flatMap_cons,List.length_append,String.length_utf8EncodeChar,List.length_cons]
    omega

theorem utf8_injective {s t : String} (h : utf8 s = utf8 t) : s = t := by
  have hb := congrArg List.toByteArray h
  rw [utf8_eq_toByteArray,utf8_eq_toByteArray] at hb
  exact String.toByteArray_inj.mp hb

theorem utf8_cons {s : String} (h : s ≠ "") :
    ∃ (c : Char) (rest : Bytes), utf8 s = String.utf8EncodeChar c ++ rest := by
  cases hs : s.toList with
  | nil => exact absurd (String.toList_eq_nil_iff.mp hs) h
  | cons c cs => exact ⟨c,cs.flatMap String.utf8EncodeChar,by simp [utf8,hs]⟩

def isDigit (b : UInt8) : Bool := 48 ≤ b && b ≤ 57

/-- The digit `d` as the byte it is written with. -/
def digitByte (d : Nat) : UInt8 := UInt8.ofNat (48+d)

theorem utf8EncodeChar_digitChar {d : Nat} (h : d < 10) :
    String.utf8EncodeChar d.digitChar = [digitByte d] := by
  have hall : ∀ i : Fin 10, String.utf8EncodeChar (Nat.digitChar i.val) = [digitByte i.val] := by
    decide
  exact hall ⟨d,h⟩

theorem isDigit_digitByte {d : Nat} (h : d < 10) : isDigit (digitByte d) = true := by
  have hall : ∀ i : Fin 10, isDigit (digitByte i.val) = true := by decide
  exact hall ⟨d,h⟩

theorem exists_digitByte {b : UInt8} (h : isDigit b = true) :
    ∃ d, d < 10 ∧ b = digitByte d := by
  simp only [isDigit,Bool.and_eq_true,decide_eq_true_eq,UInt8.le_iff_toNat_le] at h
  have h1 : 48 ≤ b.toNat := h.1
  have h2 : b.toNat ≤ 57 := h.2
  refine ⟨b.toNat-48,by omega,?_⟩
  rw [digitByte,show 48+(b.toNat-48) = b.toNat by omega,UInt8.ofNat_toNat]

def decimal (n : Int) : Bytes := utf8 (toString n)

theorem decimal_digit {d : Nat} (h : d < 10) : decimal d = [digitByte d] := by
  have hs : toString (d : Int) = String.ofList [d.digitChar] := by
    rw [Int.toString_eq_repr]
    simp [Int.repr_eq_if,Nat.repr_eq_ofList_toDigits,Nat.toDigits_of_lt_base h]
  rw [decimal,hs,utf8,String.toList_ofList]
  simp [utf8EncodeChar_digitChar h]

theorem toDigits_last (n : Nat) :
    ∃ (cs : List Char) (d : Nat), d < 10 ∧ Nat.toDigits 10 n = cs ++ [d.digitChar] := by
  rw [Nat.toDigits_eq_if (by decide)]
  split
  · exact ⟨[],n,by assumption,rfl⟩
  · exact ⟨Nat.toDigits 10 (n/10),n%10,Nat.mod_lt _ (by decide),rfl⟩

/-- Every numeral ends in a digit, whatever its sign. -/
theorem decimal_last (n : Int) :
    ∃ (pre : Bytes) (d : Nat), d < 10 ∧ decimal n = pre ++ [digitByte d] := by
  have hnat : ∀ (sign : List Char) (m : Nat),
      ∃ (pre : Bytes) (d : Nat), d < 10 ∧
        (sign ++ Nat.toDigits 10 m).flatMap String.utf8EncodeChar = pre ++ [digitByte d] := by
    intro sign m
    obtain ⟨cs,d,hd,hm⟩ := toDigits_last m
    refine ⟨(sign ++ cs).flatMap String.utf8EncodeChar,d,hd,?_⟩
    simp [hm,utf8EncodeChar_digitChar hd]
  rw [decimal,Int.toString_eq_repr,Int.repr_eq_if]
  split
  · simpa [utf8] using hnat [] n.toNat
  · simpa [utf8] using hnat ['-'] (-n).toNat

theorem decimal_ne_nil (n : Int) : decimal n ≠ [] := by
  obtain ⟨pre,d,_,h⟩ := decimal_last n
  simp [h]

theorem repr_injective {m n : Nat} (h : Nat.repr m = Nat.repr n) : m = n := by
  have hd := congrArg (fun s => Nat.ofDigitChars 10 s.toList 0) h
  simpa using hd

theorem minus_not_digits (cs : List Char) (n : Nat) : '-' :: cs ≠ Nat.toDigits 10 n := by
  intro h
  have hm : '-' ∈ Nat.toDigits 10 n := by rw [← h]; simp
  have hd := Nat.isDigit_of_mem_toDigits (by decide) (by decide) hm
  simp [Char.isDigit] at hd

theorem toString_injective {m n : Int} (h : toString m = toString n) : m = n := by
  rw [Int.toString_eq_repr,Int.toString_eq_repr,Int.repr_eq_if,Int.repr_eq_if] at h
  split at h <;> split at h
  · have := repr_injective h; omega
  · have hl := congrArg String.toList h
    simp only [String.toList_append,Nat.toList_repr] at hl
    exact absurd hl.symm (minus_not_digits _ _)
  · have hl := congrArg String.toList h
    simp only [String.toList_append,Nat.toList_repr] at hl
    exact absurd hl (minus_not_digits _ _)
  · have := repr_injective ((String.append_right_inj "-").mp h); omega

theorem decimal_injective {m n : Int} (h : decimal m = decimal n) : m = n :=
  toString_injective (utf8_injective h)

/-- A byte string that is empty or ends in something else than an ASCII digit
is not a concatenation that ends in a numeral. -/
def endsWithDigit (b : Bytes) : Bool :=
  match b.getLast? with
  | some d => isDigit d
  | none => false

theorem endsWithDigit_append_decimal (b : Bytes) (n : Int) :
    endsWithDigit (b ++ decimal n) = true := by
  obtain ⟨pre,d,hd,hn⟩ := decimal_last n
  simp [endsWithDigit,hn,isDigit_digitByte hd]

theorem exists_decimal_of_endsWithDigit {b : Bytes} (h : endsWithDigit b = true) :
    ∃ (pre : Bytes) (d : Nat), d < 10 ∧ b = pre ++ decimal d := by
  unfold endsWithDigit at h
  cases hb : b.getLast? with
  | none => simp [hb] at h
  | some x =>
    obtain ⟨d,hd,hx⟩ := exists_digitByte (b := x) (by simpa [hb] using h)
    refine ⟨b.dropLast,d,hd,?_⟩
    rw [decimal_digit hd,← hx]
    exact (List.dropLast_append_getLast? x (by simp [hb])).symm

def hexByte (b : UInt8) : List Char :=
  [Nat.digitChar (b.toNat/16),Nat.digitChar (b.toNat%16)]

def hex (b : Bytes) : String := String.ofList (b.flatMap hexByte)

theorem digitChar_injective {m n : Nat} (hm : m < 16) (hn : n < 16)
    (h : Nat.digitChar m = Nat.digitChar n) : m = n := by
  have hall : ∀ i j : Fin 16, Nat.digitChar i.val = Nat.digitChar j.val → i = j := by decide
  exact congrArg Fin.val (hall ⟨m,hm⟩ ⟨n,hn⟩ h)

theorem hexByte_injective {a b : UInt8} (h : hexByte a = hexByte b) : a = b := by
  have ha := a.toNat_lt
  have hb := b.toNat_lt
  simp only [hexByte,List.cons.injEq,and_true] at h
  have hq := digitChar_injective (by omega) (by omega) h.1
  have hr := digitChar_injective (by omega) (by omega) h.2
  exact UInt8.toNat_inj.mp (by omega)

theorem hex_injective {a b : Bytes} (h : hex a = hex b) : a = b := by
  have hl : a.flatMap hexByte = b.flatMap hexByte := by
    simpa [hex] using congrArg String.toList h
  clear h
  induction a generalizing b with
  | nil => cases b with
    | nil => rfl
    | cons y b => simp [hexByte] at hl
  | cons x a ih => cases b with
    | nil => simp [hexByte] at hl
    | cons y b =>
      simp only [List.flatMap_cons] at hl
      have hs := List.append_inj hl rfl
      rw [hexByte_injective hs.1,ih hs.2]

theorem length_hex (b : Bytes) : (hex b).toList.length = 2*b.length := by
  unfold hex
  rw [String.toList_ofList]
  induction b with
  | nil => rfl
  | cons x b ih =>
    simp only [List.flatMap_cons,List.length_append,ih,hexByte,List.length_cons,List.length_nil]
    omega

theorem hex_ne_empty {b : Bytes} (h : b ≠ []) : hex b ≠ "" := by
  intro he
  exact h (hex_injective (b := []) he)

theorem not_mem_hex {c : Char} (hc : ∀ d, d < 16 → Nat.digitChar d ≠ c) (b : Bytes) :
    c ∉ (hex b).toList := by
  simp only [hex,String.toList_ofList,List.mem_flatMap,not_exists,not_and]
  intro x _ hx
  have hlt := x.toNat_lt
  simp only [hexByte,List.mem_cons,List.not_mem_nil,or_false] at hx
  rcases hx with hx | hx
  · exact hc _ (by omega) hx.symm
  · exact hc _ (by omega) hx.symm

end Text
