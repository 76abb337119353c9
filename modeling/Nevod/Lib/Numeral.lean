import Nevod.Lib.Text
import Mathlib.Data.List.Induction

/-!
Numerals at the end of a byte string: when some of the bytes before a digit
form a longer numeral with it.
-/

set_option autoImplicit false

namespace Text

/-- The digits of a natural number. -/
def digits (n : Nat) : Bytes := (Nat.toDigits 10 n).flatMap String.utf8EncodeChar

theorem digits_lt {n : Nat} (h : n < 10) : digits n = [digitByte n] := by
  simp [digits,Nat.toDigits_of_lt_base h,utf8EncodeChar_digitChar h]

theorem digits_step {n d : Nat} (hn : 0 < n) (hd : d < 10) :
    digits (10*n+d) = digits n ++ [digitByte d] := by
  have ht := Nat.toDigits_append_toDigits (by decide : 1 < 10) hn hd
  rw [digits,← ht,List.flatMap_append,Nat.toDigits_of_lt_base hd]
  simp [digits,utf8EncodeChar_digitChar hd]

theorem digits_isDigit (n : Nat) : ∀ b ∈ digits n, isDigit b = true := by
  induction n using Nat.strongRecOn with
  | ind n ih =>
    intro b hb
    by_cases hn : n < 10
    · rw [digits_lt hn,List.mem_singleton] at hb
      rw [hb]
      exact isDigit_digitByte hn
    · have hs := digits_step (n := n/10) (d := n%10) (by omega) (Nat.mod_lt _ (by decide))
      rw [show 10*(n/10)+n%10 = n by omega] at hs
      rw [hs,List.mem_append,List.mem_singleton] at hb
      rcases hb with hb | hb
      · exact ih (n/10) (by omega) b hb
      · rw [hb]
        exact isDigit_digitByte (Nat.mod_lt _ (by decide))

theorem digitByte_ne_zero {d : Nat} (h : d < 10) (h0 : 0 < d) : digitByte d ≠ 48 := by
  have hall : ∀ i : Fin 10, 0 < i.val → digitByte i.val ≠ 48 := by decide
  exact hall ⟨d,h⟩ h0

theorem digits_nonzero {n : Nat} (hn : 0 < n) : ∃ b ∈ digits n, b ≠ 48 := by
  induction n using Nat.strongRecOn with
  | ind n ih =>
    by_cases hlt : n < 10
    · exact ⟨digitByte n,by simp [digits_lt hlt],digitByte_ne_zero hlt hn⟩
    · obtain ⟨b,hb,h0⟩ := ih (n/10) (by omega) (by omega)
      have hs := digits_step (n := n/10) (d := n%10) (by omega) (Nat.mod_lt _ (by decide))
      rw [show 10*(n/10)+n%10 = n by omega] at hs
      exact ⟨b,by simp [hs,hb],h0⟩

theorem exists_digits {b : UInt8} {run : Bytes} (hb : b ≠ 48)
    (hrun : ∀ x ∈ b :: run, isDigit x = true) : ∃ n, 0 < n ∧ digits n = b :: run := by
  induction run using List.reverseRecOn with
  | nil =>
    obtain ⟨d,hd,rfl⟩ := exists_digitByte (hrun b (by simp))
    refine ⟨d,?_,digits_lt hd⟩
    rcases Nat.eq_zero_or_pos d with rfl | h
    · exact absurd rfl hb
    · exact h
  | append_singleton run x ih =>
    obtain ⟨n,hn,hdig⟩ := ih (fun y hy => hrun y (by simp at hy ⊢; tauto))
    obtain ⟨d,hd,rfl⟩ := exists_digitByte (hrun x (by simp))
    exact ⟨10*n+d,by omega,by rw [digits_step hn hd,hdig]; rfl⟩

theorem decimal_nonneg {n : Int} (h : 0 ≤ n) : decimal n = digits n.toNat := by
  rw [decimal,Int.toString_eq_repr,Int.repr_eq_if,if_pos h]
  simp [utf8,digits]

theorem decimal_neg {n : Int} (h : n < 0) : decimal n = 45 :: digits (-n).toNat := by
  rw [decimal,Int.toString_eq_repr,Int.repr_eq_if,if_neg (by omega)]
  simp [utf8,digits]
  rfl

/-- Some bytes at the end of `b`, followed by the digit `d`, are a numeral. -/
def endsInNumeral (b : Bytes) (d : Nat) : Bool :=
  (b.reverse.takeWhile isDigit).any (· != 48) || (b.getLast? == some 45 && d != 0)

theorem exists_suffix_of_endsInNumeral {b : Bytes} {d : Nat} (hd : d < 10)
    (h : endsInNumeral b d = true) :
    ∃ pre s n, b = pre ++ s ∧ s ≠ [] ∧ s ++ [digitByte d] = decimal n := by
  simp only [endsInNumeral,Bool.or_eq_true,List.any_eq_true,bne_iff_ne,Bool.and_eq_true,
    beq_iff_eq] at h
  rcases h with ⟨x,hx,h0⟩ | ⟨hl,h0⟩
  · obtain ⟨l,r,hlr⟩ := List.append_of_mem hx
    have hall : ∀ y ∈ l ++ x :: r, isDigit y = true := by
      rw [← hlr]
      exact List.all_eq_true.mp List.all_takeWhile
    have hb : b = ((b.reverse.dropWhile isDigit).reverse ++ r.reverse) ++ x :: l.reverse := by
      have ht := List.takeWhile_append_dropWhile (p := isDigit) (l := b.reverse)
      rw [hlr] at ht
      have hr := congrArg List.reverse ht
      simpa using hr.symm
    have hrun : ∀ y ∈ x :: l.reverse, isDigit y = true :=
      fun y hy => hall y (by simp at hy ⊢; tauto)
    obtain ⟨n,hn,hdig⟩ := exists_digits h0 hrun
    refine ⟨_,x :: l.reverse,((10*n+d : Nat) : Int),hb,by simp,?_⟩
    rw [decimal_nonneg (by omega),Int.toNat_natCast,digits_step hn hd,hdig]
  · refine ⟨b.dropLast,[45],-(d : Int),?_,by simp,?_⟩
    · exact (List.dropLast_append_getLast? 45 (by simp [hl])).symm
    · rw [decimal_neg (by omega),show (-(-(d : Int))).toNat = d by omega,digits_lt hd]
      rfl

theorem mem_takeWhile_of_suffix {p : UInt8 → Bool} {pre run : Bytes} {x : UInt8}
    (hrun : ∀ y ∈ run, p y = true) (hx : x ∈ run) :
    x ∈ (pre ++ run).reverse.takeWhile p := by
  rw [List.reverse_append,List.takeWhile_append_of_pos (by simpa using hrun)]
  simp [hx]

theorem endsInNumeral_of_suffix (pre : Bytes) {s : Bytes} {d : Nat} {n : Int} (hd : d < 10)
    (hs : s ≠ []) (h : s ++ [digitByte d] = decimal n) : endsInNumeral (pre ++ s) d = true := by
  have hrun : ∀ (p : Bytes) (m : Nat), 10 ≤ m → digits m = p ++ [digitByte d] →
      ∀ pre, endsInNumeral (pre ++ p) d = true := by
    intro p m hm hp pre
    have hstep := digits_step (n := m/10) (d := m%10) (by omega) (Nat.mod_lt _ (by decide))
    rw [show 10*(m/10)+m%10 = m by omega,hp] at hstep
    have hpm := (List.append_inj' hstep rfl).1
    obtain ⟨x,hx,h0⟩ := digits_nonzero (show 0 < m/10 by omega)
    rw [← hpm] at hx
    have hdig := digits_isDigit (m/10)
    rw [← hpm] at hdig
    simp only [endsInNumeral,Bool.or_eq_true,List.any_eq_true,bne_iff_ne]
    exact .inl ⟨x,mem_takeWhile_of_suffix hdig hx,h0⟩
  have hlen := congrArg List.length h
  simp only [List.length_append,List.length_singleton] at hlen
  have hpos := List.length_pos_iff.mpr hs
  rcases Int.lt_or_le n 0 with hn | hn
  · rw [decimal_neg hn] at h hlen
    cases s with
    | nil => exact absurd rfl hs
    | cons y s =>
      simp only [List.cons_append,List.cons.injEq] at h
      obtain ⟨rfl,h⟩ := h
      by_cases hm : (-n).toNat < 10
      · rw [digits_lt hm] at h
        have hnil : s = [] := by
          have hl := congrArg List.length h
          simpa using hl
        subst hnil
        simp only [List.nil_append,List.cons.injEq,and_true] at h
        have hd0 : d ≠ 0 := by
          rintro rfl
          exact digitByte_ne_zero hm (by omega) h.symm
        simp [endsInNumeral,hd0]
      · have hr := hrun s _ (by omega) h.symm (pre ++ [45])
        simpa using hr
  · rw [decimal_nonneg hn] at h hlen
    by_cases hm : n.toNat < 10
    · rw [digits_lt hm] at hlen
      simp at hlen
      exact absurd hlen hs
    · exact hrun s _ (by omega) h.symm pre

end Text
