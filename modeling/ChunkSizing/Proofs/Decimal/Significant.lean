import ChunkSizing.Proofs.Decimal.Fewest
import ChunkSizing.Proofs.Decimal.Layout
import Mathlib.Data.List.DropRight

/-!
# ChunkSizing.Proofs.Decimal.Significant — the significant digits of a number's text.

`significant` takes the digits in front of the exponent and leaves out the zeros at both ends. So it
does not see where the point is, and every layout shows the digits of the shortest decimal
(`significant_text`). No text that is read as the same number shows fewer
(`length_significant_text_le`).
-/

namespace ChunkSizing.Decimal

open Binary64

variable {text digits : List Char} {exponent : Int}

/-! ## Zeros at both ends -/

/-- Digits without the zeros at both ends. -/
def withoutEndZeros (digits : List Char) : List Char :=
  (digits.dropWhile (· == '0')).rdropWhile (· == '0')

theorem exists_zeros_dropWhile (digits : List Char) :
    ∃ count, digits = List.replicate count '0' ++ digits.dropWhile (· == '0') := by
  refine ⟨(digits.takeWhile (· == '0')).length, ?_⟩
  have hzeros : digits.takeWhile (· == '0') =
      List.replicate (digits.takeWhile (· == '0')).length '0' := by
    refine List.eq_replicate_of_mem fun c hc => ?_
    exact beq_iff_eq.1 (List.all_eq_true.1 List.all_takeWhile c hc)
  rw [← hzeros, List.takeWhile_append_dropWhile]

/-- What is left out are zeros. -/
theorem exists_surrounded (digits : List Char) :
    ∃ before after, digits = surrounded before (withoutEndZeros digits) after := by
  obtain ⟨before, hbefore⟩ := exists_zeros_dropWhile digits
  obtain ⟨after, hafter⟩ := exists_zeros_dropWhile (digits.dropWhile (· == '0')).reverse
  refine ⟨before, after, ?_⟩
  have hback := congrArg List.reverse hafter
  rw [List.reverse_reverse, List.reverse_append, List.reverse_replicate] at hback
  rw [surrounded, withoutEndZeros, List.rdropWhile, ← hback, ← hbefore]

theorem dropWhile_zeros_append (count : Nat) (h : digits.head? ≠ some '0') :
    (List.replicate count '0' ++ digits).dropWhile (· == '0') = digits := by
  rw [List.dropWhile_append_of_pos fun c hc => beq_iff_eq.2 (List.eq_of_mem_replicate hc)]
  cases digits with
  | nil => rfl
  | cons c digits =>
    refine List.dropWhile_cons_of_neg fun hzero => h ?_
    rw [beq_iff_eq.1 hzero]
    rfl

theorem withoutEndZeros_replicate (count : Nat) :
    withoutEndZeros (List.replicate count '0') = [] := by
  have hzeros : (List.replicate count '0').dropWhile (· == '0') = [] :=
    List.dropWhile_eq_nil_iff.2 fun c hc => beq_iff_eq.2 (List.eq_of_mem_replicate hc)
  rw [withoutEndZeros, hzeros]
  rfl

/-- All of them are left out. -/
theorem withoutEndZeros_surrounded (before after : Nat) (hne : digits ≠ [])
    (hhead : digits.head? ≠ some '0') (hlast : digits.getLast? ≠ some '0') :
    withoutEndZeros (surrounded before digits after) = digits := by
  have hfront : (digits ++ List.replicate after '0').head? ≠ some '0' := by
    rwa [List.head?_append_of_ne_nil _ hne]
  have hback : digits.reverse.head? ≠ some '0' := by rwa [List.head?_reverse]
  rw [withoutEndZeros, surrounded, dropWhile_zeros_append before hfront, List.rdropWhile,
    List.reverse_append, List.reverse_replicate, dropWhile_zeros_append after hback,
    List.reverse_reverse]

theorem mem_of_mem_withoutEndZeros {c : Char} (h : c ∈ withoutEndZeros digits) : c ∈ digits := by
  obtain ⟨before, after, heq⟩ := exists_surrounded digits
  rw [heq]
  exact List.mem_append_right _ (List.mem_append_left _ h)

/-! ## Significant digits -/

/-- Digits write less than a one with as many zeros. -/
theorem ofDigitChars_lt (hdigits : ∀ c ∈ digits, c.isDigit = true) (value : Nat) :
    Nat.ofDigitChars 10 digits value < (value + 1) * 10 ^ digits.length := by
  induction digits generalizing value with
  | nil => exact lt_of_lt_of_eq (Nat.lt_succ_self value) (Nat.mul_one _).symm
  | cons c digits ih =>
    obtain ⟨hdigit, hdigits⟩ := List.forall_mem_cons.1 hdigits
    have hbound : c.toNat ≤ 57 := (Char.isDigit_iff_toNat.1 hdigit).2
    have hvalue : 10 * value + (c.toNat - '0'.toNat) + 1 ≤ (value + 1) * 10 := by
      show 10 * value + (c.toNat - 48) + 1 ≤ (value + 1) * 10
      omega
    rw [Nat.ofDigitChars_cons, List.length_cons, Nat.pow_succ', ← Nat.mul_assoc]
    exact (ih hdigits _).trans_le (Nat.mul_le_mul_right _ hvalue)

/-- Not the mark of an exponent. -/
def isMantissa (c : Char) : Bool := c != 'e' && c != 'E'

/-- **The significant digits of a number's text**: those in front of the exponent, from the first
that is not zero to the last. -/
def significant (text : List Char) : List Char :=
  withoutEndZeros ((text.takeWhile isMantissa).filter Char.isDigit)

theorem isMantissa_of_isDigit {c : Char} (h : c.isDigit = true) : isMantissa c = true := by
  have hne (mark : Char) (hmark : mark.isDigit = false) : c ≠ mark := by
    rintro rfl
    rw [h] at hmark
    cases hmark
  simp [isMantissa, hne 'e' rfl, hne 'E' rfl]

theorem takeWhile_isMantissa {front tail : List Char} (hfront : ∀ c ∈ front, isMantissa c = true)
    (htail : IsExponent tail exponent) : (front ++ tail).takeWhile isMantissa = front := by
  rw [List.takeWhile_append_of_pos hfront]
  cases tail with
  | nil => exact List.append_nil front
  | cons c tail =>
    have hmark : ¬ isMantissa c = true := by
      rcases htail.head?_mem rfl with rfl | rfl <;> decide
    rw [List.takeWhile_cons_of_neg hmark, List.append_nil]

/-- The digits in front of the exponent are the digits that the text sets out. -/
theorem significant_of_setsOut (h : SetsOut text digits exponent) :
    significant text = withoutEndZeros digits := by
  unfold significant
  cases h with
  | integer hdigits htail =>
    rw [takeWhile_isMantissa (fun c hc => isMantissa_of_isDigit (hdigits c hc)) htail,
      List.filter_eq_self.2 hdigits]
  | point hwhole hfraction htail =>
    rename_i whole fraction tail exponent
    have hfront : ∀ c ∈ whole ++ '.' :: fraction, isMantissa c = true := by
      refine List.forall_mem_append.2 ⟨fun c hc => isMantissa_of_isDigit (hwhole c hc), ?_⟩
      exact List.forall_mem_cons.2 ⟨rfl, fun c hc => isMantissa_of_isDigit (hfraction c hc)⟩
    rw [← List.cons_append, ← List.append_assoc, takeWhile_isMantissa hfront htail,
      List.filter_append, List.filter_cons_of_neg (by decide), List.filter_eq_self.2 hwhole,
      List.filter_eq_self.2 hfraction]

theorem significant_signPart (text : List Char) :
    significant (signPart text).2 = significant text := by
  unfold signPart
  split <;> rfl

/-! ## The digits of every layout -/

section Layouts

variable {rank : Nat}

/-- **What every layout shows** are the digits of the shortest decimal, none for zero. -/
theorem significant_text (layout : Layout) (negative : Bool) (hfinite : rank < infinityRank) :
    significant (layout.text (ofRank negative rank)) =
      if rank = 0 then [] else (shortest layout.tie rank).written := by
  obtain ⟨before, after, -, hsets⟩ := exists_setsOut_text layout negative hfinite
  rw [← significant_signPart, significant_of_setsOut hsets]
  split
  · rename_i hzero
    rw [hzero, shortest_zero]
    -- the one digit of zero is one more zero
    show withoutEndZeros (List.replicate before '0' ++ (List.replicate 1 '0' ++
      List.replicate after '0')) = []
    rw [List.replicate_append_replicate, List.replicate_append_replicate,
      withoutEndZeros_replicate]
  · rename_i hne
    have hlast := digits_shortest_mod layout.tie (Nat.pos_of_ne_zero hne) hfinite
    exact withoutEndZeros_surrounded before after (written_ne_nil _)
      (head?_written_ne (by omega)) (getLast?_written_ne hlast)

/-- What a text denotes can be written with its significant digits. -/
theorem exists_readsBack_of_ofText {negative : Bool} {text : String} (hfinite : rank < infinityRank)
    (h : ofText text = .ok (ofRank negative rank)) : ∃ d : Decimal, d.ReadsBack rank ∧
      d.digits < 10 ^ (significant text.toList).length := by
  have hnumber : (ofRank negative rank).isFinite = true := by
    rw [isFinite_ofRank, decide_eq_true hfinite]
  obtain ⟨digits, exponent, hsets, -, heq⟩ := (ofText_eq_ok_iff hnumber).1 h
  obtain ⟨before, after, hzeros⟩ := exists_surrounded digits
  have hmove := value_surrounded before after (withoutEndZeros digits) (exponent + after)
  rw [← hzeros, add_sub_cancel_right] at hmove
  refine ⟨⟨Nat.ofDigitChars 10 (withoutEndZeros digits) 0, exponent + after⟩, ?_, ?_⟩
  · rw [ofDecimal_eq, hmove] at heq
    rw [readsBack_iff hfinite]
    simp only [ofRank, signed.injEq, Fin.mk.injEq] at heq
    omega
  · rw [← significant_signPart, significant_of_setsOut hsets]
    have hdigits : ∀ c ∈ withoutEndZeros digits, c.isDigit = true :=
      fun c hc => hsets.isDigit c (mem_of_mem_withoutEndZeros hc)
    exact lt_of_lt_of_eq (ofDigitChars_lt hdigits 0) (Nat.one_mul _)

/-- **The fewest digits.** A text that is read as the same number has no fewer significant ones. -/
theorem length_significant_text_le (layout : Layout) {x : Binary64} {text : String}
    (hfinite : x.isFinite = true) (h : ofText text = .ok x) :
    (significant (layout.text x)).length ≤ (significant text.toList).length := by
  obtain ⟨negative, rank, hrank, rfl⟩ := exists_of_isFinite hfinite
  obtain ⟨d, hread, hdigits⟩ := exists_readsBack_of_ofText hrank h
  rw [significant_text layout negative hrank]
  split
  · exact Nat.zero_le _
  rename_i hne
  have hpos := Nat.pos_of_ne_zero hne
  generalize (significant text.toList).length = count at hdigits ⊢
  have hcount : 0 < count := by
    refine Nat.pos_of_ne_zero ?_
    rintro rfl
    exact digits_ne_zero_of_readsBack hpos hrank hread (Nat.lt_one_iff.1 hdigits)
  rw [written_length_le_iff _ hcount]
  exact digits_shortest_lt_of_few layout.tie hcount hrank hdigits hread

end Layouts

end ChunkSizing.Decimal
