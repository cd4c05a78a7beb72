import ChunkSizing.Decimal.Layout
import ChunkSizing.Proofs.Decimal.Number
import ChunkSizing.Proofs.Decimal.Shortest

/-!
# ChunkSizing.Proofs.Decimal.Layout — what is set out is read back.

Every layout sets out the digits of a decimal, perhaps with zeros on either side and the power of
ten lowered by those at the end (`setsOut_digits`). Such zeros do not change the value
(`value_surrounded`), so the text of a finite number is read as that number, sign and all
(`ofText_text`), whatever the layout.
-/

namespace ChunkSizing.Decimal

open Binary64

variable {chars digits : List Char} {exponent : Int}

/-! ## Zeros on either side -/

/-- Characters with zeros on either side. -/
def surrounded (before : Nat) (digits : List Char) (after : Nat) : List Char :=
  List.replicate before '0' ++ (digits ++ List.replicate after '0')

theorem ofDigitChars_surrounded (before after : Nat) (digits : List Char) :
    Nat.ofDigitChars 10 (surrounded before digits after) 0 =
      10 ^ after * Nat.ofDigitChars 10 digits 0 := by
  rw [surrounded, Nat.ofDigitChars_append, Nat.ofDigitChars_append, Nat.ofDigitChars_replicate_zero,
    Nat.ofDigitChars_replicate_zero, Nat.mul_zero]

/-- Zeros in front do not count, and those at the end only move the power of ten. -/
theorem value_surrounded (before after : Nat) (digits : List Char) (exponent : Int) :
    value ⟨Nat.ofDigitChars 10 (surrounded before digits after) 0, exponent - after⟩ =
      value ⟨Nat.ofDigitChars 10 digits 0, exponent⟩ := by
  unfold value
  simp only [ofDigitChars_surrounded, zpow_sub₀ (show (10 : ℚ) ≠ 0 by norm_num), zpow_natCast]
  push_cast
  field_simp

theorem surrounded_ne_nil {before after : Nat} (h : digits ≠ []) :
    surrounded before digits after ≠ [] :=
  List.append_ne_nil_of_right_ne_nil _ (List.append_ne_nil_of_left_ne_nil h _)

/-! ## Digits -/

theorem written_ne_nil (d : Decimal) : d.written ≠ [] :=
  List.ne_nil_of_length_pos (written_length_pos d)

theorem isDigit_of_mem_written (d : Decimal) : ∀ c ∈ d.written, c.isDigit = true :=
  fun _ hc => Nat.isDigit_of_mem_toDigits (by decide) (by decide) hc

theorem isDigit_of_mem_zeros (count : Nat) : ∀ c ∈ List.replicate count '0', c.isDigit = true := by
  intro c hc
  rw [List.eq_of_mem_replicate hc]
  rfl

/-- The digits of a layout's exponent are those of a signed integer. -/
theorem isExponent_leading (leading : Int) :
    IsExponent ('e' :: (if leading < 0 then '-' else '+') :: Nat.toDigits 10 leading.natAbs)
      leading := by
  have hdigits := digits_repr leading.natAbs
  rw [Nat.toList_repr] at hdigits
  refine .marked (.inl rfl) ?_
  split
  · exact .inr ⟨leading.natAbs, isNegated_minus_iff.2 hdigits, by omega⟩
  · exact .inl ⟨leading.natAbs, isUnsigned_plus_iff.2 hdigits, by omega⟩

theorem setsOut_plainDigits (pointZero : Bool) (d : Decimal) : ∃ before after,
    SetsOut (Layout.plainDigits pointZero d) (surrounded before d.written after)
      (d.exponent - after) := by
  have hdigits := isDigit_of_mem_written d
  have hpos := written_length_pos d
  unfold Layout.plainDigits
  simp only
  split
  · rename_i hexponent
    obtain ⟨zeros, hzeros⟩ := Int.eq_ofNat_of_zero_le hexponent
    have hwhole := List.forall_mem_append.2 ⟨hdigits, isDigit_of_mem_zeros zeros⟩
    rw [hzeros]
    cases pointZero with
    | true =>
      -- the zero behind the point is one more at the end
      refine ⟨0, zeros + 1, ?_⟩
      convert SetsOut.point hwhole (isDigit_of_mem_zeros 1) .absent using 1
      · simp
      · simp [surrounded, List.replicate_succ']
      · simp
    | false =>
      refine ⟨0, zeros, ?_⟩
      convert SetsOut.integer hwhole .absent using 1
      · simp
      · rfl
      · exact sub_self _
  split
  · rename_i hneg hwhole
    refine ⟨0, 0, ?_⟩
    convert SetsOut.point (fun c hc => hdigits c (List.mem_of_mem_take hc))
      (fun c hc => hdigits c (List.mem_of_mem_drop hc)) .absent using 1
    · rw [List.append_nil]
    · simp [surrounded]
    · rw [List.length_drop]
      omega
  · rename_i hneg hwhole
    refine ⟨(-(d.written.length + d.exponent)).toNat + 1, 0, ?_⟩
    convert SetsOut.point (isDigit_of_mem_zeros 1)
      (List.forall_mem_append.2 ⟨isDigit_of_mem_zeros _, hdigits⟩) .absent using 1
    · rw [List.append_nil]
      rfl
    · simp [surrounded, List.replicate_succ]
    · rw [List.length_append, List.length_replicate]
      omega

/-- Plain digits are digits and the point. -/
theorem isDigit_or_of_mem_plainDigits {pointZero : Bool} {d : Decimal} :
    ∀ c ∈ Layout.plainDigits pointZero d, c.isDigit = true ∨ c = '.' := by
  have hwritten : ∀ c ∈ d.written, c.isDigit = true ∨ c = '.' :=
    fun c hc => .inl (isDigit_of_mem_written d c hc)
  have hzeros (count : Nat) : ∀ c ∈ List.replicate count '0', c.isDigit = true ∨ c = '.' :=
    fun c hc => .inl (isDigit_of_mem_zeros count c hc)
  unfold Layout.plainDigits
  simp only
  split
  · refine List.forall_mem_append.2 ⟨List.forall_mem_append.2 ⟨hwritten, hzeros _⟩, ?_⟩
    cases pointZero <;> simp
  split
  · refine List.forall_mem_append.2 ⟨fun c hc => hwritten c (List.mem_of_mem_take hc), ?_⟩
    exact List.forall_mem_cons.2 ⟨.inr rfl, fun c hc => hwritten c (List.mem_of_mem_drop hc)⟩
  · refine List.forall_mem_append.2 ⟨?_, hwritten⟩
    exact List.forall_mem_cons.2 ⟨.inl rfl, List.forall_mem_cons.2 ⟨.inr rfl, hzeros _⟩⟩

theorem setsOut_exponentDigits (d : Decimal) :
    SetsOut (Layout.exponentDigits d) d.written d.exponent := by
  have hexponent := isExponent_leading d.leading
  have hleading : d.leading = d.written.length - 1 + d.exponent := rfl
  have hdigits := isDigit_of_mem_written d
  have hpos := written_length_pos d
  unfold Layout.exponentDigits
  rcases hwritten : d.written with _ | ⟨first, _ | ⟨second, rest⟩⟩
  · rw [hwritten] at hpos
    cases hpos
  · rw [hwritten] at hdigits hleading
    convert SetsOut.integer hdigits hexponent using 1
    rw [hleading]
    simp
  · rw [hwritten] at hdigits hleading
    obtain ⟨hfirst, hrest⟩ := List.forall_mem_cons.1 hdigits
    convert SetsOut.point (List.forall_mem_singleton.2 hfirst) hrest hexponent using 1
    · rfl
    · rfl
    · simp only [List.length_cons] at hleading ⊢
      omega

/-- **The digits that a layout sets out** are those of the decimal. -/
theorem setsOut_digits (layout : Layout) (d : Decimal) : ∃ before after,
    SetsOut (layout.digits d) (surrounded before d.written after) (d.exponent - after) := by
  unfold Layout.digits
  split
  · exact setsOut_plainDigits _ d
  · refine ⟨0, 0, ?_⟩
    rw [surrounded, Nat.cast_zero, sub_zero]
    simpa using setsOut_exponentDigits d

/-! ## Numbers -/

/-- A layout puts the sign in front. -/
theorem signPart_sign (negative : Bool) (h : SetsOut chars digits exponent) (hne : digits ≠ []) :
    signPart ((if negative then ['-'] else []) ++ chars) = (negative, chars) := by
  cases negative with
  | true => rfl
  | false =>
    obtain ⟨c, hc, hdigit⟩ := h.exists_head hne
    obtain ⟨rest, rfl⟩ := List.head?_eq_some_iff.1 hc
    show signPart (c :: rest) = (false, c :: rest)
    unfold signPart
    split
    · rename_i heq
      obtain rfl := (List.cons.inj heq).1
      exact absurd hdigit (by decide)
    · rename_i heq
      obtain rfl := (List.cons.inj heq).1
      exact absurd hdigit (by decide)
    · rfl

theorem text_ofRank (layout : Layout) (negative : Bool) {rank : Nat}
    (hfinite : rank < infinityRank) : layout.text (ofRank negative rank) =
      (if negative then ['-'] else []) ++ layout.digits (shortest layout.tie rank) := by
  simp only [ofRank, Layout.text, Nat.min_eq_left hfinite.le, if_neg hfinite.ne]

/-- **The text of a finite number** is its sign and the digits of the shortest decimal. -/
theorem exists_setsOut_text (layout : Layout) (negative : Bool) {rank : Nat}
    (hfinite : rank < infinityRank) : ∃ before after,
      (signPart (layout.text (ofRank negative rank))).1 = negative ∧
      SetsOut (signPart (layout.text (ofRank negative rank))).2
        (surrounded before (shortest layout.tie rank).written after)
        ((shortest layout.tie rank).exponent - after) := by
  obtain ⟨before, after, hsets⟩ := setsOut_digits layout (shortest layout.tie rank)
  refine ⟨before, after, ?_⟩
  rw [text_ofRank layout negative hfinite, signPart_sign negative hsets]
  · exact ⟨rfl, hsets⟩
  · exact surrounded_ne_nil (written_ne_nil _)

/-- **Texts of finite numbers are read back**, whatever the layout. -/
theorem ofText_text (layout : Layout) {x : Binary64} (hfinite : x.isFinite = true) :
    ofText (String.ofList (layout.text x)) = .ok x := by
  obtain ⟨negative, rank, hrank, rfl⟩ := exists_of_isFinite hfinite
  obtain ⟨before, after, hsign, hsets⟩ := exists_setsOut_text layout negative hrank
  rw [ofText_eq_ok_iff hfinite, String.toList_ofList]
  refine ⟨_, _, hsets, surrounded_ne_nil (written_ne_nil _), ?_⟩
  have hread := (readsBack_iff hrank _).1 (readsBack_shortest layout.tie hrank)
  rw [hsign, ofDecimal_eq, value_surrounded, written, Nat.ofDigitChars_ten_toDigits, hread]

end ChunkSizing.Decimal
