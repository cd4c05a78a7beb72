import ChunkSizing.Json.Document
import ChunkSizing.Proofs.Decimal.Layout
import ChunkSizing.Proofs.Json.Denotation
import ChunkSizing.Proofs.Json.Reread
import ChunkSizing.Proofs.Json.Written

/-!
# ChunkSizing.Proofs.Json.NumberText — numbers and integers, written and read.

The layout of a number is a numeral whose significand and power are those of `gathered` of the
shortest decimal; so the text of a finite number denotes the number of `rereadRank`, with its sign
(`denotesNumber_chars`), and that is the number itself if few digits are written
(`reread_of_writtenShort`). The text of an integer of 64 bits denotes the integer
(`denotesInteger_chars`).
-/

namespace ChunkSizing.Json

open Binary64 Decimal

/-! ## The layout of a decimal -/

theorem toDigits_ne_nil (n : Nat) : Nat.toDigits 10 n ≠ [] :=
  List.ne_nil_of_length_pos Nat.length_toDigits_pos

/-- **The numeral that JSON's layout sets out.** -/
def writtenDecimal (negative : Bool) (d : Decimal) : Written :=
  let whole := d.written.length + d.exponent
  if numberLayout.positional d.leading then
    if 0 ≤ d.exponent then
      ⟨negative, d.written ++ List.replicate d.exponent.toNat '0', ['0'], none⟩
    else if 0 < whole then
      ⟨negative, d.written.take whole.toNat, d.written.drop whole.toNat, none⟩
    else ⟨negative, ['0'], List.replicate (-whole).toNat '0' ++ d.written, none⟩
  else
    ⟨negative, d.written.take 1, d.written.drop 1,
      some (decide (d.leading < 0), Nat.toDigits 10 d.leading.natAbs)⟩

theorem chars_writtenDecimal (negative : Bool) (d : Decimal) :
    (writtenDecimal negative d).chars =
      (if negative then ['-'] else []) ++ numberLayout.digits d := by
  have hpos := written_length_pos d
  unfold writtenDecimal Layout.digits
  simp only [Written.chars, List.append_assoc]
  split
  · unfold Layout.plainDigits
    simp only
    split
    · simp [Written.fractionChars, Written.exponentChars, numberLayout]
    split
    · rename_i hneg hwhole
      have hne : d.written.drop (d.written.length + d.exponent).toNat ≠ [] := by
        rw [Ne, List.drop_eq_nil_iff]
        omega
      simp [Written.fractionChars, Written.exponentChars, hne]
    · have hne : d.written ≠ [] := List.ne_nil_of_length_pos hpos
      simp [Written.fractionChars, Written.exponentChars, hne]
  · unfold Layout.exponentDigits
    obtain ⟨first, more, hwritten⟩ := List.exists_cons_of_ne_nil (List.ne_nil_of_length_pos hpos)
    cases more with
    | nil => simp [Written.fractionChars, Written.exponentChars, hwritten]
    | cons second rest => simp [Written.fractionChars, Written.exponentChars, hwritten]

/-- A decimal whose digits are zero has no exponent. -/
def Canonical (d : Decimal) : Prop := d.digits = 0 → d.exponent = 0

theorem areDigits_written (d : Decimal) : AreDigits d.written := areDigits_toDigits d.digits

theorem wellFormed_writtenDecimal (negative : Bool) {d : Decimal} (hd : Canonical d) :
    (writtenDecimal negative d).WellFormed := by
  have hpos := written_length_pos d
  have hdigits := areDigits_written d
  have htake (count : Nat) : AreDigits (d.written.take count) :=
    fun c hc => hdigits c (List.mem_of_mem_take hc)
  have hdrop (count : Nat) : AreDigits (d.written.drop count) :=
    fun c hc => hdigits c (List.mem_of_mem_drop hc)
  -- a leading zero is only written for the number zero or in front of the point
  unfold writtenDecimal
  simp only
  split
  · split
    · refine ⟨areDigits_append hdigits (areDigits_zeros _), ?_, ?_, areDigits_zeros 1, ?_⟩
      · exact List.append_ne_nil_of_left_ne_nil (List.ne_nil_of_length_pos hpos) _
      · intro hhead
        rw [List.head?_append_of_ne_nil _ (List.ne_nil_of_length_pos hpos)] at hhead
        have hzero : d.digits = 0 := by
          by_contra hne
          exact head?_written_ne hne hhead
        show d.written ++ _ = _
        rw [hd hzero, written, hzero]
        rfl
      · intro _ _ h
        cases h
    · rename_i hneg
      have hne : d.digits ≠ 0 := fun hzero => hneg (hd hzero).ge
      split
      · rename_i hwhole
        have hcount : (d.written.length + d.exponent).toNat ≠ 0 := by omega
        refine ⟨htake _, ?_, ?_, hdrop _, ?_⟩
        · rw [Ne, List.take_eq_nil_iff, not_or]
          exact ⟨hcount, List.ne_nil_of_length_pos hpos⟩
        · intro hhead
          rw [List.head?_take, if_neg hcount] at hhead
          exact absurd hhead (head?_written_ne hne)
        · intro _ _ h
          cases h
      · refine ⟨areDigits_zeros 1, List.cons_ne_nil _ _, fun _ => rfl, ?_, ?_⟩
        · exact areDigits_append (areDigits_zeros _) hdigits
        · intro _ _ h
          cases h
  · refine ⟨htake 1, ?_, ?_, hdrop 1, ?_⟩
    · rw [Ne, List.take_eq_nil_iff, not_or]
      exact ⟨one_ne_zero, List.ne_nil_of_length_pos hpos⟩
    · intro hhead
      obtain ⟨first, more, hwritten⟩ :=
        List.exists_cons_of_ne_nil (List.ne_nil_of_length_pos hpos)
      simp only [hwritten] at hhead ⊢
      rw [Option.some.inj hhead]
      rfl
    · intro negative digits h
      obtain ⟨-, rfl⟩ := Prod.mk.inj (Option.some.inj h)
      exact ⟨toDigits_ne_nil _, areDigits_toDigits _⟩

/-- The digits of the numeral are the gathered ones. -/
theorem significand_writtenDecimal (negative : Bool) (d : Decimal) :
    (writtenDecimal negative d).toNumeral.significand = (gathered d).digits := by
  have hwritten : Nat.ofDigitChars 10 d.written 0 = d.digits := Nat.ofDigitChars_ten_toDigits
  rw [Written.significand_toNumeral]
  unfold writtenDecimal gathered
  simp only
  split
  · rename_i hpositional
    split
    · rename_i hexponent
      obtain ⟨zeros, hzeros⟩ := Int.eq_ofNat_of_zero_le hexponent
      rw [if_pos ⟨hexponent, hpositional⟩, hzeros, Nat.ofDigitChars_append,
        Nat.ofDigitChars_append, hwritten]
      -- the zero behind the point counts as a digit too
      show Nat.ofDigitChars 10 (List.replicate 1 '0')
        (Nat.ofDigitChars 10 (List.replicate zeros '0') d.digits) = d.digits * 10 ^ (zeros + 1)
      rw [Nat.ofDigitChars_replicate_zero, Nat.ofDigitChars_replicate_zero]
      ring
    rename_i hneg
    have hfraction : ¬ (0 ≤ d.exponent ∧ numberLayout.positional d.leading = true) :=
      fun h => hneg h.1
    rw [if_neg hfraction]
    split
    · show Nat.ofDigitChars 10 (d.written.take _ ++ d.written.drop _) 0 = d.digits
      rw [List.take_append_drop, hwritten]
    · show Nat.ofDigitChars 10 (List.replicate 1 '0' ++ (List.replicate _ '0' ++ d.written)) 0 =
        d.digits
      simp only [Nat.ofDigitChars_append, Nat.ofDigitChars_replicate_zero, Nat.mul_zero]
      exact hwritten
  · rename_i hmark
    rw [if_neg fun h => hmark h.2]
    show Nat.ofDigitChars 10 (d.written.take 1 ++ d.written.drop 1) 0 = d.digits
    rw [List.take_append_drop, hwritten]

/-- So is the exponent of the last digit. -/
theorem power_writtenDecimal (negative : Bool) (d : Decimal) :
    (writtenDecimal negative d).toNumeral.power = (gathered d).exponent := by
  have hpos := written_length_pos d
  rw [Written.power_toNumeral]
  unfold writtenDecimal gathered
  simp only
  split
  · rename_i hpositional
    split
    · rename_i hexponent
      rw [if_pos ⟨hexponent, hpositional⟩]
      rfl
    rename_i hneg
    have hfraction : ¬ (0 ≤ d.exponent ∧ numberLayout.positional d.leading = true) :=
      fun h => hneg h.1
    rw [if_neg hfraction]
    split
    · show 0 - ((d.written.drop _).length : ℤ) = d.exponent
      rw [List.length_drop]
      omega
    · show 0 - ((List.replicate _ '0' ++ d.written).length : ℤ) = d.exponent
      rw [List.length_append, List.length_replicate]
      omega
  · rename_i hmark
    rw [if_neg fun h => hmark h.2]
    have hleading : d.leading = d.written.length - 1 + d.exponent := rfl
    have hexponent {written : Written} (h : written.exponent =
        some (decide (d.leading < 0), Nat.toDigits 10 d.leading.natAbs)) :
        Numeral.exponentValue written.toNumeral.exponent = d.leading := by
      unfold Written.toNumeral
      simp only [h, Numeral.exponentValue, Option.map_some, digitsValue_digitsOf,
        Nat.ofDigitChars_ten_toDigits]
      by_cases h : d.leading < 0
      · simp only [h, decide_true, if_true]
        omega
      · simp only [h, decide_false, Bool.false_eq_true, if_false]
        omega
    rw [hexponent rfl, List.length_drop]
    omega

/-! ## Numbers -/

section Numbers

variable {rank : Nat}

theorem canonical_shortest (hfinite : rank < infinityRank) :
    Canonical (shortest .toEven rank) := by
  intro hzero
  rcases Nat.eq_zero_or_pos rank with rfl | hrank
  · rw [shortest_zero]
  · have hread := readsBack_shortest .toEven hfinite
    exact absurd hzero (digits_ne_zero_of_readsBack hrank hfinite hread)

/-- The shortest decimal is neither too large nor too small to be looked at digit by digit. -/
theorem leading_shortest (hfinite : rank < infinityRank) :
    -330 ≤ (shortest .toEven rank).leading ∧ (shortest .toEven rank).leading ≤ 310 := by
  rcases Nat.eq_zero_or_pos rank with rfl | hpos
  · rw [shortest_zero]
    decide
  · have hread := readsBack_shortest .toEven hfinite
    unfold ReadsBack ofDecimal at hread
    split at hread
    · have := (ofRank_eq_iff false hfinite).1 hread
      omega
    split at hread
    · have := (ofRank_eq_iff false hfinite).1 hread
      omega
    split at hread
    · have := (ofRank_eq_iff false hfinite).1 hread
      omega
    · omega

/-- The numeral of a finite number. -/
def writtenNumber (negative : Bool) (rank : Nat) : Written :=
  writtenDecimal negative (shortest .toEven rank)

theorem chars_writtenNumber (negative : Bool) (hfinite : rank < infinityRank) :
    (writtenNumber negative rank).chars = numberLayout.text (ofRank negative rank) := by
  rw [text_ofRank _ _ hfinite]
  exact chars_writtenDecimal negative _

theorem wellFormed_writtenNumber (negative : Bool) (hfinite : rank < infinityRank) :
    (writtenNumber negative rank).WellFormed :=
  wellFormed_writtenDecimal negative (canonical_shortest hfinite)

theorem negative_writtenNumber (negative : Bool) (rank : Nat) :
    (writtenNumber negative rank).toNumeral.negative = negative := by
  unfold writtenNumber writtenDecimal Written.toNumeral
  simp only
  split
  · split
    · rfl
    split <;> rfl
  · rfl

theorem significand_writtenNumber (negative : Bool) (rank : Nat) :
    (writtenNumber negative rank).toNumeral.significand =
      (gathered (shortest .toEven rank)).digits :=
  significand_writtenDecimal negative _

theorem power_writtenNumber (negative : Bool) (rank : Nat) :
    (writtenNumber negative rank).toNumeral.power =
      (gathered (shortest .toEven rank)).exponent :=
  power_writtenDecimal negative _

theorem exponentFits_writtenNumber (negative : Bool) (hfinite : rank < infinityRank) :
    (writtenNumber negative rank).toNumeral.ExponentFits := by
  intro minus digits h
  obtain ⟨hlow, hhigh⟩ := leading_shortest hfinite
  unfold writtenNumber writtenDecimal Written.toNumeral at h
  simp only at h
  split at h
  · split at h
    · cases h
    split at h <;> cases h
  · obtain ⟨-, rfl⟩ := Prod.mk.inj (Option.some.inj h)
    rw [digitsValue_digitsOf, Nat.ofDigitChars_ten_toDigits]
    omega

/-- **The numeral of a finite number** denotes the number of `rereadRank`, with its sign. -/
theorem denotes_writtenNumber (negative : Bool) (hfinite : rank < infinityRank) :
    (writtenNumber negative rank).toNumeral.Denotes (ofRank negative (rereadRank rank)) := by
  have hword : (writtenNumber negative rank).toNumeral.significand < UInt64.size := by
    rw [significand_writtenNumber]
    exact (gathered_standsFor hfinite).digits_lt.trans (by decide)
  have hreread := rereadRank_lt hfinite
  rw [rereadRank_eq hfinite, ← significand_writtenNumber negative, ← power_writtenNumber negative]
    at hreread ⊢
  have hdenotes := Numeral.Denotes.scaled (Numeral.leading_of_lt hword)
    (exponentFits_writtenNumber negative hfinite) hreread
  rwa [negative_writtenNumber] at hdenotes

end Numbers

/-- **What a number comes back as.** -/
def reread : Binary64 → Binary64
  | .nan => .nan
  | .signed negative rank => ofRank negative (rereadRank rank)

theorem reread_ofRank (negative : Bool) {rank : Nat} (hfinite : rank < infinityRank) :
    reread (ofRank negative rank) = ofRank negative (rereadRank rank) := by
  simp only [reread, ofRank, Nat.min_eq_left hfinite.le]

/-! ## Integers -/

/-- The numeral of an integer. -/
def writtenInteger (value : Int) : Written :=
  ⟨decide (value < 0), Nat.toDigits 10 value.natAbs, [], none⟩

theorem chars_writtenInteger (value : Int) :
    (writtenInteger value).chars = integerDigits value := by
  unfold writtenInteger Written.chars integerDigits Written.fractionChars Written.exponentChars
  simp

theorem wellFormed_writtenInteger (value : Int) : (writtenInteger value).WellFormed := by
  refine ⟨areDigits_toDigits _, toDigits_ne_nil _, ?_, ?_, ?_⟩
  · intro hhead
    have hzero : value.natAbs = 0 := by
      by_contra hne
      exact head?_toDigits_ne (Nat.pos_iff_ne_zero.2 hne) hhead
    unfold writtenInteger
    rw [hzero]
    rfl
  · intro c hc
    cases hc
  · intro _ _ h
    cases h

/-- The numeral of an integer is an integer literal. -/
theorem writtenInteger_isInteger (value : Int) :
    (writtenInteger value).toNumeral.IsInteger value := by
  have hdigits : digitsValue (digitsOf (Nat.toDigits 10 value.natAbs)) = value.natAbs := by
    rw [digitsValue_digitsOf, Nat.ofDigitChars_ten_toDigits]
  refine ⟨rfl, rfl, ?_, ?_⟩
  · rintro ⟨hnegative, hzero⟩
    have hneg : value < 0 := of_decide_eq_true hnegative
    have : value.natAbs = 0 := hdigits.symm.trans hzero
    omega
  · show value = if decide (value < 0) = true then
      -((digitsValue (digitsOf (Nat.toDigits 10 value.natAbs)) : ℕ) : ℤ)
      else ((digitsValue (digitsOf (Nat.toDigits 10 value.natAbs)) : ℕ) : ℤ)
    simp only [hdigits, decide_eq_true_eq]
    split <;> omega

/-! ## What the texts of atoms denote -/

theorem spells_chars (negative : Bool) {rank : Nat} (hfinite : rank < infinityRank) :
    Spells (Utf8.encode (Atom.number (ofRank negative rank)).chars)
      (writtenNumber negative rank).toNumeral := by
  have hnumber : (ofRank negative rank).isFinite = true := by
    rw [isFinite_ofRank, decide_eq_true hfinite]
  rw [Atom.chars, if_pos hnumber, ← chars_writtenNumber negative hfinite]
  exact Written.spells (wellFormed_writtenNumber negative hfinite)

/-- **The text of a finite number** denotes what the number comes back as. -/
theorem denotesNumber_chars {x : Binary64} (hfinite : x.isFinite = true) :
    DenotesNumber (Utf8.encode (Atom.number x).chars) (reread x) := by
  obtain ⟨negative, rank, hrank, rfl⟩ := exists_of_isFinite hfinite
  rw [reread_ofRank _ hrank]
  exact ⟨_, spells_chars negative hrank, denotes_writtenNumber negative hrank⟩

/-- A number whose text is a short numeral. -/
def WrittenShort (x : Binary64) : Prop :=
  ∃ numeral, Spells (Utf8.encode (Atom.number x).chars) numeral ∧ numeral.IsShort

theorem writtenShort_ofRank_iff (negative : Bool) {rank : Nat} (hfinite : rank < infinityRank) :
    WrittenShort (ofRank negative rank) ↔ (writtenNumber negative rank).toNumeral.IsShort := by
  constructor
  · rintro ⟨numeral, htext, hshort⟩
    rwa [htext.numeral_eq (spells_chars negative hfinite)] at hshort
  · exact fun hshort => ⟨_, spells_chars negative hfinite, hshort⟩

/-- **A number that is written short comes back as it is**: its numeral is read as the nearest
number, and the written decimal stands for the number. -/
theorem reread_of_writtenShort {x : Binary64} (hfinite : x.isFinite = true) (h : WrittenShort x) :
    reread x = x := by
  obtain ⟨negative, rank, hrank, rfl⟩ := exists_of_isFinite hfinite
  have hshort := (writtenShort_ofRank_iff negative hrank).1 h
  have hnearest := hshort.denotes (exponentFits_writtenNumber negative hrank)
  have hstands := (gathered_standsFor hrank).rankOf_value
  unfold Decimal.value at hstands
  rw [negative_writtenNumber, significand_writtenNumber, power_writtenNumber, hstands] at hnearest
  rw [reread_ofRank _ hrank]
  exact (denotes_writtenNumber negative hrank).unique hnearest

/-- **The text of an integer** spells an integer literal of it. -/
theorem spells_integer (value : Int) : ∃ numeral,
    Spells (Utf8.encode (Atom.integer value).chars) numeral ∧ numeral.IsInteger value := by
  rw [Atom.chars, ← chars_writtenInteger]
  exact ⟨_, Written.spells (wellFormed_writtenInteger value), writtenInteger_isInteger value⟩

theorem denotesInteger_chars (value : Int64) :
    DenotesInteger (Utf8.encode (Atom.integer value.toInt).chars) value :=
  spells_integer value.toInt

/-- The text of a number that is not finite is `null`. -/
theorem encode_chars_of_not_isFinite {x : Binary64} (h : x.isFinite = false) :
    Utf8.encode (Atom.number x).chars = nullWord := by
  rw [Atom.chars, h]
  rfl

end ChunkSizing.Json
