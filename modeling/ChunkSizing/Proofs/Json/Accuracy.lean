import ChunkSizing.Proofs.Binary64.Rounded
import ChunkSizing.Proofs.Json.Denotation
import ChunkSizing.Proofs.Json.PromptValue

/-!
# ChunkSizing.Proofs.Json.Accuracy — where numerals are read as the nearest number.

The digits of a numeral are gathered as far as a word holds them, and the sign is put to the result
at the end: a minus in front turns the sign and nothing else, and a numeral that is out of range
stays so (`Numeral.toNumber_withMinus`). If the gathered digits are a number of 53 bits, then none
of them was lost, so what is read is the exact value with one rounding (`Numeral.GathersFew.read`).
-/

namespace ChunkSizing.Json

open Binary64

variable {before text rest : List UInt8} {numeral : Numeral}

/-! ## The number of a numeral -/

namespace Numeral

/-- The number of a numeral, or how many of its bytes stand behind the place where it turned out to
be out of range. -/
def toNumber (numeral : Numeral) : Except Nat Binary64 := numeral.value.map Value.toNumber

theorem toNumber_eq_ok_iff {x : Binary64} : numeral.toNumber = .ok x ↔ numeral.Denotes x := by
  rw [← number?_eq_some_iff]
  unfold toNumber number?
  rcases numeral.value with behind | (value | value)
  · exact iff_of_false nofun nofun
  · exact (Except.ok.injEq _ _).to_iff.trans Option.some_inj.symm
  · exact (Except.ok.injEq _ _).to_iff.trans Option.some_inj.symm

/-- What is read has the sign of the numeral, and is finite. -/
theorem Denotes.exists_rank {x : Binary64} (h : numeral.Denotes x) :
    ∃ rank, rank < infinityRank ∧ x = ofRank numeral.negative rank := by
  cases h with
  | scaled _ _ hfinite => exact ⟨_, hfinite, rfl⟩
  | vanishing => exact ⟨0, by decide, rfl⟩

/-! ## A minus in front -/

/-- The same numeral with a minus. -/
def withMinus (numeral : Numeral) : Numeral := { numeral with negative := true }

/-- **A minus turns the sign.** What is out of range is so with a minus too, and is found out at the
same byte. -/
theorem toNumber_withMinus (h : numeral.negative = false) :
    numeral.withMinus.toNumber = numeral.toNumber.map (-·) := by
  by_cases hplain : numeral.IsPlain
  · have hplain' : numeral.withMinus.IsPlain := hplain
    have hdenotes := number?_eq_some_iff.1 (number?_of_isPlain hplain)
    have hdenotes' := number?_eq_some_iff.1 (number?_of_isPlain hplain')
    rw [toNumber_eq_ok_iff.2 hdenotes, toNumber_eq_ok_iff.2 hdenotes', h]
    rfl
  · obtain ⟨negative, whole, fraction, exponent⟩ := numeral
    obtain rfl : negative = false := h
    unfold IsPlain at hplain
    dsimp only at hplain
    unfold toNumber withMinus Numeral.value
    dsimp only
    rw [if_neg hplain, if_neg hplain]
    -- both numerals are scaled by one power of ten, if they are scaled at all
    rcases exponent with - | ⟨minus, digits⟩
    · dsimp only
      generalize scale? _ _ = scaled?
      cases scaled? <;> rfl
    · dsimp only
      cases gatherExponent 0 digits with
      | ok exponent =>
        dsimp only
        generalize scale? _ _ = scaled?
        cases scaled? <;> rfl
      | error behind =>
        dsimp only
        split <;> rfl

/-! ## Digits that are all gathered -/

/-- **What is gathered of a numeral**: the digits that count as one number, and their power of ten.
An exponent of more than 31 bits is not gathered. -/
structure Gathers (numeral : Numeral) (significand : Nat) (power : Int) : Prop where
  leading : numeral.Leading significand power
  exponent : numeral.ExponentFits

/-- The gathered digits are a number of 53 bits at most, and their power of ten is small. -/
def GathersFew (numeral : Numeral) : Prop :=
  ∃ significand power, numeral.Gathers significand power ∧ significand ≤ 2 ^ 53 ∧
    -22 ≤ power ∧ power ≤ 22

/-- **The exact value of a numeral**, with every digit of it. -/
def exact (numeral : Numeral) : ℚ :=
  if numeral.negative then -(numeral.significand * 10 ^ numeral.power)
  else numeral.significand * 10 ^ numeral.power

/-- The digits on both sides of the point are decimal digits. -/
def HasDigits (numeral : Numeral) : Prop :=
  (∀ digit ∈ numeral.whole, digit ≤ 9) ∧ ∀ digit ∈ numeral.fraction, digit ≤ 9

end Numeral

theorem le_nine_of_mem_digits {digit : Nat} (h : digit ∈ digits text) : digit ≤ 9 := by
  obtain ⟨b, hb, rfl⟩ := List.mem_map.1 h
  have hdigit := isDigit_iff.1 (List.mem_takeWhile_imp hb)
  omega

theorem Spells.hasDigits (h : Spells text numeral) : numeral.HasDigits := by
  obtain ⟨negative, hwhole, hfraction, -⟩ := h
  refine ⟨fun digit hdigit => le_nine_of_mem_digits hdigit, fun digit hdigit => ?_⟩
  cases hfraction with
  | none => cases hdigit
  | point => exact le_nine_of_mem_digits hdigit

theorem length_digits_le (text : List UInt8) : (digits text).length ≤ text.length := by
  unfold digits
  rw [List.length_map]
  exact (List.takeWhile_prefix isDigit).length_le

/-- A numeral has no more digits than its text has bytes. -/
theorem Spells.length_digits_le (h : Spells text numeral) :
    numeral.whole.length ≤ text.length ∧ numeral.fraction.length ≤ text.length := by
  obtain ⟨negative, -, hfraction, -⟩ := h
  simp only [List.length_append]
  refine ⟨(Json.length_digits_le _).trans (by omega), ?_⟩
  cases hfraction with
  | none => exact Nat.zero_le _
  | @point text =>
    refine (Json.length_digits_le text).trans ?_
    rw [List.length_cons]
    omega

/-- Digits behind a small number are all held. -/
theorem Held.eq_of_le {start value others : Nat} {digits : List Nat}
    (h : Held start digits value others) (hdigits : ∀ digit ∈ digits, digit ≤ 9)
    (hle : value ≤ 2 ^ 53) : value = appendDigits start digits ∧ others = 0 := by
  have hnone : others = 0 := by
    obtain ⟨⟨front, back, rfl, -, rfl, hfull⟩, -⟩ := h
    cases back with
    | nil => rfl
    | cons digit back =>
      -- the first digit that is lost does not fit behind the number
      have hlost : 2 ^ 64 ≤ 10 * value + digit := hfull digit rfl
      have hdigit := hdigits digit (List.mem_append_right _ List.mem_cons_self)
      omega
  subst hnone
  exact ⟨h.eq_appendDigits, rfl⟩

namespace Numeral

/-- **A small significand has all the digits**, so nothing of the numeral is lost. -/
theorem Leading.eq_of_le {significand : Nat} {power : Int}
    (h : numeral.Leading significand power) (hdigits : numeral.HasDigits)
    (hle : significand ≤ 2 ^ 53) : significand = numeral.significand ∧ power = numeral.power := by
  obtain ⟨whole, beyond, others, hwhole, hfraction, rfl⟩ := h
  obtain ⟨hsignificand, rfl⟩ := hfraction.eq_of_le hdigits.2 hle
  have hwhole_le : whole ≤ 2 ^ 53 :=
    (le_appendDigits whole numeral.fraction).trans (hsignificand ▸ hle)
  obtain ⟨rfl, rfl⟩ := hwhole.eq_of_le hdigits.1 hwhole_le
  refine ⟨?_, ?_⟩
  · rw [hsignificand]
    exact List.foldl_append.symm
  · unfold power
    omega

/-- The exponent of a text of less than 2 GiB fits, if the power of ten is small. -/
theorem Leading.exponentFits {significand : Nat} {power : Int}
    (h : numeral.Leading significand power) (htext : Spells text numeral) (hlow : -22 ≤ power)
    (hhigh : power ≤ 22) (hlength : text.length < 2 ^ 31 - 22) : numeral.ExponentFits := by
  obtain ⟨whole, beyond, others, ⟨⟨front, back, hwhole, -, rfl, -⟩, -⟩, -, rfl⟩ := h
  obtain ⟨hwhole_le, hfraction_le⟩ := htext.length_digits_le
  rw [hwhole, List.length_append] at hwhole_le
  intro negative digits hexponent
  rw [hexponent] at hlow hhigh
  have hrest : numeral.fraction.length - others ≤ text.length := by omega
  cases negative with
  | false =>
    have hvalue : exponentValue (some (false, digits)) = digitsValue digits := rfl
    omega
  | true =>
    have hvalue : exponentValue (some (true, digits)) = -(digitsValue digits : Int) := rfl
    omega

/-- **Few digits, by the text alone.** Only a text of 2 GiB and more could have an exponent that is
not gathered. -/
theorem Leading.gathersFew {significand : Nat} {power : Int}
    (h : numeral.Leading significand power) (htext : Spells text numeral)
    (hle : significand ≤ 2 ^ 53) (hlow : -22 ≤ power) (hhigh : power ≤ 22)
    (hlength : text.length < 2 ^ 31 - 22) : numeral.GathersFew :=
  ⟨significand, power, ⟨h, h.exponentFits htext hlow hhigh hlength⟩, hle, hlow, hhigh⟩

theorem IsShort.gathersFew (h : numeral.IsShort) (htext : Spells text numeral)
    (hlength : text.length < 2 ^ 31 - 22) : numeral.GathersFew :=
  (leading_of_lt (h.significand_le.trans_lt (by decide))).gathersFew htext h.significand_le
    h.le_power h.power_le hlength

theorem abs_exact (numeral : Numeral) :
    |numeral.exact| = numeral.significand * 10 ^ numeral.power := by
  have hnonneg : (0 : ℚ) ≤ numeral.significand * 10 ^ numeral.power := by positivity
  unfold exact
  split
  · rw [abs_neg, abs_of_nonneg hnonneg]
  · exact abs_of_nonneg hnonneg

theorem exact_nonneg (h : numeral.negative = false) : 0 ≤ numeral.exact := by
  unfold exact
  rw [h, if_neg Bool.false_ne_true]
  positivity

theorem exact_nonpos (h : numeral.negative = true) : numeral.exact ≤ 0 := by
  unfold exact
  rw [h, if_pos rfl, neg_nonpos]
  positivity

/-- Exact values tell signs apart, except at zero. -/
theorem negative_eq_of_exact_eq {numeral' : Numeral} (hsame : numeral.exact = numeral'.exact)
    (hne : numeral.exact ≠ 0) : numeral.negative = numeral'.negative := by
  cases hsign : numeral.negative <;> cases hsign' : numeral'.negative
  · rfl
  · exact absurd (le_antisymm (hsame ▸ exact_nonpos hsign') (exact_nonneg hsign)) hne
  · exact absurd (le_antisymm (exact_nonpos hsign) (hsame ▸ exact_nonneg hsign')) hne
  · rfl

/-- **Few gathered digits are read as the nearest number** to the exact value. -/
theorem GathersFew.denotes (h : numeral.GathersFew) (hdigits : numeral.HasDigits) :
    numeral.Denotes (ofRank numeral.negative (rankOf |numeral.exact|)) := by
  obtain ⟨significand, power, ⟨hleading, hexponent⟩, hle, hlow, hhigh⟩ := h
  obtain ⟨rfl, rfl⟩ := hleading.eq_of_le hdigits hle
  have hshort : numeral.IsShort := ⟨hle, hlow, hhigh⟩
  rw [abs_exact]
  exact hshort.denotes hexponent

/-- The finite number of the rank nearest to the exact value is the nearest to it. -/
theorem isRounded_exact
    (hfinite : (ofRank numeral.negative (rankOf |numeral.exact|)).isFinite = true) :
    IsRounded numeral.exact (ofRank numeral.negative (rankOf |numeral.exact|)) := by
  rw [isFinite_ofRank, decide_eq_true_eq] at hfinite
  have hrounded := isRounded_ofRank numeral.negative (abs_nonneg numeral.exact) hfinite
  rw [abs_exact] at hrounded ⊢
  exact hrounded

end Numeral

/-! ## Reading a numeral -/

/-- **A numeral in its place**, behind white space and in front of bytes that cannot go on with
it. -/
structure Stands (before text rest : List UInt8) (numeral : Numeral) : Prop where
  before : Blank before
  text : Spells text numeral
  rest : EndsNumeral rest

theorem Stands.withMinus (h : Stands before text rest numeral) (hsign : numeral.negative = false) :
    Stands before (ascii '-' :: text) rest numeral.withMinus := by
  obtain ⟨hbefore, htext, hrest⟩ := h
  refine ⟨hbefore, ?_, hrest⟩
  obtain ⟨negative, hwhole, hfraction, hexponent⟩ := htext
  obtain rfl : negative = false := hsign
  exact .mk true hwhole hfraction hexponent

/-- The first byte of a numeral is met behind the white space. -/
theorem Stands.skipBlank (h : Stands before text rest numeral) : ∃ b tail,
    skipBlank (before ++ (text ++ rest)) = b :: tail ∧ b :: tail = text ++ rest ∧
      (b = ascii '-' ∨ isDigit b = true) := by
  obtain ⟨b, tail, rfl, hb⟩ := h.text.exists_cons
  obtain ⟨first, others, hcons, hblank, -⟩ := h.text.solid
  obtain ⟨rfl, rfl⟩ := List.cons.inj hcons
  refine ⟨b, tail ++ rest, ?_, rfl, hb⟩
  rw [skipBlank_append h.before, List.cons_append, skipBlank_cons _ hblank]

/-- What is read of a numeral in front of other bytes: its number, or that it is out of range. -/
def Numeral.result (numeral : Numeral) (rest : List UInt8) :
    Except Fault (Binary64 × List UInt8) :=
  match numeral.toNumber with
  | .ok x => .ok (x, rest)
  | .error behind => .error ⟨.numberOutOfRange, rest.length + behind, none⟩

theorem Stands.numberValue_eq (h : Stands before text rest numeral) :
    numberValue (before ++ (text ++ rest)) = numeral.result rest := by
  obtain ⟨b, tail, hblank, hinput, hb⟩ := h.skipBlank
  unfold numberValue onValue
  rw [hblank]
  dsimp only
  rw [if_pos hb, hinput]
  unfold number
  rw [numeral_complete h.text h.rest]
  unfold Numeral.result Numeral.toNumber
  dsimp only
  rcases numeral.value with behind | (value | value) <;> rfl

/-- A numeral is not taken for an absent value. -/
theorem Stands.optional_eq (h : Stands before text rest numeral) :
    optional numberValue (before ++ (text ++ rest)) =
      storing numberValue some (before ++ (text ++ rest)) := by
  obtain ⟨b, tail, hblank, hinput, hb⟩ := h.skipBlank
  have hnull : b ≠ ascii 'n' := by
    rintro rfl
    revert hb
    decide
  have hbare : Stands [] text rest numeral := ⟨.nil, h.text, h.rest⟩
  have hread := hbare.numberValue_eq
  rw [List.nil_append, ← hinput] at hread
  unfold optional onValue storing
  rw [hblank]
  dsimp only
  rw [if_neg hnull, hread, h.numberValue_eq]

end ChunkSizing.Json
