import ChunkSizing.Json.Numeral
import ChunkSizing.Proofs.Json.Scaling

/-!
# ChunkSizing.Proofs.Json.Value — what numerals are worth.

A numeral without point and exponent is an integer literal (`Numeral.IsInteger`). As a number a
numeral is the digits that count, which a word holds, scaled by a power of ten (`Numeral.Denotes`).
That is not always the number nearest to what it says, but it is if the digits are few and the power
is small (`Numeral.IsShort.denotes`).
-/

namespace ChunkSizing.Json

open Binary64

/-! ## Digits -/

/-- Digits behind a number, the most significant first. -/
def appendDigits (value : Nat) (digits : List Nat) : Nat :=
  digits.foldl (fun value digit => 10 * value + digit) value

/-- The value of digits. -/
def digitsValue (digits : List Nat) : Nat := appendDigits 0 digits

theorem le_appendDigits (value : Nat) (digits : List Nat) : value ≤ appendDigits value digits := by
  induction digits generalizing value with
  | nil => exact le_rfl
  | cons digit digits ih =>
    have hstep : value ≤ 10 * value + digit := by omega
    exact hstep.trans (ih _)

/-- **The digits that a word holds**, behind `start`: as many of them as fit 64 bits. The others are
only counted. -/
structure Held (start : Nat) (digits : List Nat) (value others : Nat) : Prop where
  exists_front : ∃ front back, digits = front ++ back ∧ appendDigits start front = value ∧
    back.length = others ∧ ∀ digit ∈ back.head?, UInt64.size ≤ 10 * value + digit
  value_lt : value < UInt64.size

theorem held_nil_iff {start value others : Nat} (hstart : start < UInt64.size) :
    Held start [] value others ↔ value = start ∧ others = 0 := by
  constructor
  · rintro ⟨⟨front, back, hdigits, rfl, rfl, -⟩, -⟩
    obtain ⟨rfl, rfl⟩ := List.nil_eq_append_iff.1 hdigits
    exact ⟨rfl, rfl⟩
  · rintro ⟨rfl, rfl⟩
    exact ⟨⟨[], [], rfl, rfl, rfl, nofun⟩, hstart⟩

theorem held_cons_of_lt {start digit value others : Nat} {digits : List Nat}
    (h : 10 * start + digit < UInt64.size) :
    Held start (digit :: digits) value others ↔ Held (10 * start + digit) digits value others := by
  constructor
  · rintro ⟨⟨front, back, hdigits, happend, hothers, hfull⟩, hlt⟩
    cases front with
    | nil =>
      obtain rfl : start = value := happend
      obtain rfl : digit :: digits = back := hdigits
      exact absurd h (Nat.not_lt.2 (hfull digit rfl))
    | cons first front =>
      obtain ⟨rfl, rfl⟩ := List.cons.inj hdigits
      exact ⟨⟨front, back, rfl, happend, hothers, hfull⟩, hlt⟩
  · rintro ⟨⟨front, back, rfl, happend, hothers, hfull⟩, hlt⟩
    exact ⟨⟨digit :: front, back, rfl, happend, hothers, hfull⟩, hlt⟩

theorem held_cons_of_le {start digit value others : Nat} {digits : List Nat}
    (hstart : start < UInt64.size) (h : UInt64.size ≤ 10 * start + digit) :
    Held start (digit :: digits) value others ↔ value = start ∧ others = digits.length + 1 := by
  constructor
  · rintro ⟨⟨front, back, hdigits, happend, hothers, -⟩, hlt⟩
    cases front with
    | nil =>
      obtain rfl : digit :: digits = back := hdigits
      exact ⟨happend.symm, hothers.symm⟩
    | cons first front =>
      obtain ⟨rfl, rfl⟩ := List.cons.inj hdigits
      have hbeyond : 10 * start + digit ≤ value := happend ▸ le_appendDigits _ front
      exact absurd hlt (Nat.not_lt.2 (h.trans hbeyond))
  · rintro ⟨rfl, rfl⟩
    refine ⟨⟨[], digit :: digits, rfl, rfl, rfl, ?_⟩, hstart⟩
    rintro _ ⟨⟩
    exact h

/-- **Digits are gathered as far as a word holds them.** -/
theorem gather_eq_iff {start : Nat} {digits : List Nat} {value others : Nat}
    (hstart : start < UInt64.size) :
    gather start digits = (value, others) ↔ Held start digits value others := by
  induction digits generalizing start with
  | nil =>
    rw [held_nil_iff hstart, gather, Prod.mk.injEq, @eq_comm _ start, @eq_comm _ 0]
  | cons digit digits ih =>
    rw [gather]
    split
    · rename_i hfits
      rw [held_cons_of_lt hfits]
      exact ih hfits
    · rename_i hfull
      rw [held_cons_of_le hstart (Nat.not_lt.1 hfull), Prod.mk.injEq, @eq_comm _ start,
        @eq_comm _ (digits.length + 1)]

/-- Digits that fit are all held. -/
theorem held_of_lt {start : Nat} {digits : List Nat}
    (h : appendDigits start digits < UInt64.size) :
    Held start digits (appendDigits start digits) 0 :=
  ⟨⟨digits, [], (List.append_nil _).symm, rfl, rfl, nofun⟩, h⟩

/-- If no digit is left they are all held. -/
theorem Held.eq_appendDigits {start : Nat} {digits : List Nat} {value : Nat}
    (h : Held start digits value 0) : value = appendDigits start digits := by
  obtain ⟨⟨front, back, rfl, rfl, hback, -⟩, -⟩ := h
  rw [List.eq_nil_of_length_eq_zero hback, List.append_nil]

theorem exists_held {start : Nat} (digits : List Nat) (hstart : start < UInt64.size) :
    ∃ value others, Held start digits value others :=
  ⟨_, _, (gather_eq_iff hstart).1 rfl⟩

theorem gatherExponent_of_lt {start : Nat} {digits : List Nat}
    (h : appendDigits start digits < 0x80000000) :
    gatherExponent start digits = .ok (appendDigits start digits) := by
  induction digits generalizing start with
  | nil => rfl
  | cons digit digits ih =>
    have hfits := (le_appendDigits (10 * start + digit) digits).trans_lt h
    rw [gatherExponent, if_pos hfits]
    exact ih h

theorem gatherExponent_of_le {start : Nat} {digits : List Nat} (hstart : start < 0x80000000)
    (h : 0x80000000 ≤ appendDigits start digits) :
    ∃ behind, gatherExponent start digits = .error behind := by
  induction digits generalizing start with
  | nil => exact absurd hstart (Nat.not_lt.2 h)
  | cons digit digits ih =>
    rw [gatherExponent]
    split
    · rename_i hfits
      exact ih hfits h
    · exact ⟨_, rfl⟩

namespace Numeral

/-! ## Integers -/

/-- **An integer literal**: no point, no exponent, and not the zero with a minus. -/
structure IsInteger (numeral : Numeral) (value : Int) : Prop where
  fraction : numeral.fraction = []
  exponent : numeral.exponent = none
  not_minus_zero : ¬ (numeral.negative = true ∧ digitsValue numeral.whole = 0)
  value_eq : value =
    if numeral.negative then -(digitsValue numeral.whole : Int) else digitsValue numeral.whole

/-- A numeral without point and exponent whose digits fit. -/
def IsPlain (numeral : Numeral) : Prop :=
  numeral.fraction = [] ∧ numeral.exponent = none ∧ (gather 0 numeral.whole).2 = 0

theorem gather_whole {numeral : Numeral} (h : (gather 0 numeral.whole).2 = 0) :
    gather 0 numeral.whole = (digitsValue numeral.whole, 0) := by
  have hheld : Held 0 numeral.whole (gather 0 numeral.whole).1 0 :=
    (gather_eq_iff (by decide)).1 (Prod.ext rfl h)
  exact Prod.ext hheld.eq_appendDigits h

theorem value_of_isPlain {numeral : Numeral} (h : numeral.IsPlain) :
    numeral.value =
      if !numeral.negative then .ok (.integer (digitsValue numeral.whole))
      else if digitsValue numeral.whole = 0 ∨ 0x8000000000000000 < digitsValue numeral.whole then
        .ok (.number (-Binary64.ofInt (digitsValue numeral.whole)))
      else .ok (.integer (-(digitsValue numeral.whole : Int))) := by
  obtain ⟨hfraction, hexponent, hfits⟩ := h
  have hgather := gather_whole hfits
  unfold value
  rw [hgather]
  exact if_pos ⟨hfraction, hexponent, rfl⟩

theorem value_ne_integer {numeral : Numeral} (h : ¬ numeral.IsPlain) (value : Int) :
    numeral.value ≠ .ok (.integer value) := by
  intro hvalue
  unfold IsPlain at h
  unfold Numeral.value at hvalue
  dsimp only at hvalue
  rw [if_neg h] at hvalue
  split at hvalue
  · split at hvalue <;> cases hvalue
  · split at hvalue
    · split at hvalue <;> cases hvalue
    · split at hvalue <;> cases hvalue

/-- What is valued as an integer is an integer literal. -/
theorem isInteger_of_value {numeral : Numeral} {value : Int}
    (h : numeral.value = .ok (.integer value)) : numeral.IsInteger value := by
  have hplain : numeral.IsPlain := by
    by_contra hplain
    exact numeral.value_ne_integer hplain value h
  rw [value_of_isPlain hplain] at h
  obtain ⟨hfraction, hexponent, -⟩ := hplain
  cases hsign : numeral.negative with
  | false =>
    rw [hsign] at h
    cases h
    exact ⟨hfraction, hexponent, by simp [hsign], by simp [hsign]⟩
  | true =>
    rw [hsign] at h
    simp only [Bool.not_true, Bool.false_eq_true, if_false] at h
    split at h
    · cases h
    · rename_i hrange
      cases h
      exact ⟨hfraction, hexponent, fun hzero => hrange (.inl hzero.2), by simp [hsign]⟩

/-- An integer literal of 64 bits is valued as an integer. -/
theorem IsInteger.value_eq_ok {numeral : Numeral} {value : Int}
    (h : numeral.IsInteger value) (hlow : -2 ^ 63 ≤ value) (hhigh : value < 2 ^ 63) :
    numeral.value = .ok (.integer value) := by
  obtain ⟨hfraction, hexponent, hzero, hvalue⟩ := h
  have hfits : digitsValue numeral.whole ≤ 2 ^ 63 := by
    split at hvalue <;> omega
  have hplain : numeral.IsPlain := by
    have hheld := held_of_lt (lt_of_le_of_lt hfits (show 2 ^ 63 < UInt64.size by decide))
    exact ⟨hfraction, hexponent, congrArg Prod.snd ((gather_eq_iff (by decide)).2 hheld)⟩
  rw [value_of_isPlain hplain]
  cases hsign : numeral.negative with
  | false =>
    rw [hsign] at hvalue
    rw [hvalue]
    rfl
  | true =>
    rw [hsign] at hvalue hzero
    have hrange : ¬ (digitsValue numeral.whole = 0 ∨
        0x8000000000000000 < digitsValue numeral.whole) := by
      rintro (h | h)
      · exact hzero ⟨rfl, h⟩
      · exact absurd hfits (Nat.not_le.2 h)
    rw [hvalue, if_neg (by decide), if_neg hrange]
    rfl

/-! ## Numbers -/

/-- What an exponent stands for. -/
def exponentValue : Option (Bool × List Nat) → Int
  | none => 0
  | some (negative, digits) => if negative then -(digitsValue digits) else digitsValue digits

/-- An exponent of 31 bits, or none. -/
def ExponentFits (numeral : Numeral) : Prop :=
  ∀ negative digits, numeral.exponent = some (negative, digits) → digitsValue digits < 0x80000000

/-- **The digits that count**, as one number, and the power of ten of the last of them. The digits
before the point count as far as a word holds them, and those behind it as far as it holds them
then. -/
def Leading (numeral : Numeral) (significand : Nat) (power : Int) : Prop :=
  ∃ whole beyond others, Held 0 numeral.whole whole beyond ∧
    Held whole numeral.fraction significand others ∧
    power = exponentValue numeral.exponent + (beyond - (numeral.fraction.length - others : ℕ))

/-- **The number that a numeral denotes.** The digits that count are scaled by their power of ten,
with the roundings of `scaledRank`, and the result must be finite. An exponent of more than 31 bits
is not looked at any further: everything that it makes smaller is zero, and zero is all that it may
make larger. -/
inductive Denotes (numeral : Numeral) : Binary64 → Prop where
  | scaled {significand : Nat} {power : Int} (hleading : numeral.Leading significand power)
      (hexponent : numeral.ExponentFits) (hfinite : scaledRank significand power < infinityRank) :
      Denotes numeral (ofRank numeral.negative (scaledRank significand power))
  | vanishing {significand : Nat} {power : Int} {negative : Bool} {digits : List Nat}
      (hleading : numeral.Leading significand power)
      (hexponent : numeral.exponent = some (negative, digits))
      (hlarge : 0x80000000 ≤ digitsValue digits) (hzero : significand = 0 ∨ negative = true) :
      Denotes numeral (.zero numeral.negative)

/-- A numeral as a number; there is none beyond the finite ones. -/
def number? (numeral : Numeral) : Option Binary64 :=
  match numeral.value with
  | .ok (.integer value) => some (.ofInt value)
  | .ok (.number value) => some value
  | .error _ => none

theorem signed_ofRank (numeral : Numeral) (rank : Nat) :
    numeral.signed (ofRank false rank) = ofRank numeral.negative rank := by
  unfold signed
  cases numeral.negative <;> rfl

/-- A numeral that is read as one integer word is the number nearest to the integer. -/
theorem number?_of_isPlain {numeral : Numeral} (h : numeral.IsPlain) :
    numeral.number? = some (ofRank numeral.negative (rankOf (digitsValue numeral.whole))) := by
  rw [number?, value_of_isPlain h]
  cases numeral.negative with
  | false => exact congrArg some (ofInt_natCast _)
  | true =>
    -- a word with a minus may be too small for an integer, or the negative zero
    by_cases hrange : digitsValue numeral.whole = 0 ∨ 0x8000000000000000 < digitsValue numeral.whole
    · simp only [Bool.not_true, Bool.false_eq_true, if_false, if_pos hrange, ofInt_natCast]
      rfl
    · simp only [Bool.not_true, Bool.false_eq_true, if_false, if_neg hrange]
      exact congrArg some (ofInt_neg_natCast (by omega))

theorem exists_leading (numeral : Numeral) :
    ∃ significand power, numeral.Leading significand power := by
  obtain ⟨whole, beyond, hwhole⟩ := exists_held numeral.whole (show 0 < UInt64.size by decide)
  obtain ⟨significand, others, hfraction⟩ := exists_held numeral.fraction hwhole.value_lt
  exact ⟨significand, _, whole, beyond, others, hwhole, hfraction, rfl⟩

section Leading

variable {numeral : Numeral} {significand : Nat} {power : Int}

theorem Leading.significand_lt (h : numeral.Leading significand power) :
    significand < UInt64.size := by
  obtain ⟨_, _, _, -, hfraction, -⟩ := h
  exact hfraction.value_lt

/-- The digits that count are the ones that are gathered. -/
theorem Leading.exists_gather (h : numeral.Leading significand power) : ∃ whole beyond others,
    gather 0 numeral.whole = (whole, beyond) ∧
    gather whole numeral.fraction = (significand, others) ∧
    power = exponentValue numeral.exponent + (beyond - (numeral.fraction.length - others : ℕ)) := by
  obtain ⟨whole, beyond, others, hwhole, hfraction, hpower⟩ := h
  exact ⟨whole, beyond, others, (gather_eq_iff (by decide)).2 hwhole,
    (gather_eq_iff hwhole.value_lt).2 hfraction, hpower⟩

/-- The digits of a plain numeral all count. -/
theorem Leading.of_isPlain (h : numeral.Leading significand power) (hplain : numeral.IsPlain) :
    significand = digitsValue numeral.whole ∧ power = 0 := by
  obtain ⟨whole, beyond, others, hwhole, hfraction, rfl⟩ := h.exists_gather
  obtain ⟨hnil, hnone, hfits⟩ := hplain
  rw [gather_whole hfits] at hwhole
  obtain ⟨rfl, rfl⟩ := Prod.mk.inj hwhole
  rw [hnil] at hfraction ⊢
  obtain ⟨rfl, rfl⟩ := Prod.mk.inj hfraction
  rw [hnone]
  exact ⟨rfl, rfl⟩

/-- The value of a numeral that is not plain, with an exponent that fits. -/
theorem Leading.value_eq (h : numeral.Leading significand power) (hplain : ¬ numeral.IsPlain)
    (hfits : numeral.ExponentFits) :
    numeral.value = (scale? (ofInt significand) power).elim (.error 0)
      fun value => .ok (.number (numeral.signed value)) := by
  obtain ⟨whole, beyond, others, hwhole, hfraction, rfl⟩ := h.exists_gather
  unfold IsPlain at hplain
  rw [hwhole] at hplain
  unfold Numeral.value
  rw [hwhole]
  dsimp only
  rw [if_neg hplain, hfraction]
  obtain ⟨minus, whole, fraction, - | ⟨negative, digits⟩⟩ := numeral
  · simp only [exponentValue, zero_add]
    cases scale? (ofInt significand) (beyond - (fraction.length - others : ℕ)) <;> rfl
  · have hdigits : gatherExponent 0 digits = .ok (digitsValue digits) :=
      gatherExponent_of_lt (hfits negative digits rfl)
    -- the sign is applied to the exponent here, and to the way it is added there
    have hpower (point : ℤ) :
        (if negative then point - digitsValue digits else point + digitsValue digits) =
          exponentValue (some (negative, digits)) + point := by
      cases negative with
      | false => exact add_comm _ _
      | true => exact sub_eq_neg_add _ _
    simp only [hdigits, hpower]
    cases scale? (ofInt significand) _ <;> rfl

/-- The value of a numeral with an exponent that does not fit. -/
theorem Leading.value_of_large (h : numeral.Leading significand power) {negative : Bool}
    {digits : List Nat} (hexponent : numeral.exponent = some (negative, digits))
    (hlarge : 0x80000000 ≤ digitsValue digits) :
    ∃ behind, numeral.value =
      if significand ≠ 0 ∧ !negative then .error behind
      else .ok (.number (numeral.signed (.zero false))) := by
  obtain ⟨whole, beyond, others, hwhole, hfraction, rfl⟩ := h.exists_gather
  obtain ⟨behind, hdigits⟩ := gatherExponent_of_le (show 0 < 0x80000000 by decide) hlarge
  refine ⟨behind, ?_⟩
  unfold Numeral.value
  rw [hwhole]
  dsimp only
  have hplain : ¬ (numeral.fraction = [] ∧ numeral.exponent = none ∧ beyond = 0) := by
    rw [hexponent]
    exact fun hnone => Option.some_ne_none _ hnone.2.1
  rw [if_neg hplain, hfraction]
  simp only [hexponent, hdigits]

/-- **The number of a numeral** whose exponent fits. -/
theorem Leading.number?_eq (h : numeral.Leading significand power)
    (hfits : numeral.ExponentFits) :
    numeral.number? =
      if scaledRank significand power < infinityRank then
        some (ofRank numeral.negative (scaledRank significand power))
      else none := by
  by_cases hplain : numeral.IsPlain
  · have hfinite := rankOf_lt_of_word h.significand_lt
    obtain ⟨rfl, rfl⟩ := h.of_isPlain hplain
    rw [number?_of_isPlain hplain, scaledRank_zero_right, if_pos hfinite]
  · rw [number?, h.value_eq hplain hfits, scale?_ofInt h.significand_lt]
    by_cases hfinite : scaledRank significand power < infinityRank
    · simp only [if_pos hfinite, Option.elim_some, signed_ofRank]
    · simp only [if_neg hfinite, Option.elim_none]

theorem Leading.number?_of_large (h : numeral.Leading significand power) {negative : Bool}
    {digits : List Nat} (hexponent : numeral.exponent = some (negative, digits))
    (hlarge : 0x80000000 ≤ digitsValue digits) :
    numeral.number? =
      if significand = 0 ∨ negative = true then some (.zero numeral.negative) else none := by
  obtain ⟨behind, hvalue⟩ := h.value_of_large hexponent hlarge
  rw [number?, hvalue]
  by_cases hzero : significand = 0 ∨ negative = true
  · have hkept : ¬ (significand ≠ 0 ∧ (!negative) = true) := by
      rw [Bool.not_eq_true', ← Bool.not_eq_true]
      tauto
    rw [if_pos hzero, if_neg hkept]
    exact congrArg some (numeral.signed_ofRank 0)
  · have hlost : significand ≠ 0 ∧ (!negative) = true := by
      rw [Bool.not_eq_true', ← Bool.not_eq_true]
      tauto
    rw [if_neg hzero, if_pos hlost]

end Leading

/-- **What a numeral is read as is what it denotes.** -/
theorem number?_eq_some_iff {numeral : Numeral} {x : Binary64} :
    numeral.number? = some x ↔ numeral.Denotes x := by
  constructor
  · intro h
    obtain ⟨significand, power, hleading⟩ := numeral.exists_leading
    by_cases hfits : numeral.ExponentFits
    · rw [hleading.number?_eq hfits] at h
      split at h
      · rename_i hfinite
        obtain rfl := Option.some.inj h
        exact .scaled hleading hfits hfinite
      · cases h
    · unfold ExponentFits at hfits
      push Not at hfits
      obtain ⟨negative, digits, hexponent, hlarge⟩ := hfits
      rw [hleading.number?_of_large hexponent hlarge] at h
      split at h
      · rename_i hzero
        obtain rfl := Option.some.inj h
        exact .vanishing hleading hexponent hlarge hzero
      · cases h
  · rintro (⟨hleading, hfits, hfinite⟩ | ⟨hleading, hexponent, hlarge, hzero⟩)
    · rw [hleading.number?_eq hfits, if_pos hfinite]
    · rw [hleading.number?_of_large hexponent hlarge, if_pos hzero]

/-- A numeral denotes one number. -/
theorem Denotes.unique {numeral : Numeral} {x x' : Binary64} (h : numeral.Denotes x)
    (h' : numeral.Denotes x') : x = x' :=
  Option.some.inj ((number?_eq_some_iff.2 h).symm.trans (number?_eq_some_iff.2 h'))

/-- What numerals denote is finite. -/
theorem Denotes.isFinite {numeral : Numeral} {x : Binary64} (h : numeral.Denotes x) :
    x.isFinite = true := by
  cases h with
  | scaled _ _ hfinite => rw [isFinite_ofRank, decide_eq_true hfinite]
  | vanishing => rfl

/-! ## Numerals whose digits all count -/

/-- The digits before and behind the point, as one number. -/
def significand (numeral : Numeral) : Nat := digitsValue (numeral.whole ++ numeral.fraction)

/-- The power of ten of the last digit. -/
def power (numeral : Numeral) : Int := exponentValue numeral.exponent - numeral.fraction.length

theorem leading_of_lt {numeral : Numeral} (h : numeral.significand < UInt64.size) :
    numeral.Leading numeral.significand numeral.power := by
  have happend : numeral.significand =
      appendDigits (digitsValue numeral.whole) numeral.fraction := List.foldl_append
  rw [happend] at h ⊢
  have hwhole := held_of_lt ((le_appendDigits (digitsValue numeral.whole) _).trans_lt h)
  refine ⟨_, _, _, hwhole, held_of_lt h, ?_⟩
  unfold power
  omega

/-- **A short numeral**: its significand and the power of ten are numbers without rounding, so its
value is rounded once. -/
structure IsShort (numeral : Numeral) : Prop where
  significand_le : numeral.significand ≤ 2 ^ 53
  le_power : -22 ≤ numeral.power
  power_le : numeral.power ≤ 22

/-- **A short numeral denotes the number nearest to what it says.** -/
theorem IsShort.denotes {numeral : Numeral} (h : numeral.IsShort)
    (hfits : numeral.ExponentFits) :
    numeral.Denotes (ofRank numeral.negative
      (rankOf (numeral.significand * 10 ^ numeral.power))) := by
  obtain ⟨hsignificand, hlow, hhigh⟩ := h
  have hleading := leading_of_lt (hsignificand.trans_lt (show 2 ^ 53 < UInt64.size by decide))
  have hfinite := scaledRank_lt_of_le (hsignificand.trans (show 2 ^ 53 ≤ 10 ^ 17 by decide))
    (hhigh.trans (show 22 ≤ 291 by decide))
  rw [← scaledRank_eq_rankOf hsignificand hlow hhigh]
  exact .scaled hleading hfits hfinite

end Numeral

end ChunkSizing.Json
