import ChunkSizing.Decimal.Literal
import ChunkSizing.Json.Reader
import Mathlib.Tactic.Common

/-!
# ChunkSizing.Proofs.Decimal.Literal — which texts are integers.

The reader goes from left to right and gives up at the first digit that leaves the range. Digits
behind that one only make the number larger, so nothing is given up that would have stayed within
the range, and leading zeros never count against it (`Decimal.accumulate_eq_ok_iff`). A sign in
front decides which end of the range it is (`Decimal.integerIn_iff`). The decimal text of an integer
is one of its texts.
-/

namespace ChunkSizing.Decimal

variable {limit value n : Nat} {beyond : IntegerFault} {chars text : List Char} {c : Char}

/-! ## Digits -/

theorem isDigit_iff_le : c.isDigit = true ↔ '0' ≤ c ∧ c ≤ '9' := by
  rw [Char.isDigit_iff_toNat]
  exact Iff.rfl

theorem digit?_of_isDigit (h : c.isDigit = true) : digit? c = some (c.toNat - '0'.toNat) :=
  if_pos (isDigit_iff_le.1 h)

theorem digit?_of_not_isDigit (h : ¬ c.isDigit = true) : digit? c = none :=
  if_neg (mt isDigit_iff_le.2 h)

/-- More digits never make a number smaller. -/
theorem le_ofDigitChars (chars : List Char) (value : Nat) :
    value ≤ Nat.ofDigitChars 10 chars value := by
  induction chars generalizing value with
  | nil => exact Nat.le_refl value
  | cons c chars ih =>
    rw [Nat.ofDigitChars_cons]
    have := ih (10 * value + (c.toNat - '0'.toNat))
    omega

/-- **What is accumulated**: the number that the digits write, if it is within the limit. -/
theorem accumulate_eq_ok_iff (hvalue : value ≤ limit) :
    accumulate limit beyond value chars = .ok n ↔
      (∀ c ∈ chars, c.isDigit = true) ∧ Nat.ofDigitChars 10 chars value = n ∧ n ≤ limit := by
  induction chars generalizing value with
  | nil =>
    rw [accumulate, Except.ok.injEq]
    constructor
    · rintro rfl
      exact ⟨nofun, rfl, hvalue⟩
    · rintro ⟨-, heq, -⟩
      exact heq
  | cons c chars ih =>
    rw [accumulate, List.forall_mem_cons, Nat.ofDigitChars_cons]
    by_cases hdigit : c.isDigit = true
    · rw [digit?_of_isDigit hdigit, and_iff_right hdigit]
      dsimp only
      split
      · rename_i hnext
        exact ih hnext
      · rename_i hnext
        -- the digits behind the one that left the range do not lead back into it
        refine iff_of_false nofun ?_
        rintro ⟨-, rfl, hle⟩
        exact hnext (Nat.le_trans (le_ofDigitChars chars _) hle)
    · rw [digit?_of_not_isDigit hdigit]
      exact iff_of_false nofun fun hdigits => hdigit hdigits.1.1

/-! ## Integers -/

/-- **The text of an unsigned integer**: at least one decimal digit, with or without a plus in
front. -/
def IsUnsigned (text : List Char) (value : Nat) : Prop :=
  ∃ digits, (text = digits ∨ text = '+' :: digits) ∧ digits ≠ [] ∧
    (∀ c ∈ digits, c.isDigit = true) ∧ Nat.ofDigitChars 10 digits 0 = value

/-- A text that does not begin with a plus has all its digits to show. -/
theorem isUnsigned_iff_of_head?_ne (h : text.head? ≠ some '+') : IsUnsigned text n ↔
    text ≠ [] ∧ (∀ c ∈ text, c.isDigit = true) ∧ Nat.ofDigitChars 10 text 0 = n := by
  constructor
  · rintro ⟨digits, rfl | rfl, hdigits⟩
    · exact hdigits
    · exact absurd rfl h
  · intro hdigits
    exact ⟨text, .inl rfl, hdigits⟩

theorem isUnsigned_plus_iff : IsUnsigned ('+' :: chars) n ↔
    chars ≠ [] ∧ (∀ c ∈ chars, c.isDigit = true) ∧ Nat.ofDigitChars 10 chars 0 = n := by
  constructor
  · rintro ⟨digits, heq | heq, hdigits⟩
    · subst heq
      exact absurd (hdigits.2.1 '+' List.mem_cons_self) (by decide)
    · cases heq
      exact hdigits
  · intro hdigits
    exact ⟨chars, .inr rfl, hdigits⟩

/-- **A minus in front of digits**, and the number that the digits write. -/
def IsNegated (text : List Char) (value : Nat) : Prop :=
  ∃ digits, text = '-' :: digits ∧ digits ≠ [] ∧ (∀ c ∈ digits, c.isDigit = true) ∧
    Nat.ofDigitChars 10 digits 0 = value

theorem isNegated_minus_iff : IsNegated ('-' :: chars) n ↔
    chars ≠ [] ∧ (∀ c ∈ chars, c.isDigit = true) ∧ Nat.ofDigitChars 10 chars 0 = n := by
  constructor
  · rintro ⟨digits, heq, hdigits⟩
    cases heq
    exact hdigits
  · intro hdigits
    exact ⟨chars, rfl, hdigits⟩

theorem not_isUnsigned_minus : ¬ IsUnsigned ('-' :: chars) n := by
  intro h
  have hminus := ((isUnsigned_iff_of_head?_ne (by simp)).1 h).2.1 '-' List.mem_cons_self
  exact absurd hminus (by decide)

/-- What becomes of accumulated digits. -/
theorem map_accumulate_eq_ok_iff {f : Nat → Int} {i : Int} :
    (accumulate limit beyond 0 chars).map f = .ok i ↔
      ∃ n : Nat, (((∀ c ∈ chars, c.isDigit = true) ∧ Nat.ofDigitChars 10 chars 0 = n) ∧
        n ≤ limit) ∧ f n = i := by
  have haccumulate (n : Nat) : accumulate limit beyond 0 chars = .ok n ↔ _ :=
    accumulate_eq_ok_iff (Nat.zero_le limit)
  simp only [and_assoc (c := _ ≤ limit), ← haccumulate, Json.map_eq_ok_iff]

/-- **An integer of a range**: an unsigned one up to its upper end, or, if the range goes below
zero, a minus with the digits of one down to its lower end. -/
theorem integerIn_iff {low i : Int} {high : Nat} : integerIn low high text = .ok i ↔
    (∃ n : Nat, (IsUnsigned text n ∧ n ≤ high) ∧ (n : Int) = i) ∨
    (low < 0 ∧ ∃ n : Nat, (IsNegated text n ∧ n ≤ low.natAbs) ∧ -(n : Int) = i) := by
  have hminus (chars : List Char) :
      ¬ ∃ n : Nat, (IsUnsigned ('-' :: chars) n ∧ n ≤ high) ∧ (n : Int) = i := by
    rintro ⟨n, ⟨h, -⟩, -⟩
    exact not_isUnsigned_minus h
  have hother (h : text.head? ≠ some '-') :
      ¬ (low < 0 ∧ ∃ n : Nat, (IsNegated text n ∧ n ≤ low.natAbs) ∧ -(n : Int) = i) := by
    rintro ⟨-, n, ⟨⟨digits, rfl, -⟩, -⟩, -⟩
    exact h rfl
  unfold integerIn
  split
  · refine iff_of_false nofun (not_or.2 ⟨?_, hother (by decide)⟩)
    rintro ⟨n, ⟨h, -⟩, -⟩
    exact ((isUnsigned_iff_of_head?_ne (by decide)).1 h).1 rfl
  · refine iff_of_false nofun (not_or.2 ⟨?_, hother (by decide)⟩)
    rintro ⟨n, ⟨h, -⟩, -⟩
    exact (isUnsigned_plus_iff.1 h).1 rfl
  · refine iff_of_false nofun (not_or.2 ⟨hminus _, ?_⟩)
    rintro ⟨-, n, ⟨h, -⟩, -⟩
    exact (isNegated_minus_iff.1 h).1 rfl
  · rename_i digits hne
    rw [or_iff_left (hother (by simp))]
    simp only [map_accumulate_eq_ok_iff, Int.toNat_natCast, isUnsigned_plus_iff,
      and_iff_right (show digits ≠ [] from hne)]
    rfl
  · rename_i digits hne
    rw [or_iff_right (hminus _)]
    split
    · rename_i hlow
      have hread : (accumulate low.natAbs .tooSmall 0 digits).map (fun n : Nat => -(n : Int)) =
          .ok i ↔ _ := map_accumulate_eq_ok_iff
      simp only [isNegated_minus_iff, hlow, true_and, and_iff_right (show digits ≠ [] from hne),
        ← hread]
      cases accumulate low.natAbs .tooSmall 0 digits <;> rfl
    · rename_i hlow
      exact iff_of_false nofun fun h => hlow h.1
  · rename_i hne _ hminus hplus hnegative
    have hhead (c : Char) (h : ∀ digits, text = c :: digits → False) : text.head? ≠ some c := by
      intro hhead
      obtain ⟨digits, heq⟩ := List.head?_eq_some_iff.1 hhead
      exact h digits heq
    rw [or_iff_left (hother (hhead '-' hnegative))]
    simp only [map_accumulate_eq_ok_iff, Int.toNat_natCast,
      isUnsigned_iff_of_head?_ne (hhead '+' hplus), and_iff_right (show text ≠ [] from hne)]
    rfl

/-- **An integer of a range from zero up.** -/
theorem integerIn_eq_ok_iff {high : Nat} {i : Int} : integerIn 0 high text = .ok i ↔
    ∃ n : Nat, (IsUnsigned text n ∧ n ≤ high) ∧ (n : Int) = i := by
  rw [integerIn_iff, or_iff_left fun h => Int.lt_irrefl 0 h.1]

/-- **The texts of words of 64 bits.** -/
theorem uint64_eq_ok_iff {text : String} {word : UInt64} :
    uint64 text = .ok word ↔ IsUnsigned text.toList word.toNat := by
  have hsize : UInt64.size = 2 ^ 64 := rfl
  have hword := word.toNat_lt
  unfold uint64
  rw [Json.map_eq_ok_iff]
  constructor
  · rintro ⟨i, hread, rfl⟩
    obtain ⟨n, ⟨hn, hle⟩, rfl⟩ := integerIn_eq_ok_iff.1 hread
    rwa [Int.toNat_natCast, UInt64.toNat_ofNat_of_lt' (by omega)]
  · intro h
    refine ⟨_, integerIn_eq_ok_iff.2 ⟨_, ⟨h, by omega⟩, rfl⟩, ?_⟩
    rw [Int.toNat_natCast, UInt64.ofNat_toNat]

/-- **The text of a signed integer**: an unsigned one, or digits behind a minus. -/
def IsSigned (text : List Char) (value : Int) : Prop :=
  (∃ n : Nat, IsUnsigned text n ∧ (n : Int) = value) ∨
    ∃ n : Nat, IsNegated text n ∧ -(n : Int) = value

/-- **The texts of signed words of 64 bits.** -/
theorem int64_eq_ok_iff {text : String} {word : Int64} :
    int64 text = .ok word ↔ IsSigned text.toList word.toInt := by
  have hlow := word.le_toInt
  have hhigh := word.toInt_lt
  have hends : Int64.minValue.toInt = -2 ^ 63 ∧ Int64.maxValue.toInt = ((2 ^ 63 - 1 : Nat) : Int) :=
    ⟨rfl, rfl⟩
  unfold int64 IsSigned
  rw [Json.map_eq_ok_iff, hends.1, hends.2]
  constructor
  · rintro ⟨i, hread, rfl⟩
    rcases integerIn_iff.1 hread with ⟨n, ⟨hn, hle⟩, rfl⟩ | ⟨-, n, ⟨hn, hle⟩, rfl⟩
    · refine .inl ⟨n, hn, ?_⟩
      rw [Int64.toInt_ofInt_of_le (by omega) (by omega)]
    · refine .inr ⟨n, hn, ?_⟩
      rw [Int64.toInt_ofInt_of_le (by omega) (by omega)]
  · rintro (⟨n, hn, heq⟩ | ⟨n, hn, heq⟩)
    · exact ⟨_, integerIn_iff.2 (.inl ⟨n, ⟨hn, by omega⟩, heq⟩), word.ofInt_toInt⟩
    · exact ⟨_, integerIn_iff.2 (.inr ⟨by decide, n, ⟨hn, by omega⟩, heq⟩), word.ofInt_toInt⟩

/-! ## Decimal texts -/

/-- The decimal text of a natural number is its digits. -/
theorem digits_repr (n : Nat) : n.repr.toList ≠ [] ∧ (∀ c ∈ n.repr.toList, c.isDigit = true) ∧
    Nat.ofDigitChars 10 n.repr.toList 0 = n := by
  rw [Nat.toList_repr]
  refine ⟨List.ne_nil_of_length_pos Nat.length_toDigits_pos, ?_, Nat.ofDigitChars_ten_toDigits⟩
  intro c hc
  exact Nat.isDigit_of_mem_toDigits (by decide) (by decide) hc

theorem isUnsigned_repr (n : Nat) : IsUnsigned n.repr.toList n :=
  ⟨n.repr.toList, .inl rfl, digits_repr n⟩

/-- **The decimal text of an integer** is a text of it. -/
theorem isSigned_repr (i : Int) : IsSigned i.repr.toList i := by
  rw [Int.repr_eq_if]
  split
  · exact .inl ⟨i.toNat, isUnsigned_repr i.toNat, by omega⟩
  · refine .inr ⟨(-i).toNat, ⟨(-i).toNat.repr.toList, ?_, digits_repr _⟩, by omega⟩
    rw [String.toList_append]
    rfl

end ChunkSizing.Decimal
