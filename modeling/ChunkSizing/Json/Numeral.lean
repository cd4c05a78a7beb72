import ChunkSizing.Binary64.Rounding
import ChunkSizing.Json.Reader

/-!
# ChunkSizing.Json.Numeral — JSON numbers.

A numeral is read as text first (`numeral`) and valued afterwards (`Numeral.value`). A numeral
without point and exponent is an integer if a 64-bit word of either signedness holds it. Every other
numeral is a number, and numbers are *not* rounded correctly: the digits are gathered in a 64-bit
significand, digits that no longer fit only move the exponent or are dropped, and the significand is
scaled by a power of ten with one rounding, or with several if the exponent is far below zero.
-/

namespace ChunkSizing.Json

/-! ## Reading the text -/

/-- The parts of a numeral. Without a point the fraction is empty; the exponent is its sign and its
digits. -/
structure Numeral where
  negative : Bool
  whole : List Nat
  fraction : List Nat
  exponent : Option (Bool × List Nat)
deriving DecidableEq

/-- A decimal digit. -/
def isDigit (b : UInt8) : Bool := ascii '0' ≤ b && b ≤ ascii '9'

/-- The digits at the front. -/
def digits (input : List UInt8) : List Nat :=
  (input.takeWhile isDigit).map fun b => b.toNat - 48

/-- What follows the digits at the front. -/
def afterDigits (input : List UInt8) : List UInt8 := input.dropWhile isDigit

/-- What an input that ends inside a numeral is called: cut off if the numeral is kept, and no
number if it is skipped. -/
def Use.endedNumeral : Use → Cause
  | .kept => .ended .value
  | .skipped => .invalidNumber

/-- The digits before the point: a zero that no digit follows, or digits that no zero leads. -/
def wholePart (use : Use) : Reader (List Nat)
  | [] => stopAt use.endedNumeral []
  | b :: rest =>
    if b = ascii '0' then
      if (rest.head?.map isDigit).getD false then stopPast .invalidNumber rest else .ok ([0], rest)
    else if isDigit b then .ok (digits (b :: rest), afterDigits rest)
    else stopAt .invalidNumber rest

/-- A point with at least one digit behind it, or nothing. -/
def fractionPart (use : Use) : Reader (List Nat)
  | [] => .ok ([], [])
  | b :: rest =>
    if b = ascii '.' then
      match digits rest with
      | [] => stopPast (if rest.isEmpty then use.endedNumeral else .invalidNumber) rest
      | found => .ok (found, afterDigits rest)
    else .ok ([], b :: rest)

/-- The sign of an exponent. -/
def exponentSign : List UInt8 → Bool × List UInt8
  | [] => (false, [])
  | b :: rest =>
    if b = ascii '-' then (true, rest)
    else if b = ascii '+' then (false, rest)
    else (false, b :: rest)

/-- A mark, an optional sign and at least one digit, or nothing. -/
def exponentPart (use : Use) : Reader (Option (Bool × List Nat))
  | [] => .ok (none, [])
  | b :: rest =>
    if b = ascii 'e' ∨ b = ascii 'E' then
      let (negative, unsigned) := exponentSign rest
      match unsigned with
      | [] => stopAt use.endedNumeral []
      | d :: more =>
        if isDigit d then .ok (some (negative, digits (d :: more)), afterDigits more)
        else stopAt .invalidNumber more
    else .ok (none, b :: rest)

/-- **The text of a numeral**, from its sign or first digit. -/
def numeral (use : Use) : Reader Numeral := fun input => do
  let negative := input.head? = some (ascii '-')
  let (whole, rest) ← wholePart use (if negative then input.tail else input)
  let (fraction, rest) ← fractionPart use rest
  let (exponent, rest) ← exponentPart use rest
  return (⟨negative, whole, fraction, exponent⟩, rest)

/-! ## Its value -/

/-- The value of a numeral. -/
inductive Value where
  | integer (value : Int)
  | number (value : Binary64)
deriving DecidableEq

/-- Appends digits to a significand of 64 bits, and says how many no longer fit. -/
def gather (significand : Nat) : List Nat → Nat × Nat
  | [] => (significand, 0)
  | digit :: rest =>
    if 10 * significand + digit < UInt64.size then gather (10 * significand + digit) rest
    else (significand, rest.length + 1)

/-- The value of an exponent's digits. One that leaves 32 bits is an error, which holds the number
of digits behind the one that left them. -/
def gatherExponent (exponent : Nat) : List Nat → Except Nat Nat
  | [] => .ok exponent
  | digit :: rest =>
    if 10 * exponent + digit < 0x80000000 then gatherExponent (10 * exponent + digit) rest
    else .error rest.length

/-- The power of ten nearest to `10 ^ exponent`. -/
def powerOfTen (exponent : Nat) : Binary64 := .ofDecimal false ⟨1, exponent⟩

/-- Divides by a power of ten. Beyond `10 ^ 308` it takes several steps, until nothing is left. -/
def scaleDown (value : Binary64) (exponent : Nat) : Binary64 :=
  if exponent ≤ 308 then value / powerOfTen exponent
  else if value.isZero then value
  else scaleDown (value / powerOfTen 308) (exponent - 308)
termination_by exponent

/-- Scales by a power of ten; there is none for a value that leaves the finite numbers. -/
def scale? (value : Binary64) (exponent : Int) : Option Binary64 :=
  if exponent < 0 then some (scaleDown value exponent.natAbs)
  else if exponent ≤ 308 then
    let scaled := value * powerOfTen exponent.natAbs
    if scaled.isFinite then some scaled else none
  else if value.isZero then some value
  else none

/-- A value with the sign of its numeral. -/
def Numeral.signed (numeral : Numeral) (value : Binary64) : Binary64 :=
  if numeral.negative then -value else value

/-- **The value of a numeral.** The error is the number of its bytes behind the position at which it
turned out to be out of range. -/
def Numeral.value (numeral : Numeral) : Except Nat Value :=
  let (whole, beyond) := gather 0 numeral.whole
  if numeral.fraction = [] ∧ numeral.exponent = none ∧ beyond = 0 then
    if !numeral.negative then .ok (.integer whole)
    else if whole = 0 ∨ 0x8000000000000000 < whole then .ok (.number (-Binary64.ofInt whole))
    else .ok (.integer (-whole))
  else
    let (significand, dropped) := gather whole numeral.fraction
    let point : Int := beyond - (numeral.fraction.length - dropped : Nat)
    let scaled (exponent : Int) : Except Nat Value :=
      match scale? (Binary64.ofInt significand) exponent with
      | some value => .ok (.number (numeral.signed value))
      | none => .error 0
    match numeral.exponent with
    | none => scaled point
    | some (negative, exponent) =>
      match gatherExponent 0 exponent with
      | .ok exponent => scaled (if negative then point - exponent else point + exponent)
      | .error behind =>
        if significand ≠ 0 ∧ !negative then .error behind
        else .ok (.number (numeral.signed (.zero false)))

/-- A numeral that is kept, with its value. -/
def number : Reader Value := fun input =>
  match numeral .kept input with
  | .error fault => .error fault
  | .ok (text, rest) =>
    match text.value with
    | .ok value => .ok (value, rest)
    | .error behind => .error ⟨.numberOutOfRange, rest.length + behind, none⟩

/-! ## What is left -/

theorem afterDigits_suffix (input : List UInt8) : afterDigits input <:+ input :=
  List.dropWhile_suffix _

theorem wholePart_leaves (use : Use) {input rest : List UInt8} {whole : List Nat}
    (h : wholePart use input = .ok (whole, rest)) :
    rest <:+ input ∧ rest.length < input.length := by
  cases input with
  | nil => simp [wholePart, stopAt] at h
  | cons b tail =>
    simp only [wholePart] at h
    split at h
    · split at h
      · simp [stopPast] at h
      · simp only [Except.ok.injEq, Prod.mk.injEq] at h
        exact h.2 ▸ ⟨List.suffix_cons b tail, Nat.lt_succ_self _⟩
    · split at h
      · simp only [Except.ok.injEq, Prod.mk.injEq] at h
        have hsuffix := afterDigits_suffix tail
        exact h.2 ▸ ⟨hsuffix.trans (List.suffix_cons b tail), Nat.lt_succ_of_le hsuffix.length_le⟩
      · simp [stopAt] at h

theorem fractionPart_leaves (use : Use) : (fractionPart use).Leaves := by
  intro input _ _ h
  cases input with
  | nil =>
    simp only [fractionPart, Except.ok.injEq, Prod.mk.injEq] at h
    exact h.2 ▸ List.suffix_refl _
  | cons b tail =>
    simp only [fractionPart] at h
    split at h
    · split at h
      · simp [stopPast] at h
      · simp only [Except.ok.injEq, Prod.mk.injEq] at h
        exact h.2 ▸ (afterDigits_suffix tail).trans (List.suffix_cons b tail)
    · simp only [Except.ok.injEq, Prod.mk.injEq] at h
      exact h.2 ▸ List.suffix_refl _

theorem exponentSign_suffix (input : List UInt8) : (exponentSign input).2 <:+ input := by
  cases input with
  | nil => exact List.suffix_refl _
  | cons b tail =>
    simp only [exponentSign]
    split
    · exact List.suffix_cons b tail
    · split
      · exact List.suffix_cons b tail
      · exact List.suffix_refl _

theorem exponentPart_leaves (use : Use) : (exponentPart use).Leaves := by
  intro input _ _ h
  cases input with
  | nil =>
    simp only [exponentPart, Except.ok.injEq, Prod.mk.injEq] at h
    exact h.2 ▸ List.suffix_refl _
  | cons b tail =>
    simp only [exponentPart] at h
    split at h
    · split at h
      · simp [stopAt] at h
      · rename_i d more hsign
        split at h
        · simp only [Except.ok.injEq, Prod.mk.injEq] at h
          have hunsigned : d :: more <:+ tail := hsign ▸ exponentSign_suffix tail
          exact h.2 ▸ (((afterDigits_suffix more).trans (List.suffix_cons d more)).trans
            hunsigned).trans (List.suffix_cons b tail)
        · simp [stopAt] at h
    · simp only [Except.ok.injEq, Prod.mk.injEq] at h
      exact h.2 ▸ List.suffix_refl _

/-- A numeral takes at least one byte. -/
theorem numeral_leaves (use : Use) {input rest : List UInt8} {text : Numeral}
    (h : numeral use input = .ok (text, rest)) :
    rest <:+ input ∧ rest.length < input.length := by
  have hunsigned : (if input.head? = some (ascii '-') then input.tail else input) <:+ input := by
    split
    · exact List.tail_suffix input
    · exact List.suffix_refl _
  obtain ⟨⟨whole, afterWhole⟩, hwhole, h⟩ := bind_eq_ok_iff.1 h
  obtain ⟨⟨fraction, afterFraction⟩, hfraction, h⟩ := bind_eq_ok_iff.1 h
  obtain ⟨⟨exponent, afterExponent⟩, hexponent, h⟩ := bind_eq_ok_iff.1 h
  obtain ⟨-, rfl⟩ := Prod.mk.inj (Except.ok.inj h)
  obtain ⟨hafterWhole, hlt⟩ := wholePart_leaves use hwhole
  have hparts := (exponentPart_leaves use hexponent).trans (fractionPart_leaves use hfraction)
  have := hparts.length_le
  have := hunsigned.length_le
  exact ⟨(hparts.trans hafterWhole).trans hunsigned, by omega⟩

theorem number_leaves : number.Leaves := by
  intro input _ _ h
  simp only [number] at h
  split at h
  · simp at h
  · rename_i hread
    split at h
    · simp only [Except.ok.injEq, Prod.mk.injEq] at h
      exact h.2 ▸ (numeral_leaves _ hread).1
    · simp at h

end ChunkSizing.Json
