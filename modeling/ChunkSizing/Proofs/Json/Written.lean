import ChunkSizing.Proofs.Json.Spelling
import ChunkSizing.Proofs.Json.Value
import ChunkSizing.Proofs.Text.Utf8

/-!
# ChunkSizing.Proofs.Json.Written — numerals that are written are read as they stand.

`Written` is a numeral in characters, the way every layout sets it out: a sign, digits, a point only
if digits follow it, and an exponent with its sign. Its bytes spell that numeral
(`Written.spells`), so the reader takes exactly its characters, and its significand and its power
are those of the characters (`Written.significand_toNumeral`, `Written.power_toNumeral`).
-/

namespace ChunkSizing.Json

/-! ## Digits in characters -/

/-- The digits that characters stand for. -/
def digitsOf (text : List Char) : List Nat := text.map fun c => c.toNat - 48

/-- Characters that are all digits. -/
def AreDigits (text : List Char) : Prop := ∀ c ∈ text, c.isDigit = true

theorem areDigits_append {front back : List Char} (hfront : AreDigits front)
    (hback : AreDigits back) : AreDigits (front ++ back) := by
  intro c hc
  rcases List.mem_append.1 hc with hc | hc
  · exact hfront c hc
  · exact hback c hc

theorem areDigits_zeros (count : Nat) : AreDigits (List.replicate count '0') := by
  intro c hc
  rw [List.eq_of_mem_replicate hc]
  rfl

theorem areDigits_toDigits (n : Nat) : AreDigits (Nat.toDigits 10 n) := by
  intro c hc
  exact Nat.isDigit_of_mem_toDigits (by decide) (by decide) hc

theorem toNat_of_isDigit {c : Char} (h : c.isDigit = true) : 48 ≤ c.toNat ∧ c.toNat ≤ 57 :=
  Char.isDigit_iff_toNat.1 h

theorem toNat_toUInt8 {c : Char} (h : c.toNat ≤ 0x7f) : c.toUInt8.toNat = c.toNat :=
  UInt8.toNat_ofNat_of_lt' (show c.toNat < 256 by omega)

theorem isDigit_toUInt8 {c : Char} (h : c.isDigit = true) : isDigit c.toUInt8 = true := by
  obtain ⟨hlow, hhigh⟩ := toNat_of_isDigit h
  rw [isDigit_iff, toNat_toUInt8 (by omega)]
  exact ⟨hlow, hhigh⟩

theorem encode_areDigits {text : List Char} (h : AreDigits text) :
    Utf8.encode text = text.map Char.toUInt8 := by
  apply Utf8.encode_eq_map
  intro c hc
  have := toNat_of_isDigit (h c hc)
  omega

theorem isDigits_encode {text : List Char} (hne : text ≠ []) (h : AreDigits text) :
    IsDigits (Utf8.encode text) := by
  rw [encode_areDigits h]
  refine ⟨fun hnil => hne (List.map_eq_nil_iff.1 hnil), ?_⟩
  intro b hb
  obtain ⟨c, hc, rfl⟩ := List.mem_map.1 hb
  exact isDigit_toUInt8 (h c hc)

/-- What the reader makes of digits. -/
theorem digits_encode {text : List Char} (hne : text ≠ []) (h : AreDigits text) :
    digits (Utf8.encode text) = digitsOf text := by
  have hall := (isDigits_encode hne h).all
  unfold digits
  rw [List.takeWhile_eq_self_iff.2 hall, encode_areDigits h, List.map_map]
  apply List.map_congr_left
  intro c hc
  have := toNat_of_isDigit (h c hc)
  show c.toUInt8.toNat - 48 = _
  rw [toNat_toUInt8 (by omega)]

/-! ## Numerals in characters -/

/-- A numeral as it is written. -/
structure Written where
  negative : Bool
  whole : List Char
  fraction : List Char
  exponent : Option (Bool × List Char)

namespace Written

/-- The point and the digits behind it. -/
def fractionChars (fraction : List Char) : List Char :=
  if fraction = [] then [] else '.' :: fraction

/-- The mark, the sign and the digits of an exponent. -/
def exponentChars : Option (Bool × List Char) → List Char
  | none => []
  | some (negative, digits) => 'e' :: (if negative then '-' else '+') :: digits

/-- **The characters of a numeral.** -/
def chars (written : Written) : List Char :=
  (if written.negative then ['-'] else []) ++ written.whole ++ fractionChars written.fraction ++
    exponentChars written.exponent

/-- The numeral that the characters stand for. -/
def toNumeral (written : Written) : Numeral where
  negative := written.negative
  whole := digitsOf written.whole
  fraction := digitsOf written.fraction
  exponent := written.exponent.map fun (negative, digits) => (negative, digitsOf digits)

/-- Digits where digits belong, and a zero in front only if it is alone. -/
structure WellFormed (written : Written) : Prop where
  whole_digits : AreDigits written.whole
  whole_ne_nil : written.whole ≠ []
  whole_eq : written.whole.head? = some '0' → written.whole = ['0']
  fraction_digits : AreDigits written.fraction
  exponent_digits : ∀ negative digits, written.exponent = some (negative, digits) →
    digits ≠ [] ∧ AreDigits digits

end Written

open Written

variable {rest : List UInt8}

/-! ## Its text -/

theorem isWhole_encode {whole : List Char} (hne : whole ≠ []) (hdigits : AreDigits whole)
    (hzero : whole.head? = some '0' → whole = ['0']) : IsWhole (Utf8.encode whole) := by
  refine ⟨isDigits_encode hne hdigits, ?_⟩
  intro hhead
  rw [encode_areDigits hdigits, List.head?_map, Option.map_eq_some_iff] at hhead
  obtain ⟨c, hc, heq⟩ := hhead
  have hlow := toNat_of_isDigit (hdigits c (List.mem_of_head? hc))
  have hvalue := congrArg UInt8.toNat heq
  rw [toNat_toUInt8 (by omega)] at hvalue
  obtain rfl : c = '0' := Char.toNat_inj.1 hvalue
  rw [hzero hc]
  rfl

theorem spells_fractionChars {fraction : List Char} (hdigits : AreDigits fraction) :
    SpellsFraction (Utf8.encode (fractionChars fraction)) (digitsOf fraction) := by
  unfold fractionChars
  split
  · rename_i hnil
    rw [hnil]
    exact .none
  · rename_i hne
    rw [← digits_encode hne hdigits]
    exact .point (isDigits_encode hne hdigits)

theorem spells_exponentChars {exponent : Option (Bool × List Char)}
    (hdigits : ∀ negative digits, exponent = some (negative, digits) →
      digits ≠ [] ∧ AreDigits digits) :
    SpellsExponent (Utf8.encode (exponentChars exponent))
      (exponent.map fun (negative, digits) => (negative, digitsOf digits)) := by
  rcases exponent with - | ⟨negative, text⟩
  · exact .none
  · obtain ⟨hne, htext⟩ := hdigits negative text rfl
    show SpellsExponent _ (some (negative, digitsOf text))
    rw [← digits_encode hne htext]
    cases negative with
    | false => exact .mark (.inl rfl) .plus (isDigits_encode hne htext)
    | true => exact .mark (.inl rfl) .minus (isDigits_encode hne htext)

/-- **A numeral's characters spell it.** -/
theorem Written.spells {written : Written} (h : written.WellFormed) :
    Spells (Utf8.encode written.chars) written.toNumeral := by
  obtain ⟨negative, whole, fraction, exponent⟩ := written
  obtain ⟨hwhole, hne, hzero, hfraction, hexponent⟩ := h
  have hchars : Utf8.encode (Written.chars ⟨negative, whole, fraction, exponent⟩) =
      (if negative then [ascii '-'] else []) ++ (Utf8.encode whole ++
        (Utf8.encode (fractionChars fraction) ++ Utf8.encode (exponentChars exponent))) := by
    unfold chars
    simp only [Utf8.encode_append, List.append_assoc]
    cases negative <;> rfl
  rw [hchars]
  unfold toNumeral
  rw [← digits_encode hne hwhole]
  exact .mk negative (isWhole_encode hne hwhole hzero) (spells_fractionChars hfraction)
    (spells_exponentChars hexponent)

/-- **A numeral is read as it is written.** -/
theorem numeral_written (use : Use) {written : Written} (h : written.WellFormed)
    (hrest : EndsNumeral rest) :
    numeral use (Utf8.encode written.chars ++ rest) = .ok (written.toNumeral, rest) :=
  numeral_complete (Written.spells h) hrest

/-! ## Its value -/

theorem appendDigits_digitsOf (text : List Char) (start : Nat) :
    appendDigits start (digitsOf text) = Nat.ofDigitChars 10 text start := by
  unfold appendDigits digitsOf Nat.ofDigitChars
  rw [List.foldl_map]
  rfl

theorem digitsValue_digitsOf (text : List Char) :
    digitsValue (digitsOf text) = Nat.ofDigitChars 10 text 0 :=
  appendDigits_digitsOf text 0

namespace Written

theorem significand_toNumeral (written : Written) :
    written.toNumeral.significand =
      Nat.ofDigitChars 10 (written.whole ++ written.fraction) 0 := by
  unfold Numeral.significand toNumeral
  rw [← digitsValue_digitsOf]
  exact congrArg digitsValue List.map_append.symm

theorem power_toNumeral (written : Written) :
    written.toNumeral.power =
      Numeral.exponentValue written.toNumeral.exponent - written.fraction.length := by
  unfold Numeral.power toNumeral digitsOf
  rw [List.length_map]

end Written

end ChunkSizing.Json
