import ChunkSizing.Binary64.Rounding

/-!
# ChunkSizing.Decimal.Literal — numbers from text.

The texts of settings and arguments. An integer is an optional sign and decimal digits, read from
left to right: the first character that is no digit, or the first digit that leaves the range, is
the reason for a refusal. A number is an optional sign and either a decimal with optional point and
exponent, or a name for infinity or not-a-number; it is rounded correctly.
-/

namespace ChunkSizing

/-! ## Integers -/

/-- Why a text is not an integer of the wanted range. -/
inductive IntegerFault where
  | empty
  | invalidDigit
  | tooLarge
  | tooSmall
deriving DecidableEq

/-- The wording of each fault. -/
def IntegerFault.message : IntegerFault → String
  | empty => "cannot parse integer from empty string"
  | invalidDigit => "invalid digit found in string"
  | tooLarge => "number too large to fit in target type"
  | tooSmall => "number too small to fit in target type"

namespace Decimal

/-- The value of a decimal digit. -/
def digit? (c : Char) : Option Nat :=
  if '0' ≤ c ∧ c ≤ '9' then some (c.toNat - '0'.toNat) else none

/-- Adds digits to `value` as long as it stays within `limit`; `beyond` is the fault of leaving it.
-/
def accumulate (limit : Nat) (beyond : IntegerFault) (value : Nat) :
    List Char → Except IntegerFault Nat
  | [] => .ok value
  | c :: rest =>
    match digit? c with
    | none => .error .invalidDigit
    | some digit =>
      let next := 10 * value + digit
      if next ≤ limit then accumulate limit beyond next rest else .error beyond

/-- **An integer of a range.** The range includes zero; a minus sign belongs to an integer only if
the range goes below it. A sign without digits holds no digit. -/
def integerIn (low high : Int) : List Char → Except IntegerFault Int
  | [] => .error .empty
  | ['+'] => .error .invalidDigit
  | ['-'] => .error .invalidDigit
  | '+' :: digits => (accumulate high.toNat .tooLarge 0 digits).map Int.ofNat
  | '-' :: digits =>
    if low < 0 then (accumulate low.natAbs .tooSmall 0 digits).map fun n => -(n : Int)
    else .error .invalidDigit
  | digits => (accumulate high.toNat .tooLarge 0 digits).map Int.ofNat

/-- A signed 64-bit integer from its text. -/
def int64 (text : String) : Except IntegerFault Int64 :=
  (integerIn Int64.minValue.toInt Int64.maxValue.toInt text.toList).map Int64.ofInt

/-- An unsigned 64-bit integer from its text. -/
def uint64 (text : String) : Except IntegerFault UInt64 :=
  (integerIn 0 (UInt64.size - 1 : Nat) text.toList).map fun n => UInt64.ofNat n.toNat

/-- An unsigned 16-bit integer from its text. -/
def uint16 (text : String) : Except IntegerFault UInt16 :=
  (integerIn 0 (UInt16.size - 1 : Nat) text.toList).map fun n => UInt16.ofNat n.toNat

end Decimal

/-! ## Numbers -/

/-- Why a text is not a number. -/
inductive NumberFault where
  | empty
  | invalid
deriving DecidableEq

/-- The wording of each fault. -/
def NumberFault.message : NumberFault → String
  | empty => "cannot parse float from empty string"
  | invalid => "invalid float literal"

namespace Decimal

/-- The digits at the front of a text and what follows them. -/
def leadingDigits (text : List Char) : List Nat × List Char :=
  (text.takeWhile Char.isDigit |>.filterMap digit?, text.dropWhile Char.isDigit)

/-- The number that a run of digits writes. -/
def ofDigits (digits : List Nat) : Nat := digits.foldl (fun value digit => 10 * value + digit) 0

/-- An exponent: an optional sign and at least one digit, to the end of the text. -/
def exponent? (text : List Char) : Option Int :=
  let (negative, unsigned) := match text with
    | '-' :: rest => (true, rest)
    | '+' :: rest => (false, rest)
    | rest => (false, rest)
  match leadingDigits unsigned with
  | (first :: more, []) =>
    let value : Int := ofDigits (first :: more)
    some (if negative then -value else value)
  | _ => none

/-- **An unsigned decimal.** Digits with an optional point among or beside them, at least one digit
in all, and an optional exponent after `e` or `E`. -/
def unsigned? (text : List Char) : Option Decimal :=
  let (whole, afterWhole) := leadingDigits text
  let (fraction, afterFraction) := match afterWhole with
    | '.' :: rest => leadingDigits rest
    | rest => ([], rest)
  let exponent := match afterFraction with
    | [] => some 0
    | 'e' :: rest => exponent? rest
    | 'E' :: rest => exponent? rest
    | _ => none
  match whole ++ fraction, exponent with
  | [], _ => none
  | digits, some exponent => some ⟨ofDigits digits, exponent - fraction.length⟩
  | _, none => none

end Decimal

namespace Binary64

/-- A value without its sign: a name in any case, or a decimal. -/
def unsigned? (negative : Bool) (text : List Char) : Option Binary64 :=
  let name := String.ofList (text.map Char.toLower)
  if name = "inf" ∨ name = "infinity" then some (infinity negative)
  else if name = "nan" then some nan
  else (Decimal.unsigned? text).map (ofDecimal negative)

/-- **A number from its text**, rounded to the nearest value. -/
def ofText (text : String) : Except NumberFault Binary64 :=
  let value? := match text.toList with
    | '-' :: rest => unsigned? true rest
    | '+' :: rest => unsigned? false rest
    | rest => unsigned? false rest
  match value? with
  | some value => .ok value
  | none => .error (if text = "" then .empty else .invalid)

end Binary64

end ChunkSizing
