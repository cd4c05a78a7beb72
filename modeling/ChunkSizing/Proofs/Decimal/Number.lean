import ChunkSizing.Proofs.Binary64.Arithmetic
import ChunkSizing.Proofs.Decimal.Literal

/-!
# ChunkSizing.Proofs.Decimal.Number — which texts are numbers.

`SetsOut` is the grammar of unsigned decimals: digits with an optional point among or beside them
and an optional exponent. It relates a text to the digits that it sets out and the power of ten of
the last one, and that is what the reader makes of it (`unsigned?_eq_some_iff`). A finite number is
read from a sign and such a text, and from no other (`ofText_eq_ok_iff`): the names are those of
values that are not finite.
-/

namespace ChunkSizing.Decimal

variable {text digits tail rest whole fraction : List Char} {exponent value : Int}

/-! ## Leading digits -/

/-- Nothing to be taken for one more digit of what stands in front. -/
def NoDigitAhead (rest : List Char) : Prop := ∀ c ∈ rest.head?, ¬ c.isDigit = true

theorem leadingDigits_append (hdigits : ∀ c ∈ digits, c.isDigit = true)
    (hrest : NoDigitAhead rest) :
    leadingDigits (digits ++ rest) = (digits.filterMap digit?, rest) := by
  have htake : rest.takeWhile Char.isDigit = [] := by
    cases rest with
    | nil => rfl
    | cons c rest => exact List.takeWhile_cons_of_neg (hrest c rfl)
  have hdrop : rest.dropWhile Char.isDigit = rest := by
    cases rest with
    | nil => rfl
    | cons c rest => exact List.dropWhile_cons_of_neg (hrest c rfl)
  unfold leadingDigits
  rw [List.takeWhile_append_of_pos hdigits, List.dropWhile_append_of_pos hdigits, htake, hdrop,
    List.append_nil]

/-- Every text has digits at its front, perhaps none. -/
theorem exists_leading (text : List Char) : ∃ digits rest, text = digits ++ rest ∧
    (∀ c ∈ digits, c.isDigit = true) ∧ NoDigitAhead rest := by
  refine ⟨text.takeWhile Char.isDigit, text.dropWhile Char.isDigit,
    List.takeWhile_append_dropWhile.symm, List.all_eq_true.1 List.all_takeWhile, fun c hc => ?_⟩
  have := List.head?_dropWhile_not Char.isDigit text
  rw [Option.mem_def] at hc
  rw [hc] at this
  simpa using this

/-- What the digits of a text write. -/
theorem ofDigits_filterMap (hdigits : ∀ c ∈ digits, c.isDigit = true) :
    ofDigits (digits.filterMap digit?) = Nat.ofDigitChars 10 digits 0 := by
  unfold ofDigits
  generalize 0 = value
  induction digits generalizing value with
  | nil => rfl
  | cons c digits ih =>
    obtain ⟨hdigit, hdigits⟩ := List.forall_mem_cons.1 hdigits
    rw [List.filterMap_cons_some (digit?_of_isDigit hdigit), List.foldl_cons, ih hdigits,
      Nat.ofDigitChars_cons]

theorem length_filterMap_digit? (hdigits : ∀ c ∈ digits, c.isDigit = true) :
    (digits.filterMap digit?).length = digits.length := by
  induction digits with
  | nil => rfl
  | cons c digits ih =>
    obtain ⟨hdigit, hdigits⟩ := List.forall_mem_cons.1 hdigits
    rw [List.filterMap_cons_some (digit?_of_isDigit hdigit), List.length_cons, ih hdigits,
      List.length_cons]

theorem filterMap_digit?_eq_nil_iff (hdigits : ∀ c ∈ digits, c.isDigit = true) :
    digits.filterMap digit? = [] ↔ digits = [] := by
  rw [← List.length_eq_zero_iff, length_filterMap_digit? hdigits, List.length_eq_zero_iff]

/-! ## Signs -/

/-- The sign in front of a text, and what stands behind it. -/
def signPart : List Char → Bool × List Char
  | '-' :: rest => (true, rest)
  | '+' :: rest => (false, rest)
  | rest => (false, rest)

/-- Digits to the end of a text, and the integer that they write behind a sign. -/
def Writes (negative : Bool) (text : List Char) (value : Int) : Prop :=
  text ≠ [] ∧ (∀ c ∈ text, c.isDigit = true) ∧
    (if negative then -(Nat.ofDigitChars 10 text 0 : Int) else Nat.ofDigitChars 10 text 0) = value

/-- **The texts of signed integers** are digits behind a sign or none. -/
theorem isSigned_iff_signPart :
    IsSigned text value ↔ Writes (signPart text).1 (signPart text).2 value := by
  have hother (h : text.head? ≠ some '-') : ¬ ∃ n : Nat, IsNegated text n ∧ -(n : Int) = value := by
    rintro ⟨n, ⟨digits, rfl, -⟩, -⟩
    exact h rfl
  unfold IsSigned Writes signPart
  split
  · rw [or_iff_right fun ⟨n, h, _⟩ => not_isUnsigned_minus h]
    simp [isNegated_minus_iff, and_assoc]
  · rw [or_iff_left (hother (by simp))]
    simp [isUnsigned_plus_iff, and_assoc]
  · rename_i hminus hplus
    have hhead (c : Char) (h : ∀ rest, text = c :: rest → False) : text.head? ≠ some c := by
      intro hhead
      obtain ⟨rest, heq⟩ := List.head?_eq_some_iff.1 hhead
      exact h rest heq
    rw [or_iff_left (hother (hhead '-' hminus))]
    simp [isUnsigned_iff_of_head?_ne (hhead '+' hplus), and_assoc]

/-- The integer of digits to the end of a text. -/
def integerPart? (negative : Bool) (text : List Char) : Option Int :=
  match leadingDigits text with
  | (first :: more, []) =>
    some (if negative then -(ofDigits (first :: more) : Int) else ofDigits (first :: more))
  | _ => none

theorem integerPart?_eq_some_iff {negative : Bool} :
    integerPart? negative text = some value ↔ Writes negative text value := by
  obtain ⟨digits, rest, rfl, hdigits, hrest⟩ := exists_leading text
  unfold integerPart? Writes
  rw [leadingDigits_append hdigits hrest]
  cases rest with
  | nil =>
    rw [List.append_nil, Ne, ← filterMap_digit?_eq_nil_iff hdigits, ← ofDigits_filterMap hdigits,
      and_iff_right hdigits]
    cases digits.filterMap digit? with
    | nil => simp
    | cons first more => simp
  | cons c rest =>
    refine iff_of_false (by simp) fun h => ?_
    exact hrest c rfl (h.2.1 c (List.mem_append_right _ List.mem_cons_self))

/-- **The texts of exponents** are those of signed integers. -/
theorem exponent?_eq_some_iff : exponent? text = some value ↔ IsSigned text value := by
  have hread : exponent? text = integerPart? (signPart text).1 (signPart text).2 := rfl
  rw [hread, integerPart?_eq_some_iff, isSigned_iff_signPart]

/-! ## Unsigned decimals -/

/-- **An exponent**: none, or a mark with a signed integer behind it. -/
inductive IsExponent : List Char → Int → Prop
  | absent : IsExponent [] 0
  | marked {mark : Char} {text : List Char} {value : Int} (hmark : mark = 'e' ∨ mark = 'E')
    (htext : IsSigned text value) : IsExponent (mark :: text) value

/-- **The digits that a text sets out**, and the power of ten of the last one. The point is not one
of them, but each digit behind it lowers the power. -/
inductive SetsOut : List Char → List Char → Int → Prop
  | integer {digits tail : List Char} {exponent : Int} (hdigits : ∀ c ∈ digits, c.isDigit = true)
    (htail : IsExponent tail exponent) : SetsOut (digits ++ tail) digits exponent
  | point {whole fraction tail : List Char} {exponent : Int}
    (hwhole : ∀ c ∈ whole, c.isDigit = true) (hfraction : ∀ c ∈ fraction, c.isDigit = true)
    (htail : IsExponent tail exponent) :
    SetsOut (whole ++ '.' :: (fraction ++ tail)) (whole ++ fraction) (exponent - fraction.length)

theorem SetsOut.isDigit (h : SetsOut text digits exponent) : ∀ c ∈ digits, c.isDigit = true := by
  cases h with
  | integer hdigits _ => exact hdigits
  | point hwhole hfraction _ => exact List.forall_mem_append.2 ⟨hwhole, hfraction⟩

/-- An exponent begins with its mark, if with anything. -/
theorem IsExponent.head?_mem (h : IsExponent tail exponent) {c : Char} (hc : c ∈ tail.head?) :
    c = 'e' ∨ c = 'E' := by
  obtain _ | ⟨hmark, -⟩ := h
  · cases hc
  · rwa [← Option.some.inj hc]

theorem IsExponent.noDigitAhead (h : IsExponent tail exponent) : NoDigitAhead tail := by
  intro c hc
  rcases h.head?_mem hc with rfl | rfl <;> decide

theorem IsExponent.head?_ne (h : IsExponent tail exponent) : tail.head? ≠ some '.' := by
  intro hpoint
  have := h.head?_mem hpoint
  exact absurd this (by decide)

/-- A text with digits begins with a digit or the point, so not with a letter. -/
theorem SetsOut.exists_head (h : SetsOut text digits exponent) (hne : digits ≠ []) :
    ∃ c ∈ text.head?, c.isDigit = true ∨ c = '.' := by
  cases h with
  | integer hdigits htail =>
    obtain ⟨c, more, rfl⟩ := List.exists_cons_of_ne_nil hne
    exact ⟨c, rfl, .inl (hdigits c List.mem_cons_self)⟩
  | point hwhole hfraction htail =>
    rename_i whole fraction tail exponent
    cases whole with
    | nil => exact ⟨'.', rfl, .inr rfl⟩
    | cons c more => exact ⟨c, rfl, .inl (hwhole c List.mem_cons_self)⟩

/-! ## What the reader makes of them -/

/-- The digits behind the point, if there is one, and what follows them. -/
def fractionPart : List Char → List Nat × List Char
  | '.' :: rest => leadingDigits rest
  | rest => ([], rest)

/-- The exponent behind the digits. -/
def exponentPart? : List Char → Option Int
  | [] => some 0
  | 'e' :: rest => exponent? rest
  | 'E' :: rest => exponent? rest
  | _ => none

/-- The decimal of digits, some of them behind a point, and an exponent. -/
def gather? (digits : List Nat) (fraction : Nat) (exponent? : Option Int) : Option Decimal :=
  match digits, exponent? with
  | [], _ => none
  | digits, some exponent => some ⟨ofDigits digits, exponent - fraction⟩
  | _, none => none

/-- The reader in its three parts. -/
theorem unsigned?_append (hwhole : ∀ c ∈ whole, c.isDigit = true) (hrest : NoDigitAhead rest) :
    unsigned? (whole ++ rest) =
      gather? (whole.filterMap digit? ++ (fractionPart rest).1) (fractionPart rest).1.length
        (exponentPart? (fractionPart rest).2) := by
  unfold unsigned?
  rw [leadingDigits_append hwhole hrest]
  rfl

theorem unsigned?_integer (hdigits : ∀ c ∈ digits, c.isDigit = true) (htail : NoDigitAhead tail)
    (hpoint : tail.head? ≠ some '.') :
    unsigned? (digits ++ tail) = gather? (digits.filterMap digit?) 0 (exponentPart? tail) := by
  have hfraction : fractionPart tail = ([], tail) := by
    unfold fractionPart
    split
    · exact absurd rfl hpoint
    · rfl
  rw [unsigned?_append hdigits htail, hfraction, List.append_nil, List.length_nil]

theorem unsigned?_point (hwhole : ∀ c ∈ whole, c.isDigit = true)
    (hfraction : ∀ c ∈ fraction, c.isDigit = true) (htail : NoDigitAhead tail) :
    unsigned? (whole ++ '.' :: (fraction ++ tail)) =
      gather? ((whole ++ fraction).filterMap digit?) fraction.length (exponentPart? tail) := by
  have hpoint : NoDigitAhead ('.' :: (fraction ++ tail)) := by
    rintro c hc
    obtain rfl := Option.some.inj hc
    decide
  rw [unsigned?_append hwhole hpoint, fractionPart, leadingDigits_append hfraction htail,
    ← List.filterMap_append, length_filterMap_digit? hfraction]

theorem exponentPart?_eq_some_iff : exponentPart? tail = some exponent ↔
    IsExponent tail exponent := by
  unfold exponentPart?
  constructor
  · intro h
    split at h
    · cases h
      exact .absent
    · exact .marked (.inl rfl) (exponent?_eq_some_iff.1 h)
    · exact .marked (.inr rfl) (exponent?_eq_some_iff.1 h)
    · cases h
  · rintro (_ | ⟨rfl | rfl, htext⟩)
    · rfl
    · exact exponent?_eq_some_iff.2 htext
    · exact exponent?_eq_some_iff.2 htext

theorem gather?_eq_some_iff {count : Nat} {exponent? : Option Int} {d : Decimal}
    (hdigits : ∀ c ∈ digits, c.isDigit = true) :
    gather? (digits.filterMap digit?) count exponent? = some d ↔
      digits ≠ [] ∧ ∃ exponent, exponent? = some exponent ∧
        d = ⟨Nat.ofDigitChars 10 digits 0, exponent - count⟩ := by
  rw [Ne, ← filterMap_digit?_eq_nil_iff hdigits, ← ofDigits_filterMap hdigits]
  unfold gather?
  cases digits.filterMap digit? with
  | nil => simp
  | cons first more =>
    cases exponent? with
    | none => simp
    | some exponent => simp [eq_comm]

/-- **The texts of unsigned decimals**, and what they are read as. -/
theorem unsigned?_eq_some_iff {d : Decimal} : unsigned? text = some d ↔
    ∃ digits exponent, SetsOut text digits exponent ∧ digits ≠ [] ∧
      d = ⟨Nat.ofDigitChars 10 digits 0, exponent⟩ := by
  constructor
  · intro h
    obtain ⟨whole, rest, rfl, hwhole, hrest⟩ := exists_leading text
    by_cases hpoint : rest.head? = some '.'
    · obtain ⟨after, rfl⟩ := List.head?_eq_some_iff.1 hpoint
      obtain ⟨fraction, tail, rfl, hfraction, htail⟩ := exists_leading after
      rw [unsigned?_point hwhole hfraction htail,
        gather?_eq_some_iff (List.forall_mem_append.2 ⟨hwhole, hfraction⟩)] at h
      obtain ⟨hne, exponent, hexponent, rfl⟩ := h
      have htail := exponentPart?_eq_some_iff.1 hexponent
      exact ⟨_, _, .point hwhole hfraction htail, hne, rfl⟩
    · rw [unsigned?_integer hwhole hrest hpoint, gather?_eq_some_iff hwhole] at h
      obtain ⟨hne, exponent, hexponent, rfl⟩ := h
      have htail := exponentPart?_eq_some_iff.1 hexponent
      exact ⟨_, _, .integer hwhole htail, hne, by rw [Nat.cast_zero, sub_zero]⟩
  · rintro ⟨digits, exponent, hsets, hne, rfl⟩
    cases hsets with
    | integer hdigits htail =>
      rw [unsigned?_integer hdigits htail.noDigitAhead htail.head?_ne, gather?_eq_some_iff hdigits]
      refine ⟨hne, exponent, exponentPart?_eq_some_iff.2 htail, ?_⟩
      rw [Nat.cast_zero, sub_zero]
    | point hwhole hfraction htail =>
      rw [unsigned?_point hwhole hfraction htail.noDigitAhead,
        gather?_eq_some_iff (List.forall_mem_append.2 ⟨hwhole, hfraction⟩)]
      exact ⟨hne, _, exponentPart?_eq_some_iff.2 htail, rfl⟩

/-! ## No names -/

/-- Letters of either case stand behind the digits. -/
theorem not_le_val_of_isDigit {c letter : Char} (h : c.isDigit = true)
    (hletter : '9'.val < letter.val) : ¬ letter.val ≤ c.val := by
  simp only [Char.isDigit, Bool.and_eq_true, decide_eq_true_eq] at h
  exact fun hle => UInt32.not_lt.2 (UInt32.le_trans hle h.2) hletter

theorem isAlpha_eq_false {c : Char} (h : c.isDigit = true ∨ c = '.') : c.isAlpha = false := by
  rcases h with hdigit | rfl
  · have hupper : c.isUpper = false :=
      decide_eq_false fun hle => not_le_val_of_isDigit hdigit (by decide) hle.1
    have hlower : c.isLower = false := by
      show (decide ('a'.val ≤ c.val) && decide (c.val ≤ 'z'.val)) = false
      rw [decide_eq_false (not_le_val_of_isDigit hdigit (by decide)), Bool.false_and]
    exact Bool.or_eq_false_iff.2 ⟨hupper, hlower⟩
  · rfl

theorem toLower_eq_self {c : Char} (h : c.isDigit = true ∨ c = '.') : c.toLower = c := by
  rcases h with hdigit | rfl
  · exact dif_neg fun hupper => not_le_val_of_isDigit hdigit (by decide) hupper.1
  · rfl

/-- So it is not a name, in any case. -/
theorem SetsOut.ofList_ne (h : SetsOut text digits exponent) (hne : digits ≠ []) (name : String)
    (hname : ∃ c ∈ name.toList.head?, c.isAlpha = true) :
    String.ofList (text.map Char.toLower) ≠ name := by
  rintro rfl
  obtain ⟨c, hc, hletter⟩ := hname
  obtain ⟨first, hfirst, hdigit⟩ := h.exists_head hne
  rw [String.toList_ofList, List.head?_map, hfirst] at hc
  obtain rfl := Option.some.inj hc
  rw [toLower_eq_self hdigit, isAlpha_eq_false hdigit] at hletter
  cases hletter

end ChunkSizing.Decimal

/-! ## Finite numbers -/

namespace ChunkSizing.Binary64

open Decimal

variable {chars : List Char} {x : Binary64}

theorem unsigned?_eq_some_iff {negative : Bool} (hfinite : x.isFinite = true) :
    unsigned? negative chars = some x ↔ ∃ digits exponent, SetsOut chars digits exponent ∧
      digits ≠ [] ∧ x = ofDecimal negative ⟨Nat.ofDigitChars 10 digits 0, exponent⟩ := by
  unfold unsigned?
  constructor
  · intro h
    simp only at h
    split at h
    · obtain rfl := Option.some.inj h
      cases negative <;> cases hfinite
    split at h
    · obtain rfl := Option.some.inj h
      cases hfinite
    obtain ⟨d, hd, rfl⟩ := Option.map_eq_some_iff.1 h
    obtain ⟨digits, exponent, hsets, hne, rfl⟩ := Decimal.unsigned?_eq_some_iff.1 hd
    exact ⟨digits, exponent, hsets, hne, rfl⟩
  · rintro ⟨digits, exponent, hsets, hne, rfl⟩
    have hinf := hsets.ofList_ne hne "inf" ⟨'i', rfl, rfl⟩
    have hinfinity := hsets.ofList_ne hne "infinity" ⟨'i', rfl, rfl⟩
    have hnan := hsets.ofList_ne hne "nan" ⟨'n', rfl, rfl⟩
    simp only [hinf, hinfinity, hnan, or_self, if_false]
    exact Option.map_eq_some_iff.2
      ⟨_, Decimal.unsigned?_eq_some_iff.2 ⟨digits, exponent, hsets, hne, rfl⟩, rfl⟩

/-- The reader takes the sign off first. -/
theorem ofText_eq (text : String) : ofText text =
    match unsigned? (signPart text.toList).1 (signPart text.toList).2 with
    | some value => .ok value
    | none => .error (if text = "" then .empty else .invalid) := by
  have hsign : (match text.toList with
      | '-' :: rest => unsigned? true rest
      | '+' :: rest => unsigned? false rest
      | rest => unsigned? false rest) =
      unsigned? (signPart text.toList).1 (signPart text.toList).2 := by
    generalize text.toList = chars
    unfold signPart
    split <;> rfl
  rw [← hsign]
  rfl

/-- **The texts of finite numbers** are a sign or none and an unsigned decimal, which is rounded. -/
theorem ofText_eq_ok_iff {text : String} (hfinite : x.isFinite = true) :
    ofText text = .ok x ↔ ∃ digits exponent,
      SetsOut (signPart text.toList).2 digits exponent ∧ digits ≠ [] ∧
        x = ofDecimal (signPart text.toList).1 ⟨Nat.ofDigitChars 10 digits 0, exponent⟩ := by
  rw [ofText_eq, ← unsigned?_eq_some_iff hfinite]
  cases unsigned? (signPart text.toList).1 (signPart text.toList).2 with
  | none => simp
  | some value => simp

end ChunkSizing.Binary64
