import ChunkSizing.Json.Numeral
import Mathlib.Data.List.TakeWhile

/-!
# ChunkSizing.Proofs.Json.Spelling — the texts of numerals.

`Spells` says which bytes are a numeral and which numeral they are: an optional minus, digits that
no zero leads, a point with digits, a mark with an optional sign and digits. The reader takes such a
text off the front of its input and no other (`numeral_sound`), and it takes all of it wherever the
bytes behind cannot go on with it (`numeral_complete`). Both are put together from the parts.
-/

namespace ChunkSizing.Json

variable {use : Use} {b : UInt8} {input text rest : List UInt8}

/-! ## Digits -/

/-- A byte is a digit if it lies between the bytes of `0` and `9`. -/
theorem isDigit_iff : isDigit b = true ↔ 48 ≤ b.toNat ∧ b.toNat ≤ 57 := by
  unfold isDigit
  rw [Bool.and_eq_true, decide_eq_true_eq, decide_eq_true_eq]
  exact Iff.rfl

/-- Digits, one at least. -/
structure IsDigits (text : List UInt8) : Prop where
  ne_nil : text ≠ []
  all : ∀ b ∈ text, isDigit b = true

/-- Bytes that do not begin with a digit. -/
def EndsDigits (rest : List UInt8) : Prop := ∀ b ∈ rest.head?, isDigit b = false

theorem endsDigits_cons (rest : List UInt8) (h : isDigit b = false) : EndsDigits (b :: rest) := by
  intro c hc
  obtain rfl := Option.some.inj hc
  exact h

theorem digits_append (hall : ∀ b ∈ text, isDigit b = true) (hrest : EndsDigits rest) :
    digits (text ++ rest) = digits text ∧ afterDigits (text ++ rest) = rest := by
  have hstop : rest.takeWhile isDigit = [] ∧ rest.dropWhile isDigit = rest := by
    cases rest with
    | nil => exact ⟨rfl, rfl⟩
    | cons b rest =>
      have hb := Bool.eq_false_iff.1 (hrest b rfl)
      exact ⟨List.takeWhile_cons_of_neg hb, List.dropWhile_cons_of_neg hb⟩
  unfold digits afterDigits
  rw [List.takeWhile_append_of_pos hall, List.dropWhile_append_of_pos hall, hstop.1, hstop.2,
    List.append_nil, List.takeWhile_eq_self_iff.2 hall]
  exact ⟨rfl, rfl⟩

/-- The digits at the front of an input, as a text of their own. -/
theorem exists_digits (hne : digits input ≠ []) :
    ∃ text, input = text ++ afterDigits input ∧ IsDigits text ∧ digits text = digits input := by
  have hall : ∀ b ∈ input.takeWhile isDigit, isDigit b = true :=
    fun b hb => List.mem_takeWhile_imp hb
  refine ⟨input.takeWhile isDigit, List.takeWhile_append_dropWhile.symm, ⟨?_, hall⟩, ?_⟩
  · intro hnil
    exact hne (List.map_eq_nil_iff.2 hnil)
  · unfold digits
    rw [List.takeWhile_eq_self_iff.2 hall]

theorem digits_ne_nil (h : IsDigits text) : digits text ≠ [] := by
  unfold digits
  rw [List.takeWhile_eq_self_iff.2 h.all]
  exact fun hnil => h.ne_nil (List.map_eq_nil_iff.1 hnil)

theorem digits_cons_ne_nil (h : isDigit b = true) (tail : List UInt8) :
    digits (b :: tail) ≠ [] := by
  unfold digits
  rw [List.takeWhile_cons_of_pos h]
  exact List.cons_ne_nil _ _

theorem afterDigits_cons (h : isDigit b = true) (tail : List UInt8) :
    afterDigits (b :: tail) = afterDigits tail :=
  List.dropWhile_cons_of_pos h

/-! ## The grammar -/

/-- Digits before the point. A zero in front is alone. -/
structure IsWhole (text : List UInt8) : Prop extends IsDigits text where
  eq_zero : text.head? = some (ascii '0') → text = [ascii '0']

/-- A point with digits, or nothing. -/
inductive SpellsFraction : List UInt8 → List Nat → Prop where
  | none : SpellsFraction [] []
  | point {text : List UInt8} (h : IsDigits text) : SpellsFraction (ascii '.' :: text) (digits text)

/-- The sign of an exponent; `true` is the minus. -/
inductive SpellsSign : List UInt8 → Bool → Prop where
  | none : SpellsSign [] false
  | plus : SpellsSign [ascii '+'] false
  | minus : SpellsSign [ascii '-'] true

/-- A mark with an optional sign and digits, or nothing. -/
inductive SpellsExponent : List UInt8 → Option (Bool × List Nat) → Prop where
  | none : SpellsExponent [] none
  | mark {mark : UInt8} {sign text : List UInt8} {negative : Bool}
      (hmark : mark = ascii 'e' ∨ mark = ascii 'E') (hsign : SpellsSign sign negative)
      (h : IsDigits text) : SpellsExponent (mark :: (sign ++ text)) (some (negative, digits text))

/-- **The text of a numeral.** -/
inductive Spells : List UInt8 → Numeral → Prop where
  | mk {whole fraction exponent : List UInt8} {fractionDigits : List Nat}
      {exponentDigits : Option (Bool × List Nat)} (negative : Bool) (hwhole : IsWhole whole)
      (hfraction : SpellsFraction fraction fractionDigits)
      (hexponent : SpellsExponent exponent exponentDigits) :
      Spells ((if negative then [ascii '-'] else []) ++ (whole ++ (fraction ++ exponent)))
        ⟨negative, digits whole, fractionDigits, exponentDigits⟩

/-! ## What is read is a numeral -/

theorem wholePart_sound {whole : List Nat} (h : wholePart use input = .ok (whole, rest)) :
    ∃ text, input = text ++ rest ∧ IsWhole text ∧ digits text = whole := by
  cases input with
  | nil => cases h
  | cons b tail =>
    rw [wholePart] at h
    split at h
    · rename_i hzero
      split at h
      · cases h
      · obtain ⟨rfl, rfl⟩ := Prod.mk.inj (Except.ok.inj h)
        subst hzero
        have hdigit : ∀ b ∈ [ascii '0'], isDigit b = true := List.forall_mem_singleton.2 rfl
        exact ⟨[ascii '0'], rfl, ⟨⟨List.cons_ne_nil _ _, hdigit⟩, fun _ => rfl⟩, rfl⟩
    · rename_i hzero
      split at h
      · rename_i hdigit
        obtain ⟨rfl, rfl⟩ := Prod.mk.inj (Except.ok.inj h)
        obtain ⟨text, hinput, htext, hdigits⟩ := exists_digits (digits_cons_ne_nil hdigit tail)
        rw [afterDigits_cons hdigit] at hinput
        refine ⟨text, hinput, ⟨htext, ?_⟩, hdigits⟩
        intro hhead
        obtain ⟨more, rfl⟩ := List.head?_eq_some_iff.1 hhead
        exact absurd (List.head_eq_of_cons_eq hinput) hzero
      · cases h

theorem fractionPart_sound {fraction : List Nat}
    (h : fractionPart use input = .ok (fraction, rest)) :
    ∃ text, input = text ++ rest ∧ SpellsFraction text fraction := by
  cases input with
  | nil =>
    obtain ⟨rfl, rfl⟩ := Prod.mk.inj (Except.ok.inj h)
    exact ⟨[], rfl, .none⟩
  | cons b tail =>
    rw [fractionPart] at h
    split at h
    · rename_i hpoint
      split at h
      · cases h
      · rename_i found hfound
        obtain ⟨rfl, rfl⟩ := Prod.mk.inj (Except.ok.inj h)
        obtain ⟨text, hinput, htext, hdigits⟩ := exists_digits hfound
        refine ⟨ascii '.' :: text, ?_, hdigits ▸ .point htext⟩
        rw [List.cons_append, ← hinput, hpoint]
    · obtain ⟨rfl, rfl⟩ := Prod.mk.inj (Except.ok.inj h)
      exact ⟨[], rfl, .none⟩

theorem exponentSign_sound (input : List UInt8) :
    ∃ sign, input = sign ++ (exponentSign input).2 ∧ SpellsSign sign (exponentSign input).1 := by
  cases input with
  | nil => exact ⟨[], rfl, .none⟩
  | cons b tail =>
    simp only [exponentSign]
    split_ifs with hminus hplus
    · exact ⟨[ascii '-'], by rw [hminus]; rfl, .minus⟩
    · exact ⟨[ascii '+'], by rw [hplus]; rfl, .plus⟩
    · exact ⟨[], rfl, .none⟩

theorem exponentPart_sound {exponent : Option (Bool × List Nat)}
    (h : exponentPart use input = .ok (exponent, rest)) :
    ∃ text, input = text ++ rest ∧ SpellsExponent text exponent := by
  cases input with
  | nil =>
    obtain ⟨rfl, rfl⟩ := Prod.mk.inj (Except.ok.inj h)
    exact ⟨[], rfl, .none⟩
  | cons b tail =>
    rw [exponentPart] at h
    split at h
    · rename_i hmark
      obtain ⟨sign, htail, hsign⟩ := exponentSign_sound tail
      dsimp only at h
      split at h
      · cases h
      · rename_i d more hunsigned
        split at h
        · rename_i hdigit
          obtain ⟨rfl, rfl⟩ := Prod.mk.inj (Except.ok.inj h)
          obtain ⟨text, hinput, htext, hdigits⟩ := exists_digits (digits_cons_ne_nil hdigit more)
          rw [afterDigits_cons hdigit] at hinput
          refine ⟨b :: (sign ++ text), ?_, hdigits ▸ .mark hmark hsign htext⟩
          rw [List.cons_append, List.append_assoc, ← hinput, ← hunsigned, ← htail]
        · cases h
    · obtain ⟨rfl, rfl⟩ := Prod.mk.inj (Except.ok.inj h)
      exact ⟨[], rfl, .none⟩

/-- An input is its sign and what stands behind the sign. -/
theorem sign_append (input : List UInt8) :
    (if decide (input.head? = some (ascii '-')) then [ascii '-'] else []) ++
      (if input.head? = some (ascii '-') then input.tail else input) = input := by
  by_cases hminus : input.head? = some (ascii '-')
  · obtain ⟨tail, rfl⟩ := List.head?_eq_some_iff.1 hminus
    rfl
  · rw [decide_eq_false hminus, if_neg hminus]
    rfl

/-- **What is read is a numeral**, and the one that its text spells. -/
theorem numeral_sound {found : Numeral} (h : numeral use input = .ok (found, rest)) :
    ∃ text, input = text ++ rest ∧ Spells text found := by
  obtain ⟨⟨whole, afterWhole⟩, hwhole, h⟩ := bind_eq_ok_iff.1 h
  obtain ⟨⟨fraction, afterFraction⟩, hfraction, h⟩ := bind_eq_ok_iff.1 h
  obtain ⟨⟨exponent, afterExponent⟩, hexponent, h⟩ := bind_eq_ok_iff.1 h
  obtain ⟨rfl, rfl⟩ := Prod.mk.inj (Except.ok.inj h)
  obtain ⟨wholeText, hinput, hspelled, rfl⟩ := wholePart_sound hwhole
  obtain ⟨fractionText, rfl, hfractionText⟩ := fractionPart_sound hfraction
  obtain ⟨exponentText, rfl, hexponentText⟩ := exponentPart_sound hexponent
  have hsign := sign_append input
  rw [hinput] at hsign
  refine ⟨_, ?_, .mk (decide (input.head? = some (ascii '-'))) hspelled hfractionText
    hexponentText⟩
  simp only [List.append_assoc]
  exact hsign.symm

/-! ## A numeral is read -/

theorem wholePart_complete (h : IsWhole text) (hrest : EndsDigits rest) :
    wholePart use (text ++ rest) = .ok (digits text, rest) := by
  obtain ⟨hread, hafter⟩ := digits_append h.all hrest
  obtain ⟨b, tail, rfl⟩ := List.exists_cons_of_ne_nil h.ne_nil
  have hdigit := h.all b List.mem_cons_self
  rw [List.cons_append] at hread hafter ⊢
  rw [wholePart]
  by_cases hzero : b = ascii '0'
  · subst hzero
    obtain rfl : tail = [] := List.tail_eq_of_cons_eq (h.eq_zero rfl)
    rw [if_pos rfl, if_neg]
    · rfl
    · cases rest with
      | nil => exact Bool.false_ne_true
      | cons c rest => exact Bool.eq_false_iff.1 (hrest c rfl)
  · rw [afterDigits_cons hdigit] at hafter
    rw [if_neg hzero, if_pos hdigit, hread, hafter]

theorem fractionPart_complete {fraction : List Nat} (h : SpellsFraction text fraction)
    (hrest : EndsDigits rest) (hpoint : rest.head? ≠ some (ascii '.')) :
    fractionPart use (text ++ rest) = .ok (fraction, rest) := by
  cases h with
  | none =>
    cases rest with
    | nil => rfl
    | cons b rest =>
      rw [List.nil_append, fractionPart, if_neg]
      rintro rfl
      exact hpoint rfl
  | @point text htext =>
    obtain ⟨hread, hafter⟩ := digits_append htext.all hrest
    rw [List.cons_append, fractionPart, if_pos rfl, hread, hafter]
    split
    · rename_i hnil
      exact absurd hnil (digits_ne_nil htext)
    · rfl

/-- Bytes that cannot go on with a numeral. -/
def EndsNumeral (rest : List UInt8) : Prop :=
  ∀ b ∈ rest.head?, isDigit b = false ∧ b ≠ ascii '.' ∧ b ≠ ascii 'e' ∧ b ≠ ascii 'E'

theorem EndsNumeral.nil : EndsNumeral [] := by
  intro b hb
  cases hb

theorem EndsNumeral.endsDigits (h : EndsNumeral rest) : EndsDigits rest :=
  fun b hb => (h b hb).1

theorem exponentSign_complete {sign : List UInt8} {negative : Bool} (h : SpellsSign sign negative)
    (hdigit : isDigit b = true) (tail : List UInt8) :
    exponentSign (sign ++ b :: tail) = (negative, b :: tail) := by
  cases h with
  | none =>
    have hminus : b ≠ ascii '-' := by
      rintro rfl
      revert hdigit
      decide
    have hplus : b ≠ ascii '+' := by
      rintro rfl
      revert hdigit
      decide
    simp only [List.nil_append, exponentSign, if_neg hminus, if_neg hplus]
  | plus => rfl
  | minus => rfl

theorem exponentPart_complete {exponent : Option (Bool × List Nat)}
    (h : SpellsExponent text exponent) (hrest : EndsNumeral rest) :
    exponentPart use (text ++ rest) = .ok (exponent, rest) := by
  cases h with
  | none =>
    cases rest with
    | nil => rfl
    | cons b rest =>
      obtain ⟨-, -, he, hE⟩ := hrest b rfl
      rw [List.nil_append, exponentPart, if_neg (not_or_intro he hE)]
  | @mark mark sign text negative hmark hsign htext =>
    obtain ⟨hread, hafter⟩ := digits_append htext.all hrest.endsDigits
    obtain ⟨b, tail, rfl⟩ := List.exists_cons_of_ne_nil htext.ne_nil
    have hdigit := htext.all b List.mem_cons_self
    rw [List.cons_append, afterDigits_cons hdigit] at hafter
    rw [List.cons_append] at hread
    rw [List.cons_append, List.append_assoc, List.cons_append, exponentPart, if_pos hmark,
      exponentSign_complete hsign hdigit]
    dsimp only
    rw [if_pos hdigit, hread, hafter]

/-- An exponent neither begins with a digit nor with a point. -/
theorem ends_exponent {exponent : Option (Bool × List Nat)} (h : SpellsExponent text exponent)
    (hrest : EndsNumeral rest) :
    EndsDigits (text ++ rest) ∧ (text ++ rest).head? ≠ some (ascii '.') := by
  cases h with
  | none =>
    refine ⟨hrest.endsDigits, ?_⟩
    intro hpoint
    exact (hrest _ hpoint).2.1 rfl
  | mark hmark =>
    rcases hmark with rfl | rfl
    · exact ⟨endsDigits_cons _ (by decide), by simp; decide⟩
    · exact ⟨endsDigits_cons _ (by decide), by simp; decide⟩

theorem endsDigits_fraction {fraction : List Nat} (h : SpellsFraction text fraction)
    (hrest : EndsDigits rest) : EndsDigits (text ++ rest) := by
  cases h with
  | none => exact hrest
  | point => exact endsDigits_cons _ (by decide)

/-- The parts of a numeral, one after the other. -/
theorem numeral_eq_ok {afterWhole afterFraction : List UInt8} {negative : Bool}
    {whole fraction : List Nat} {exponent : Option (Bool × List Nat)}
    (hsign : decide (input.head? = some (ascii '-')) = negative)
    (hwhole : wholePart use (if negative then input.tail else input) = .ok (whole, afterWhole))
    (hfraction : fractionPart use afterWhole = .ok (fraction, afterFraction))
    (hexponent : exponentPart use afterFraction = .ok (exponent, rest)) :
    numeral use input = .ok (⟨negative, whole, fraction, exponent⟩, rest) := by
  subst hsign
  simp only [decide_eq_true_eq] at hwhole
  unfold numeral
  simp only [hwhole, bind, Except.bind, hfraction, hexponent]
  rfl

/-- A sign is told from a digit. -/
theorem head?_whole_ne (h : IsWhole text) : (text ++ rest).head? ≠ some (ascii '-') := by
  obtain ⟨b, tail, rfl⟩ := List.exists_cons_of_ne_nil h.ne_nil
  have hdigit := h.all b List.mem_cons_self
  intro hminus
  obtain rfl := Option.some.inj hminus
  revert hdigit
  decide

/-- **A numeral is read** in front of bytes that cannot go on with it. -/
theorem numeral_complete {found : Numeral} (h : Spells text found) (hrest : EndsNumeral rest) :
    numeral use (text ++ rest) = .ok (found, rest) := by
  cases h with
  | @mk whole fraction exponent _ _ negative hwhole hfraction hexponent =>
    obtain ⟨hends, hpoint⟩ := ends_exponent hexponent hrest
    have hbody : wholePart use (whole ++ (fraction ++ (exponent ++ rest))) = _ :=
      wholePart_complete hwhole (endsDigits_fraction hfraction hends)
    have hsign : (whole ++ (fraction ++ (exponent ++ rest))).head? ≠ some (ascii '-') :=
      head?_whole_ne hwhole
    rw [List.append_assoc, List.append_assoc, List.append_assoc]
    apply numeral_eq_ok ?_ ?_ (fractionPart_complete hfraction hends hpoint)
      (exponentPart_complete hexponent hrest)
    · cases negative with
      | false => exact decide_eq_false hsign
      | true => rfl
    · cases negative <;> exact hbody

/-- A text spells one numeral. -/
theorem Spells.numeral_eq {found found' : Numeral} (h : Spells text found)
    (h' : Spells text found') : found = found' := by
  have hread : numeral .kept (text ++ []) = .ok (found, []) := numeral_complete h .nil
  rw [numeral_complete h' .nil] at hread
  exact (Prod.mk.inj (Except.ok.inj hread)).1.symm

/-- The first byte of a numeral. -/
theorem Spells.exists_cons {found : Numeral} (h : Spells text found) :
    ∃ b tail, text = b :: tail ∧ (b = ascii '-' ∨ isDigit b = true) := by
  obtain ⟨negative, hwhole, -, -⟩ := h
  obtain ⟨b, tail, rfl⟩ := List.exists_cons_of_ne_nil hwhole.ne_nil
  cases negative with
  | false => exact ⟨b, _, rfl, .inr (hwhole.all b List.mem_cons_self)⟩
  | true => exact ⟨ascii '-', _, rfl, .inl rfl⟩

end ChunkSizing.Json
