import ChunkSizing.Json.Text
import ChunkSizing.Proofs.Text.Utf8
import Mathlib.Tactic.SplitIfs

/-!
# ChunkSizing.Proofs.Json.Unescape — what stands between the quotes of a string.

`Unescapes` says which bytes may stand there and which bytes they stand for: most of them for
themselves, eight letters behind a backslash for one byte each, and four hex digits, or two times
four, for a character. The machine that reads strings takes such bytes up to the closing quote
(`textFrom_complete`) and no others (`textFrom_sound`). A skipped string has one liberty more,
digits that stand for no character.
-/

namespace ChunkSizing.Json

variable {use : Use} {decoded input rest : List UInt8}

/-! ## The grammar -/

/-- Bytes that mean themselves inside a string. -/
def IsPlain (b : UInt8) : Prop := b ≠ ascii '"' ∧ b ≠ ascii '\\' ∧ ¬ b < 32

/-- The letters behind a backslash, and the bytes that they stand for. -/
def shortEscapes : List (UInt8 × UInt8) :=
  [(ascii '"', ascii '"'), (ascii '\\', ascii '\\'), (ascii '/', ascii '/'), (ascii 'b', 8),
    (ascii 'f', 12), (ascii 'n', 10), (ascii 'r', 13), (ascii 't', 9)]

/-- **Bytes between quotes, and the bytes that they stand for.** Hex digits are a unit of 16 bits. A
unit outside the surrogates is a character of its own, and a high one and a low one are a character
together; a string that is skipped may have any units. -/
inductive Unescapes (use : Use) : List UInt8 → List UInt8 → Prop where
  | nil : Unescapes use [] []
  | plain {b : UInt8} {raw bytes : List UInt8} (hb : IsPlain b) (h : Unescapes use raw bytes) :
      Unescapes use (b :: raw) (b :: bytes)
  | short {letter b : UInt8} {raw bytes : List UInt8} (hletter : (letter, b) ∈ shortEscapes)
      (h : Unescapes use raw bytes) : Unescapes use (ascii '\\' :: letter :: raw) (b :: bytes)
  | unit {a b c d : UInt8} {unit : Nat} {raw bytes : List UInt8}
      (hunit : hexValue? [a, b, c, d] = some unit) (hhigh : isHigh unit = false)
      (hlow : isLow unit = false) (h : Unescapes use raw bytes) :
      Unescapes use (ascii '\\' :: ascii 'u' :: a :: b :: c :: d :: raw) (codePoint unit ++ bytes)
  | pair {a b c d a' b' c' d' : UInt8} {high low : Nat} {raw bytes : List UInt8}
      (hhighUnit : hexValue? [a, b, c, d] = some high) (hhigh : isHigh high = true)
      (hlowUnit : hexValue? [a', b', c', d'] = some low) (hlow : isLow low = true)
      (h : Unescapes use raw bytes) :
      Unescapes use
        (ascii '\\' :: ascii 'u' :: a :: b :: c :: d ::
          ascii '\\' :: ascii 'u' :: a' :: b' :: c' :: d' :: raw)
        (codePoint (0x10000 + (high - 0xd800) * 0x400 + (low - 0xdc00)) ++ bytes)
  | loose {a b c d : UInt8} {unit : Nat} {raw bytes : List UInt8} (huse : use = .skipped)
      (hunit : hexValue? [a, b, c, d] = some unit) (h : Unescapes use raw bytes) :
      Unescapes use (ascii '\\' :: ascii 'u' :: a :: b :: c :: d :: raw) bytes

theorem length_codePoint_le (n : Nat) : (codePoint n).length ≤ 4 := by
  rw [codePoint, String.length_utf8EncodeChar]
  exact Char.utf8Size_le_four _

/-- **A string stands for no more bytes than it has.** -/
theorem Unescapes.length_le {raw bytes : List UInt8} (h : Unescapes use raw bytes) :
    bytes.length ≤ raw.length := by
  induction h with
  | nil => exact Nat.le_refl _
  | plain _ _ ih => exact Nat.succ_le_succ ih
  | short _ _ ih => exact Nat.le_succ_of_le (Nat.succ_le_succ ih)
  | @unit _ _ _ _ unit _ _ _ _ _ _ ih =>
    have := length_codePoint_le unit
    simp only [List.length_append, List.length_cons]
    omega
  | @pair _ _ _ _ _ _ _ _ high low _ _ _ _ _ _ _ ih =>
    have := length_codePoint_le (0x10000 + (high - 0xd800) * 0x400 + (low - 0xdc00))
    simp only [List.length_append, List.length_cons]
    omega
  | loose _ _ _ ih =>
    simp only [List.length_cons]
    omega

/-! ## Single steps -/

/-- No unit is both halves of a pair. -/
theorem isLow_of_isHigh {unit : Nat} (h : isHigh unit = true) : isLow unit = false := by
  revert h
  unfold isLow isHigh
  simp only [Bool.and_eq_true, Bool.and_eq_false_iff, decide_eq_true_eq, decide_eq_false_iff_not]
  omega

theorem textFrom_more {mode next : Mode} {b : UInt8} {more : List UInt8}
    (h : mode.step use b = .more next more) :
    textFrom use mode decoded (b :: rest) =
      textFrom use next (if use = .kept then more.reverse ++ decoded else []) rest := by
  rw [textFrom, h]

/-- A string that can be read has a next byte, which closes it or is taken. -/
theorem exists_step {mode : Mode} {found : List UInt8 × List UInt8}
    (h : textFrom use mode decoded input = .ok found) : ∃ b tail, input = b :: tail ∧
      ((mode.step use b = .close ∧ (decoded.reverse, tail) = found) ∨
        ∃ next more, mode.step use b = .more next more ∧
          textFrom use next (if use = .kept then more.reverse ++ decoded else []) tail =
            .ok found) := by
  cases input with
  | nil => cases h
  | cons b tail =>
    refine ⟨b, tail, rfl, ?_⟩
    rw [textFrom] at h
    split at h
    · rename_i hclose
      exact .inl ⟨hclose, Except.ok.inj h⟩
    · rename_i next more hmore
      exact .inr ⟨next, more, hmore, h⟩
    · cases h
    · cases h

theorem plain_step {b : UInt8} (h : IsPlain b) : Mode.plain.step use b = .more .plain [b] := by
  obtain ⟨hquote, hbackslash, hcontrol⟩ := h
  unfold Mode.step
  simp only [hquote, hbackslash, hcontrol, if_false]

theorem letter_step {escape : UInt8 × UInt8} (h : escape ∈ shortEscapes) :
    Mode.letter escape.1 = .more .plain [escape.2] := by
  revert escape
  unfold shortEscapes
  simp only [List.forall_mem_cons, List.not_mem_nil, false_implies, implies_true, and_true]
  exact ⟨rfl, rfl, rfl, rfl, rfl, rfl, rfl, rfl⟩

/-- The step at the last of four hex digits. -/
theorem hex_step (use : Use) (high : Option Nat) {a b c d : UInt8} {unit : Nat}
    (h : hexValue? [a, b, c, d] = some unit) :
    (Mode.hex high [a, b, c]).step use d =
      if use = .kept then Mode.unit high unit else .more .plain [] := by
  simp only [Mode.step, List.cons_append, List.nil_append, h]
  cases use <;> rfl

/-- Four hex digits and the step at the last of them. -/
theorem textFrom_hex {high : Option Nat} {a b c d : UInt8} {next : Mode} {more : List UInt8}
    (h : (Mode.hex high [a, b, c]).step use d = .more next more) :
    textFrom use (.hex high []) decoded (a :: b :: c :: d :: rest) =
      textFrom use next (if use = .kept then more.reverse ++ decoded else []) rest := by
  have ha : (Mode.hex high []).step use a = .more (.hex high [a]) [] := rfl
  have hb : (Mode.hex high [a]).step use b = .more (.hex high [a, b]) [] := rfl
  have hc : (Mode.hex high [a, b]).step use c = .more (.hex high [a, b, c]) [] := rfl
  rw [textFrom_more ha, textFrom_more hb, textFrom_more hc, textFrom_more h]
  cases use <;> rfl

/-- A backslash and the letter of a unit. -/
theorem textFrom_opening : textFrom use .plain decoded (ascii '\\' :: ascii 'u' :: rest) =
    textFrom use (.hex none []) (if use = .kept then decoded else []) rest := by
  have hbackslash : Mode.plain.step use (ascii '\\') = .more .escape [] := rfl
  have hletter : Mode.escape.step use (ascii 'u') = .more (.hex none []) [] := rfl
  rw [textFrom_more hbackslash, textFrom_more hletter]
  cases use <;> rfl

/-! ## A string is read -/

/-- **A string is kept** with the bytes that it stands for. -/
theorem textFrom_kept {raw bytes : List UInt8} (h : Unescapes .kept raw bytes) :
    textFrom .kept .plain decoded (raw ++ ascii '"' :: rest) =
      .ok (decoded.reverse ++ bytes, rest) := by
  -- each piece goes to the decoded bytes, in reverse
  have hpiece {piece bytes tail decoded : List UInt8}
      (ih : ∀ {decoded},
        textFrom .kept .plain decoded tail = .ok (decoded.reverse ++ bytes, rest)) :
      textFrom .kept .plain (piece.reverse ++ decoded) tail =
        .ok (decoded.reverse ++ (piece ++ bytes), rest) := by
    rw [ih, List.reverse_append, List.reverse_reverse, List.append_assoc]
  induction h generalizing decoded with
  | nil =>
    rw [List.append_nil]
    rfl
  | @plain b raw bytes hb _ ih =>
    rw [List.cons_append, textFrom_more (plain_step hb)]
    exact hpiece ih
  | @short letter b raw bytes hletter _ ih =>
    have hbackslash : Mode.plain.step .kept (ascii '\\') = .more .escape [] := rfl
    have hshort : Mode.escape.step .kept letter = .more .plain [b] := letter_step hletter
    rw [List.cons_append, List.cons_append, textFrom_more hbackslash, textFrom_more hshort]
    exact hpiece ih
  | unit hunit hhigh hlow _ ih =>
    have hstep := hex_step .kept none hunit
    simp only [if_true, Mode.unit, hhigh, hlow, Bool.false_eq_true, if_false] at hstep
    simp only [List.cons_append]
    rw [textFrom_opening, textFrom_hex hstep]
    exact hpiece ih
  | @pair a b c d a' b' c' d' high low raw bytes hhighUnit hhigh hlowUnit hlow _ ih =>
    have hhighStep := hex_step .kept none hhighUnit
    have hlowStep := hex_step .kept (some high) hlowUnit
    simp only [if_true, Mode.unit, hhigh, isLow_of_isHigh hhigh, Bool.false_eq_true, if_false]
      at hhighStep
    simp only [if_true, Mode.unit, hlow] at hlowStep
    have hbackslash : (Mode.pairBackslash high).step .kept (ascii '\\') =
        .more (.pairLetter high) [] := rfl
    have hletter : (Mode.pairLetter high).step .kept (ascii 'u') = .more (.hex (some high) []) [] :=
      rfl
    simp only [List.cons_append]
    rw [textFrom_opening, textFrom_hex hhighStep, textFrom_more hbackslash, textFrom_more hletter,
      textFrom_hex hlowStep]
    exact hpiece ih
  | loose huse => cases huse

/-- **A string is skipped**, whatever its units are. -/
theorem textFrom_skipped {raw bytes : List UInt8} (h : Unescapes .skipped raw bytes) :
    ∃ found, textFrom .skipped .plain decoded (raw ++ ascii '"' :: rest) = .ok (found, rest) := by
  have hunit {a b c d : UInt8} {unit : Nat} {decoded tail : List UInt8}
      (hunit : hexValue? [a, b, c, d] = some unit) :
      textFrom .skipped .plain decoded (ascii '\\' :: ascii 'u' :: a :: b :: c :: d :: tail) =
        textFrom .skipped .plain [] tail := by
    rw [textFrom_opening, textFrom_hex (hex_step .skipped none hunit)]
    rfl
  induction h generalizing decoded with
  | nil => exact ⟨_, rfl⟩
  | plain hb _ ih =>
    rw [List.cons_append, textFrom_more (plain_step hb)]
    exact ih
  | @short letter b raw bytes hletter _ ih =>
    have hbackslash : Mode.plain.step .skipped (ascii '\\') = .more .escape [] := rfl
    have hshort : Mode.escape.step .skipped letter = .more .plain [b] := letter_step hletter
    rw [List.cons_append, List.cons_append, textFrom_more hbackslash, textFrom_more hshort]
    exact ih
  | unit h _ _ _ ih =>
    simp only [List.cons_append]
    rw [hunit h]
    exact ih
  | pair hhigh _ hlow _ _ ih =>
    simp only [List.cons_append]
    rw [hunit hhigh, hunit hlow]
    exact ih
  | loose _ h _ ih =>
    simp only [List.cons_append]
    rw [hunit h]
    exact ih

/-! ## What is read is a string -/

/-- The letter of an escape that goes on. -/
theorem letter_sound {letter : UInt8} {next : Mode} {more : List UInt8}
    (h : Mode.letter letter = .more next more) :
    (∃ b, (letter, b) ∈ shortEscapes ∧ next = .plain ∧ more = [b]) ∨
      letter = ascii 'u' ∧ next = .hex none [] ∧ more = [] := by
  unfold Mode.letter at h
  split_ifs at h with hself hb hf hn hr ht hu
  · obtain ⟨rfl, rfl⟩ := Step.more.inj h
    refine .inl ⟨letter, ?_, rfl, rfl⟩
    rcases hself with rfl | rfl | rfl <;> decide
  · obtain ⟨rfl, rfl⟩ := Step.more.inj h
    exact .inl ⟨8, by rw [hb]; decide, rfl, rfl⟩
  · obtain ⟨rfl, rfl⟩ := Step.more.inj h
    exact .inl ⟨12, by rw [hf]; decide, rfl, rfl⟩
  · obtain ⟨rfl, rfl⟩ := Step.more.inj h
    exact .inl ⟨10, by rw [hn]; decide, rfl, rfl⟩
  · obtain ⟨rfl, rfl⟩ := Step.more.inj h
    exact .inl ⟨13, by rw [hr]; decide, rfl, rfl⟩
  · obtain ⟨rfl, rfl⟩ := Step.more.inj h
    exact .inl ⟨9, by rw [ht]; decide, rfl, rfl⟩
  · obtain ⟨rfl, rfl⟩ := Step.more.inj h
    exact .inr ⟨hu, rfl, rfl⟩

theorem letter_ne_close (letter : UInt8) : Mode.letter letter ≠ .close := by
  unfold Mode.letter
  split_ifs <;> exact Step.noConfusion

/-- A byte of an open string that neither closes it nor is refused. -/
theorem plain_sound {b : UInt8} {next : Mode} {more : List UInt8}
    (h : Mode.plain.step use b = .more next more) :
    (IsPlain b ∧ next = .plain ∧ more = [b]) ∨
      b = ascii '\\' ∧ next = .escape ∧ more = [] := by
  simp only [Mode.step] at h
  split_ifs at h with hquote hbackslash hcontrol
  · obtain ⟨rfl, rfl⟩ := Step.more.inj h
    exact .inr ⟨hbackslash, rfl, rfl⟩
  · cases use <;> cases h
  · obtain ⟨rfl, rfl⟩ := Step.more.inj h
    exact .inl ⟨⟨hquote, hbackslash, hcontrol⟩, rfl, rfl⟩

theorem plain_close {b : UInt8} (h : Mode.plain.step use b = .close) : b = ascii '"' := by
  simp only [Mode.step] at h
  split_ifs at h with hquote hbackslash hcontrol
  · exact hquote
  · cases use <;> cases h

/-- Before the fourth hex digit there is always another. -/
theorem exists_digit {high : Option Nat} (digits : List UInt8) {found : List UInt8 × List UInt8}
    (hlength : digits.length < 3)
    (h : textFrom use (.hex high digits) decoded input = .ok found) : ∃ b tail, input = b :: tail ∧
      textFrom use (.hex high (digits ++ [b])) (if use = .kept then decoded else []) tail =
        .ok found := by
  obtain ⟨b, tail, rfl, hstep⟩ := exists_step h
  have hmore : (Mode.hex high digits).step use b = .more (.hex high (digits ++ [b])) [] := by
    simp only [Mode.step, if_pos hlength]
  rw [hmore] at hstep
  rcases hstep with ⟨hclose, -⟩ | ⟨next, more, hnext, hread⟩
  · cases hclose
  · obtain ⟨rfl, rfl⟩ := Step.more.inj hnext
    exact ⟨b, tail, rfl, hread⟩

theorem hex_sound (use : Use) (high : Option Nat) (a b c d : UInt8) :
    (∃ unit, hexValue? [a, b, c, d] = some unit) ∨
      (Mode.hex high [a, b, c]).step use d = .refuse .invalidEscape := by
  cases hvalue : hexValue? [a, b, c, d] with
  | some unit => exact .inl ⟨unit, rfl⟩
  | none =>
    right
    simp only [Mode.step, List.cons_append, List.nil_append, hvalue]
    rfl

theorem unit_ne_close (high : Option Nat) (unit : Nat) :
    (if use = .kept then Mode.unit high unit else .more .plain []) ≠ .close := by
  unfold Mode.unit
  cases use with
  | skipped => exact Step.noConfusion
  | kept =>
    rw [if_pos rfl]
    cases high <;> dsimp only <;> split_ifs <;> exact Step.noConfusion

/-- Four hex digits and what follows from their unit. -/
theorem exists_unit {high : Option Nat} {found : List UInt8 × List UInt8}
    (h : textFrom use (.hex high []) decoded input = .ok found) :
    ∃ a b c d tail unit next more, input = a :: b :: c :: d :: tail ∧
      hexValue? [a, b, c, d] = some unit ∧
      (if use = .kept then Mode.unit high unit else .more .plain []) = .more next more ∧
      textFrom use next (if use = .kept then more.reverse ++ decoded else []) tail =
        .ok found := by
  obtain ⟨a, _, rfl, ha⟩ := exists_digit [] (by simp) h
  obtain ⟨b, _, rfl, hb⟩ := exists_digit [a] (by simp) ha
  obtain ⟨c, _, rfl, hc⟩ := exists_digit [a, b] (by simp) hb
  obtain ⟨d, tail, rfl, hstep⟩ := exists_step hc
  change ((Mode.hex high [a, b, c]).step use d = .close ∧ _) ∨ ∃ next more,
    (Mode.hex high [a, b, c]).step use d = .more next more ∧ _ at hstep
  rcases hex_sound use high a b c d with ⟨unit, hunit⟩ | hrefuse
  · rw [hex_step use high hunit] at hstep
    rcases hstep with ⟨hclose, -⟩ | ⟨next, more, hmore, hread⟩
    · exact absurd hclose (unit_ne_close high unit)
    · refine ⟨a, b, c, d, tail, unit, next, more, rfl, hunit, hmore, ?_⟩
      cases use <;> exact hread
  · rw [hrefuse] at hstep
    rcases hstep with ⟨hclose, -⟩ | ⟨_, _, hmore, -⟩
    · cases hclose
    · cases hmore

/-- A unit that goes on is a character, or the first half of one. -/
theorem unit_sound {unit : Nat} {next : Mode} {more : List UInt8}
    (h : Mode.unit none unit = .more next more) :
    (isHigh unit = false ∧ isLow unit = false ∧ next = .plain ∧ more = codePoint unit) ∨
      isHigh unit = true ∧ next = .pairBackslash unit ∧ more = [] := by
  simp only [Mode.unit] at h
  split_ifs at h with hlow hhigh
  · obtain ⟨rfl, rfl⟩ := Step.more.inj h
    exact .inr ⟨hhigh, rfl, rfl⟩
  · obtain ⟨rfl, rfl⟩ := Step.more.inj h
    exact .inl ⟨Bool.eq_false_iff.2 hhigh, Bool.eq_false_iff.2 hlow, rfl, rfl⟩

/-- A mode that takes one byte only. -/
theorem exists_exact {mode next : Mode} {c : UInt8} {cause : Cause}
    {found : List UInt8 × List UInt8}
    (hmode : ∀ b, mode.step use b = if b = c then .more next [] else .refuse cause)
    (h : textFrom use mode decoded input = .ok found) : ∃ tail, input = c :: tail ∧
      textFrom use next (if use = .kept then decoded else []) tail = .ok found := by
  obtain ⟨b, tail, rfl, hstep⟩ := exists_step h
  rw [hmode] at hstep
  by_cases hb : b = c
  · rw [if_pos hb] at hstep
    rcases hstep with ⟨hclose, -⟩ | ⟨_, _, hmore, hread⟩
    · cases hclose
    · obtain ⟨rfl, rfl⟩ := Step.more.inj hmore
      exact ⟨tail, by rw [hb], hread⟩
  · rw [if_neg hb] at hstep
    rcases hstep with ⟨hclose, -⟩ | ⟨_, _, hmore, -⟩
    · cases hclose
    · cases hmore

/-- The second half of a pair, from behind the first. -/
theorem exists_pair {high : Nat} {found : List UInt8 × List UInt8}
    (h : textFrom .kept (.pairBackslash high) decoded input = .ok found) :
    ∃ a b c d tail low, input = ascii '\\' :: ascii 'u' :: a :: b :: c :: d :: tail ∧
      hexValue? [a, b, c, d] = some low ∧ isLow low = true ∧
      textFrom .kept .plain
        ((codePoint (0x10000 + (high - 0xd800) * 0x400 + (low - 0xdc00))).reverse ++ decoded) tail =
        .ok found := by
  obtain ⟨_, rfl, hletter⟩ := exists_exact (fun _ => rfl) h
  obtain ⟨_, rfl, hdigits⟩ := exists_exact (fun _ => rfl) hletter
  obtain ⟨a, b, c, d, tail, low, next, more, rfl, hunit, hstep, hread⟩ := exists_unit hdigits
  simp only [Mode.unit, if_true] at hstep
  split_ifs at hstep with hlow
  obtain ⟨rfl, rfl⟩ := Step.more.inj hstep
  exact ⟨a, b, c, d, tail, low, rfl, hunit, hlow, hread⟩

/-- What is claimed of a string that was read: the bytes before the closing quote, and how they add
to the bytes decoded before. -/
def ReadAs (use : Use) (decoded input found rest : List UInt8) : Prop :=
  ∃ raw bytes, input = raw ++ ascii '"' :: rest ∧ Unescapes use raw bytes ∧
    (use = .kept → found = decoded.reverse ++ bytes)

/-- One piece and the string behind it. -/
theorem ReadAs.piece {decoded' found : List UInt8} (raw piece : List UInt8)
    (hunescapes : ∀ {more bytes}, Unescapes use more bytes →
      Unescapes use (raw ++ more) (piece ++ bytes))
    (hdecoded : use = .kept → decoded' = piece.reverse ++ decoded)
    (h : ReadAs use decoded' input found rest) :
    ReadAs use decoded (raw ++ input) found rest := by
  obtain ⟨more, bytes, rfl, hmore, hfound⟩ := h
  refine ⟨raw ++ more, piece ++ bytes, (List.append_assoc ..).symm, hunescapes hmore, ?_⟩
  intro huse
  rw [hfound huse, hdecoded huse, List.reverse_append, List.reverse_reverse, List.append_assoc]

/-- **What is read is a string**, and its bytes are the ones that it stands for. -/
theorem textFrom_sound {found : List UInt8}
    (h : textFrom use .plain decoded input = .ok (found, rest)) :
    ReadAs use decoded input found rest := by
  -- a piece is more than one byte, so the induction is on the length of the input
  induction hlength : input.length using Nat.strongRecOn generalizing input decoded with
  | ind length ih =>
    subst hlength
    obtain ⟨b, tail, rfl, hstep⟩ := exists_step h
    rcases hstep with ⟨hclose, hfound⟩ | ⟨next, more, hmore, h⟩
    · obtain ⟨rfl, rfl⟩ := Prod.mk.inj hfound
      exact ⟨[], [], by rw [plain_close hclose]; rfl, .nil, fun _ => (List.append_nil _).symm⟩
    rcases plain_sound hmore with ⟨hplain, rfl, rfl⟩ | ⟨rfl, rfl, rfl⟩
    · exact (ih _ (by simp) h rfl).piece [b] [b] (.plain hplain) fun huse => if_pos huse
    obtain ⟨letter, tail, rfl, hstep⟩ := exists_step h
    rcases hstep with ⟨hclose, -⟩ | ⟨next, more, hmore, h⟩
    · exact absurd hclose (letter_ne_close letter)
    rcases letter_sound hmore with ⟨b, hletter, rfl, rfl⟩ | ⟨rfl, rfl, rfl⟩
    · have hless : tail.length < (ascii '\\' :: letter :: tail).length := by
        simp only [List.length_cons]
        omega
      refine (ih _ hless h rfl).piece [ascii '\\', letter] [b] (.short hletter) ?_
      rintro rfl
      rfl
    obtain ⟨a, b, c, d, tail, unit, next, more, rfl, hunit, hstep, h⟩ := exists_unit h
    have hless : tail.length < (ascii '\\' :: ascii 'u' :: a :: b :: c :: d :: tail).length := by
      simp only [List.length_cons]
      omega
    cases use with
    | skipped =>
      obtain ⟨rfl, rfl⟩ := Step.more.inj hstep
      exact (ih _ hless h rfl).piece [ascii '\\', ascii 'u', a, b, c, d] []
        (.loose rfl hunit) nofun
    | kept =>
      rcases unit_sound hstep with ⟨hhigh, hlow, rfl, rfl⟩ | ⟨hhigh, rfl, rfl⟩
      · exact (ih _ hless h rfl).piece [ascii '\\', ascii 'u', a, b, c, d]
          (codePoint unit) (.unit hunit hhigh hlow) fun _ => rfl
      · obtain ⟨a', b', c', d', tail, low, rfl, hlowUnit, hlow, h⟩ := exists_pair h
        refine (ih _ (Nat.lt_trans ?_ hless) h rfl).piece
          [ascii '\\', ascii 'u', a, b, c, d, ascii '\\', ascii 'u', a', b', c', d'] _
          (.pair hunit hhigh hlowUnit hlow) fun _ => rfl
        simp only [List.length_cons]
        omega

/-! ## Whole strings -/

/-- **What may stand between the quotes of a string that is kept**: what it stands for must be the
bytes of the text. -/
def SpellsText (raw : List UInt8) (value : String) : Prop :=
  Unescapes .kept raw (Utf8.ofString value)

/-- **A string is kept** exactly if its bytes are those of a text. -/
theorem text_eq_ok_iff {value : String} : text input = .ok (value, rest) ↔
    ∃ raw, input = raw ++ ascii '"' :: rest ∧ SpellsText raw value := by
  constructor
  · intro h
    unfold text at h
    split at h
    · cases h
    rename_i bytes left hread
    split at h
    · rename_i chars hdecode
      obtain ⟨rfl, rfl⟩ := Prod.mk.inj (Except.ok.inj h)
      obtain ⟨raw, found, rfl, hraw, hbytes⟩ := textFrom_sound hread
      obtain rfl : bytes = found := hbytes rfl
      refine ⟨raw, rfl, ?_⟩
      unfold SpellsText Utf8.ofString
      rwa [String.toList_ofList, ← Utf8.decode_eq_ok_iff.1 hdecode]
    · cases h
  · rintro ⟨raw, rfl, hraw⟩
    have hread : textFrom .kept .plain [] (raw ++ ascii '"' :: rest) =
        .ok (Utf8.ofString value, rest) :=
      textFrom_kept hraw
    unfold text
    simp only [hread, Utf8.ofString, Utf8.decode_encode, String.ofList_toList]

/-- **A string is skipped** exactly if its escapes are well formed. -/
theorem skipText_eq_ok_iff : skipText input = .ok rest ↔
    ∃ raw bytes, input = raw ++ ascii '"' :: rest ∧ Unescapes .skipped raw bytes := by
  constructor
  · intro h
    obtain ⟨⟨found, left⟩, hread, rfl⟩ := map_eq_ok_iff.1 h
    obtain ⟨raw, bytes, hinput, hraw, -⟩ := textFrom_sound hread
    exact ⟨raw, bytes, hinput, hraw⟩
  · rintro ⟨raw, bytes, rfl, hraw⟩
    obtain ⟨found, hread⟩ := textFrom_skipped hraw
    exact map_eq_ok_iff.2 ⟨_, hread, rfl⟩

end ChunkSizing.Json
