import ChunkSizing.Json.Fault

/-!
# ChunkSizing.Json.Reader — reading from the front of a byte sequence.

A reader takes a value off the front of its input and returns the rest. The rest is always an end of
the input (`Reader.Leaves`); that is what bounds the loops over members and what makes positions
honest.
-/

namespace ChunkSizing.Json

/-- A reader of `α`: the value and the bytes behind it, or the first fault. -/
abbrev Reader (α : Type) := List UInt8 → Except Fault (α × List UInt8)

/-- A reader leaves an end of its input. -/
def Reader.Leaves {α : Type} (read : Reader α) : Prop :=
  ∀ {input value rest}, read input = .ok (value, rest) → rest <:+ input

/-! ## Results -/

theorem map_eq_ok_iff {ε α β : Type} {f : α → β} {result : Except ε α} {value : β} :
    result.map f = .ok value ↔ ∃ found, result = .ok found ∧ f found = value := by
  cases result <;> simp [Except.map]

theorem bind_eq_ok_iff {ε α β : Type} {next : α → Except ε β} {result : Except ε α} {value : β} :
    result >>= next = .ok value ↔ ∃ found, result = .ok found ∧ next found = .ok value := by
  cases result <;> simp [bind, Except.bind]

/-! ## Bytes -/

/-- A byte of the ASCII range. -/
abbrev ascii (c : Char) : UInt8 := c.toUInt8

/-! ## Faults -/

/-- A fault before the bytes `rest`. -/
def stopAt {α : Type} (cause : Cause) (rest : List UInt8) : Except Fault α :=
  .error ⟨cause, rest.length, none⟩

/-- A fault that counts the next byte too, if there is one. -/
def stopPast {α : Type} (cause : Cause) (rest : List UInt8) : Except Fault α :=
  .error ⟨cause, rest.length - 1, none⟩

/-! ## White space and words -/

/-- Space, tab, line feed and carriage return. -/
def isBlank (b : UInt8) : Bool := b == 32 || b == 9 || b == 10 || b == 13

/-- The input without the white space at its front. -/
def skipBlank (input : List UInt8) : List UInt8 := input.dropWhile isBlank

theorem skipBlank_suffix (input : List UInt8) : skipBlank input <:+ input :=
  List.dropWhile_suffix _

/-- The letters of a word, one after the other. -/
def word : List UInt8 → Reader Unit
  | [], input => .ok ((), input)
  | _ :: _, [] => stopAt (.ended .value) []
  | letter :: letters, b :: rest =>
    if b = letter then word letters rest else stopAt .expectedWord rest

theorem word_leaves (letters : List UInt8) : (word letters).Leaves := by
  intro input
  induction letters generalizing input with
  | nil =>
    intro _ _ h
    simp only [word, Except.ok.injEq, Prod.mk.injEq] at h
    exact h.2 ▸ List.suffix_refl _
  | cons letter letters ih =>
    intro _ _ h
    cases input with
    | nil => simp [word, stopAt] at h
    | cons b rest =>
      simp only [word] at h
      split at h
      · exact (ih h).trans (List.suffix_cons b rest)
      · simp [stopAt] at h

/-- What follows the first letter of `null`. -/
def nullTail : List UInt8 := [ascii 'u', ascii 'l', ascii 'l']

/-- What follows the first letter of `true`. -/
def trueTail : List UInt8 := [ascii 'r', ascii 'u', ascii 'e']

/-- What follows the first letter of `false`. -/
def falseTail : List UInt8 := [ascii 'a', ascii 'l', ascii 's', ascii 'e']

/-! ## Use -/

/-- What becomes of a value: it is kept for a field, or skipped. Skipping is less strict. -/
inductive Use where
  | kept
  | skipped
deriving DecidableEq

end ChunkSizing.Json
