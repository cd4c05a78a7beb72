import ChunkSizing.Json.Numeral
import ChunkSizing.Json.Text

/-!
# ChunkSizing.Json.Kinds — values of a wanted kind.

A field wants an integer of 64 bits, a number or a text, and an optional field takes `null` instead.
A value of another kind is read to its end before it is refused, so that a malformed one is refused
for its form; lists and objects are refused at their bracket.
-/

namespace ChunkSizing.Json

variable {α : Type}

/-- A value of another kind than the wanted one, from its first byte. -/
def mismatch (wanted : Wanted) (b : UInt8) (tail : List UInt8) : Except Fault α :=
  let afterWord (letters : List UInt8) (found : Found) : Except Fault α := do
    let (_, rest) ← word letters tail
    stopAt (.wrongKind found wanted) rest
  if b = ascii 'n' then afterWord nullTail .null
  else if b = ascii 't' then afterWord trueTail (.boolean true)
  else if b = ascii 'f' then afterWord falseTail (.boolean false)
  else if b = ascii '-' ∨ isDigit b then do
    match ← number (b :: tail) with
    | (.integer value, rest) => stopAt (.wrongKind (.integer value) wanted) rest
    | (.number value, rest) => stopAt (.wrongKind (.number value) wanted) rest
  else if b = ascii '"' then do
    let (value, rest) ← text tail
    stopAt (.wrongKind (.text value) wanted) rest
  else if b = ascii '[' then stopAt (.wrongKind .list wanted) (b :: tail)
  else if b = ascii '\x7b' then stopAt (.wrongKind .object wanted) (b :: tail)
  else stopPast .expectedValue (b :: tail)

/-- A value that stands behind white space, from its first byte. -/
def onValue (read : UInt8 → Reader α) : Reader α := fun input =>
  match skipBlank input with
  | [] => stopPast (.ended .value) []
  | b :: tail => read b tail

/-- **An integer of 64 bits.** -/
def integerValue : Reader Int64 := onValue fun b tail =>
  if b = ascii '-' ∨ isDigit b then
    match number (b :: tail) with
    | .error fault => .error fault
    | .ok (.integer value, rest) =>
      if Int64.minValue.toInt ≤ value ∧ value ≤ Int64.maxValue.toInt then
        .ok (Int64.ofInt value, rest)
      else stopAt (.outOfRange value .integer) rest
    | .ok (.number value, rest) => stopAt (.wrongKind (.number value) .integer) rest
  else mismatch .integer b tail

/-- **A number.** An integer is one too, rounded to the nearest. -/
def numberValue : Reader Binary64 := onValue fun b tail =>
  if b = ascii '-' ∨ isDigit b then
    match number (b :: tail) with
    | .error fault => .error fault
    | .ok (.integer value, rest) => .ok (.ofInt value, rest)
    | .ok (.number value, rest) => .ok (value, rest)
  else mismatch .number b tail

/-- **A text.** -/
def textValue : Reader String := onValue fun b tail =>
  if b = ascii '"' then text tail else mismatch .text b tail

/-- **An optional value.** `null` is an absent one. -/
def optional (read : Reader α) : Reader (Option α) := onValue fun b tail =>
  if b = ascii 'n' then
    match word nullTail tail with
    | .error fault => .error fault
    | .ok (_, rest) => .ok (none, rest)
  else
    match read (b :: tail) with
    | .error fault => .error fault
    | .ok (value, rest) => .ok (some value, rest)

/-- A reader that stores what it reads. -/
def storing {δ : Type} (read : Reader α) (store : α → δ) : Reader δ := fun input =>
  match read input with
  | .error fault => .error fault
  | .ok (value, rest) => .ok (store value, rest)

/-! ## What is left -/

theorem mismatch_ne_ok {wanted : Wanted} {b : UInt8} {tail : List UInt8} {value : α} :
    mismatch wanted b tail ≠ .ok value := by
  have hword (letters : List UInt8) (found : Found) :
      (do
        let (_, rest) ← word letters tail
        stopAt (.wrongKind found wanted) rest : Except Fault α) ≠ .ok value := by
    intro h
    obtain ⟨_, -, hstop⟩ := bind_eq_ok_iff.1 h
    simp [stopAt] at hstop
  simp only [mismatch]
  split
  · exact hword _ _
  split
  · exact hword _ _
  split
  · exact hword _ _
  split
  · intro h
    obtain ⟨⟨found, rest⟩, -, hstop⟩ := bind_eq_ok_iff.1 h
    cases found <;> simp [stopAt] at hstop
  split
  · intro h
    obtain ⟨_, -, hstop⟩ := bind_eq_ok_iff.1 h
    simp [stopAt] at hstop
  split
  · simp [stopAt]
  split
  · simp [stopAt]
  · simp [stopPast]

theorem onValue_leaves {read : UInt8 → Reader α}
    (h : ∀ {b tail value rest}, read b tail = .ok (value, rest) → rest <:+ b :: tail) :
    (onValue read).Leaves := by
  intro input _ _ hread
  simp only [onValue] at hread
  split at hread
  · simp [stopPast] at hread
  · rename_i b tail hblank
    have hinput : b :: tail <:+ input := hblank ▸ skipBlank_suffix input
    exact (h hread).trans hinput

theorem integerValue_leaves : integerValue.Leaves := by
  refine onValue_leaves fun {b tail _ _} h => ?_
  split at h
  · split at h
    · simp at h
    · rename_i hnumber
      split at h
      · simp only [Except.ok.injEq, Prod.mk.injEq] at h
        exact h.2 ▸ number_leaves hnumber
      · simp [stopAt] at h
    · simp [stopAt] at h
  · exact absurd h mismatch_ne_ok

theorem numberValue_leaves : numberValue.Leaves := by
  refine onValue_leaves fun {b tail _ _} h => ?_
  split at h
  · split at h
    · simp at h
    · rename_i hnumber
      simp only [Except.ok.injEq, Prod.mk.injEq] at h
      exact h.2 ▸ number_leaves hnumber
    · rename_i hnumber
      simp only [Except.ok.injEq, Prod.mk.injEq] at h
      exact h.2 ▸ number_leaves hnumber
  · exact absurd h mismatch_ne_ok

theorem textValue_leaves : textValue.Leaves := by
  refine onValue_leaves fun {b tail _ _} h => ?_
  split at h
  · exact (text_leaves h).trans (List.suffix_cons b tail)
  · exact absurd h mismatch_ne_ok

theorem optional_leaves {read : Reader α} (hread : read.Leaves) : (optional read).Leaves := by
  refine onValue_leaves fun {b tail _ _} h => ?_
  split at h
  · split at h
    · simp at h
    · rename_i hword
      simp only [Except.ok.injEq, Prod.mk.injEq] at h
      exact (h.2 ▸ word_leaves _ hword).trans (List.suffix_cons b tail)
  · split at h
    · simp at h
    · rename_i hvalue
      simp only [Except.ok.injEq, Prod.mk.injEq] at h
      exact h.2 ▸ hread hvalue

theorem storing_leaves {δ : Type} {read : Reader α} (h : read.Leaves) (store : α → δ) :
    (storing read store).Leaves := by
  intro input _ _ hread
  simp only [storing] at hread
  split at hread
  · simp at hread
  · rename_i hvalue
    simp only [Except.ok.injEq, Prod.mk.injEq] at hread
    exact hread.2 ▸ h hvalue

end ChunkSizing.Json
