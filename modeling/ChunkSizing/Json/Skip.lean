import ChunkSizing.Json.Numeral
import ChunkSizing.Json.Text

/-!
# ChunkSizing.Json.Skip — values that nobody asked for.

A value under an unknown key is checked for form and dropped, however deeply it is nested. The
nesting is held in a list of open brackets, so that depth costs no call stack. `State` says what is
expected next; one step takes one token and gives the next state, or the bytes behind the finished
value.
-/

namespace ChunkSizing.Json.Skip

/-- A bracket that is still open. -/
inductive Bracket where
  | list
  | object
deriving DecidableEq

/-- What is expected next, and the brackets around it with the innermost first. -/
inductive State where
  | value (around : List Bracket)
  | firstElement (outer : List Bracket)
  | firstKey (outer : List Bracket)
  | nextKey (outer : List Bracket)
  | afterItem (inner : Bracket) (outer : List Bracket)
deriving DecidableEq

/-- The outcome of one token. -/
inductive Progress where
  | finished (rest : List UInt8)
  | more (state : State) (rest : List UInt8)

/-- The bytes behind the token. -/
def Progress.rest : Progress → List UInt8
  | finished rest => rest
  | more _ rest => rest

/-- A value has ended inside `around`. -/
def ended (around : List Bracket) (rest : List UInt8) : Progress :=
  match around with
  | [] => .finished rest
  | inner :: outer => .more (.afterItem inner outer) rest

/-! ## Tokens -/

/-- A value that is no list and no object. -/
def scalar (b : UInt8) (tail : List UInt8) : Except Fault (List UInt8) :=
  if b = ascii 'n' then (word nullTail tail).map Prod.snd
  else if b = ascii 't' then (word trueTail tail).map Prod.snd
  else if b = ascii 'f' then (word falseTail tail).map Prod.snd
  else if b = ascii '"' then skipText tail
  else if b = ascii '-' ∨ isDigit b then (numeral .skipped (b :: tail)).map Prod.snd
  else stopPast .expectedValue (b :: tail)

/-- The first token of a value that begins with `b`. -/
def valueToken (around : List Bracket) (b : UInt8) (tail : List UInt8) : Except Fault Progress :=
  if b = ascii '[' then .ok (.more (.firstElement around) tail)
  else if b = ascii '\x7b' then .ok (.more (.firstKey around) tail)
  else (scalar b tail).map (ended around)

/-- A key and its colon. -/
def keyToken (outer : List Bracket) (b : UInt8) (tail : List UInt8) : Except Fault Progress :=
  if b = ascii '"' then
    match skipText tail with
    | .error fault => .error fault
    | .ok rest =>
      match skipBlank rest with
      | [] => stopPast (.ended .object) []
      | c :: rest =>
        if c = ascii ':' then .ok (.more (.value (.object :: outer)) rest)
        else stopPast .expectedColon (c :: rest)
  else stopPast .keyNotText (b :: tail)

/-- What stands behind an element or a member. -/
def separator (inner : Bracket) (outer : List Bracket) (b : UInt8) (tail : List UInt8) :
    Except Fault Progress :=
  match inner with
  | .list =>
    if b = ascii ',' then .ok (.more (.value (.list :: outer)) tail)
    else if b = ascii ']' then .ok (ended outer tail)
    else stopPast .expectedListCommaOrEnd (b :: tail)
  | .object =>
    if b = ascii ',' then .ok (.more (.nextKey outer) tail)
    else if b = ascii '\x7d' then .ok (ended outer tail)
    else stopPast .expectedObjectCommaOrEnd (b :: tail)

/-- What an input that ends in a state has left unfinished. -/
def State.unfinished : State → Unfinished
  | value _ => .value
  | firstElement _ | afterItem .list _ => .list
  | firstKey _ | nextKey _ | afterItem .object _ => .object

/-- **One token.** White space before it is passed over. -/
def State.step (state : State) (input : List UInt8) : Except Fault Progress :=
  match skipBlank input with
  | [] => stopPast (.ended state.unfinished) []
  | b :: tail =>
    match state with
    | value around => valueToken around b tail
    | firstElement outer =>
      if b = ascii ']' then .ok (ended outer tail) else valueToken (.list :: outer) b tail
    | firstKey outer =>
      if b = ascii '\x7d' then .ok (ended outer tail) else keyToken outer b tail
    | nextKey outer => keyToken outer b tail
    | afterItem inner outer => separator inner outer b tail

/-! ## Every token is a step forward -/

@[simp]
theorem ended_rest (around : List Bracket) (rest : List UInt8) :
    (ended around rest).rest = rest := by
  cases around <;> rfl

theorem scalar_suffix {b : UInt8} {tail rest : List UInt8} (h : scalar b tail = .ok rest) :
    rest <:+ tail := by
  have hword (letters : List UInt8) (hw : (word letters tail).map Prod.snd = .ok rest) :
      rest <:+ tail := by
    obtain ⟨_, hread, rfl⟩ := map_eq_ok_iff.1 hw
    exact word_leaves letters hread
  simp only [scalar] at h
  split at h
  · exact hword _ h
  split at h
  · exact hword _ h
  split at h
  · exact hword _ h
  split at h
  · exact skipText_suffix h
  split at h
  · obtain ⟨_, hread, rfl⟩ := map_eq_ok_iff.1 h
    -- A numeral is not empty, so what it leaves is an end of the tail.
    obtain ⟨hsuffix, hlt⟩ := numeral_leaves _ hread
    rcases List.suffix_cons_iff.1 hsuffix with heq | hsuffix
    · simp [heq] at hlt
    · exact hsuffix
  · simp [stopPast] at h

theorem valueToken_suffix {around : List Bracket} {b : UInt8} {tail : List UInt8} {p : Progress}
    (h : valueToken around b tail = .ok p) : p.rest <:+ tail := by
  simp only [valueToken] at h
  split at h
  · cases h; exact List.suffix_refl _
  split at h
  · cases h; exact List.suffix_refl _
  obtain ⟨rest, hread, rfl⟩ := map_eq_ok_iff.1 h
  rw [ended_rest]
  exact scalar_suffix hread

theorem keyToken_suffix {outer : List Bracket} {b : UInt8} {tail : List UInt8} {p : Progress}
    (h : keyToken outer b tail = .ok p) : p.rest <:+ tail := by
  simp only [keyToken] at h
  split at h
  · split at h
    · simp at h
    · rename_i rest hread
      split at h
      · simp [stopPast] at h
      · rename_i c rest' hblank
        split at h
        · cases h
          have hsuffix : c :: rest' <:+ rest := hblank ▸ skipBlank_suffix rest
          exact ((List.suffix_cons c rest').trans hsuffix).trans (skipText_suffix hread)
        · simp [stopPast] at h
  · simp [stopPast] at h

theorem separator_suffix {inner : Bracket} {outer : List Bracket} {b : UInt8} {tail : List UInt8}
    {p : Progress} (h : separator inner outer b tail = .ok p) : p.rest <:+ tail := by
  cases inner <;> simp only [separator] at h <;> split at h
  all_goals first
    | (cases h; exact List.suffix_refl _)
    | (split at h
       · cases h; exact (ended_rest outer tail).symm ▸ List.suffix_refl _
       · simp [stopPast] at h)

/-- A token takes at least one byte off the front of the input. -/
theorem step_leaves {state : State} {input : List UInt8} {p : Progress}
    (h : state.step input = .ok p) : p.rest <:+ input ∧ p.rest.length < input.length := by
  simp only [State.step] at h
  split at h
  · simp [stopPast] at h
  · rename_i b tail hblank
    have hinput : b :: tail <:+ input := hblank ▸ skipBlank_suffix input
    have hlength := hinput.length_le
    have hrest : p.rest <:+ tail := by
      split at h
      · exact valueToken_suffix h
      · split at h
        · cases h; exact (ended_rest _ tail).symm ▸ List.suffix_refl _
        · exact valueToken_suffix h
      · split at h
        · cases h; exact (ended_rest _ tail).symm ▸ List.suffix_refl _
        · exact keyToken_suffix h
      · exact keyToken_suffix h
      · exact separator_suffix h
    have := hrest.length_le
    exact ⟨(hrest.trans (List.suffix_cons b tail)).trans hinput, by simp at hlength; omega⟩

/-! ## Whole values -/

/-- Token after token, to the end of the outermost value. -/
def run (state : State) (input : List UInt8) : Except Fault (List UInt8) :=
  match h : state.step input with
  | .error fault => .error fault
  | .ok (.finished rest) => .ok rest
  | .ok (.more next rest) =>
    have : rest.length < input.length := (step_leaves h).2
    run next rest
termination_by input.length

theorem run_suffix {state : State} {input rest : List UInt8} (h : run state input = .ok rest) :
    rest <:+ input := by
  fun_induction run state input with
  | case1 => simp at h
  | case2 state input left hstep => cases h; exact (step_leaves hstep).1
  | case3 state input next left hstep _ ih => exact (ih h).trans (step_leaves hstep).1

end Skip

/-- **A value that is skipped.** -/
def skipValue (input : List UInt8) : Except Fault (List UInt8) := Skip.run (.value []) input

theorem skipValue_suffix {input rest : List UInt8} (h : skipValue input = .ok rest) :
    rest <:+ input :=
  Skip.run_suffix h

end ChunkSizing.Json
