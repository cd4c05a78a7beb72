import ChunkSizing.Json.Kinds
import ChunkSizing.Json.Skip
import ChunkSizing.Proofs.Json.PromptNumber
import ChunkSizing.Proofs.Json.Unescape

/-!
# ChunkSizing.Proofs.Json.PromptValue — values are read promptly.

A string is a loop over its bytes and a skipped value one over its tokens. A value of the wrong kind
is read to its end first, so it is a sequence of a prompt reader and a fault.
-/

namespace ChunkSizing.Json

open Reader

variable {α : Type} {use : Use} {input : List UInt8}

/-! ## Words -/

theorem prompt_word (letters : List UInt8) : Prompt (word letters) := by
  induction letters with
  | nil => exact prompt_done ()
  | cons letter letters ih =>
    have hword (b : UInt8) : PromptBehind [b] fun rest =>
        if b = letter then word letters rest else stopAt .expectedWord rest :=
      .ite (fun _ => ih.behind [b]) fun _ => (prompt_stopAt (by decide)).behind [b]
    exact (prompt_onFirst (.error (.ended .value)) hword (by simp)).congr
      fun input => by cases input <;> rfl

/-! ## Strings -/

/-- A step that refuses, if it does, where it stands. -/
def Step.IsMetInPlace : Step → Prop
  | .close | .more .. => True
  | .refuse cause | .refuseBefore cause => cause.IsMetInPlace

theorem isMetInPlace_letter (b : UInt8) : (Mode.letter b).IsMetInPlace := by
  unfold Mode.letter
  split_ifs
  all_goals trivial

theorem isMetInPlace_unit (high : Option Nat) (unit : Nat) :
    (Mode.unit high unit).IsMetInPlace := by
  unfold Mode.unit
  cases high
  all_goals
    dsimp only
    split_ifs
    all_goals trivial

/-- **A string is refused in place**, up to its closing quote. -/
theorem isMetInPlace_step (use : Use) (mode : Mode) (b : UInt8) :
    (mode.step use b).IsMetInPlace := by
  unfold Mode.step
  cases mode with
  | plain =>
    dsimp only
    split_ifs
    · trivial
    · trivial
    · cases use <;> trivial
    · trivial
  | escape => exact isMetInPlace_letter b
  | hex high found =>
    dsimp only
    split_ifs
    · trivial
    · cases hexValue? (found ++ [b]) with
      | none => cases use <;> trivial
      | some unit =>
        cases use with
        | kept => exact isMetInPlace_unit high unit
        | skipped => trivial
  | pairBackslash high =>
    dsimp only
    split_ifs
    · trivial
    · trivial
  | pairLetter high =>
    dsimp only
    split_ifs
    · trivial
    · trivial

/-- What a step comes to: the end of the string, or what is read on with. -/
def ofStep (use : Use) (decoded : List UInt8) (b : UInt8) :
    Step → Reader (List UInt8 ⊕ Mode × List UInt8)
  | .close => done (.inl decoded.reverse)
  | .more mode more => done (.inr (mode, if use = .kept then more.reverse ++ decoded else []))
  | .refuse cause => stopAt cause
  | .refuseBefore cause => fun rest => stopAt cause ([b] ++ rest)

/-- One byte of a string. -/
def textRound (use : Use) (state : Mode × List UInt8) :
    Reader (List UInt8 ⊕ Mode × List UInt8) :=
  onFirst (.error (.ended .text)) fun b => ofStep use state.2 b (state.1.step use b)

theorem prompt_textRound (use : Use) (state : Mode × List UInt8) :
    Prompt (textRound use state) := by
  refine prompt_onFirst _ (fun b => ?_) (by simp)
  have hplace := isMetInPlace_step use state.1 b
  generalize state.1.step use b = step at hplace ⊢
  cases step with
  | close => exact (prompt_done _).behind [b]
  | more mode more => exact (prompt_done _).behind [b]
  | refuse cause => exact (prompt_stopAt hplace).behind [b]
  | refuseBefore cause => exact (prompt_stopAt hplace).again [b]

theorem textRound_shorter {state next : Mode × List UInt8} {rest : List UInt8}
    (h : textRound use state input = .ok (.inr next, rest)) : rest.length < input.length := by
  cases input with
  | nil => cases h
  | cons b tail =>
    rw [textRound, onFirst_cons] at h
    cases hstep : state.1.step use b <;> rw [hstep] at h <;> cases h
    exact Nat.lt_succ_self _

theorem textFrom_eq (use : Use) (state : Mode × List UInt8) :
    textFrom use state.1 state.2 = (textRound use state).andThen
      (Sum.elim done fun next => textFrom use next.1 next.2) := by
  funext input
  cases input with
  | nil => rfl
  | cons b rest =>
    unfold andThen
    rw [textFrom, textRound, onFirst_cons]
    cases state.1.step use b <;> rfl

theorem prompt_textFrom (use : Use) (mode : Mode) (decoded : List UInt8) :
    Prompt (textFrom use mode decoded) :=
  prompt_loop (fun state => textFrom use state.1 state.2) (prompt_textRound use)
    textRound_shorter (textFrom_eq use) (mode, decoded)

theorem text_of_error {fault : Fault} (h : textFrom .kept .plain [] input = .error fault) :
    text input = .error fault := by
  unfold text
  rw [h]

/-- A string whose bytes are no text, with what stands behind its closing quote. -/
theorem text_of_no_text {raw bytes : List UInt8} {good : Nat} (hraw : Unescapes .kept raw bytes)
    (hdecode : Utf8.decode bytes = .error good) (rest : List UInt8) :
    text (raw ++ ascii '"' :: rest) =
      .error ⟨.invalidText, rest.length + (bytes.length - good), none⟩ := by
  have hread : textFrom .kept .plain [] (raw ++ ascii '"' :: rest) = .ok (bytes, rest) :=
    textFrom_kept hraw
  unfold text
  simp only [hread, hdecode]

/-- **Why a string is refused**: for a byte of it, or at its closing quote. -/
theorem text_error {fault : Fault} (h : text input = .error fault) :
    textFrom .kept .plain [] input = .error fault ∨
      ∃ raw bytes good rest, input = raw ++ ascii '"' :: rest ∧ Unescapes .kept raw bytes ∧
        Utf8.decode bytes = .error good ∧
        ⟨.invalidText, rest.length + (bytes.length - good), none⟩ = fault := by
  cases hread : textFrom .kept .plain [] input with
  | error found =>
    obtain rfl := Except.error.inj ((text_of_error hread).symm.trans h)
    exact .inl rfl
  | ok found =>
    obtain ⟨bytes, rest⟩ := found
    obtain ⟨raw, found, rfl, hraw, hbytes⟩ := textFrom_sound hread
    obtain rfl : bytes = found := hbytes rfl
    cases hdecode : Utf8.decode bytes with
    | error good =>
      rw [text_of_no_text hraw hdecode] at h
      exact .inr ⟨raw, bytes, good, rest, rfl, hraw, hdecode, Except.error.inj h⟩
    | ok chars =>
      unfold text at h
      simp only [hread, hdecode] at h
      cases h

/-- The closing quote settles what becomes of a string; a byte of it that is refused does so
before. -/
theorem prompt_text : Prompt text where
  leaves := text_leaves
  unread_le := by
    intro input fault h hcause
    obtain hread | ⟨raw, bytes, good, rest, -, -, -, rfl⟩ := text_error h
    · exact (prompt_textFrom .kept .plain []).unread_le hread hcause
    · exact absurd rfl hcause
  ended := by
    intro input fault h heof
    obtain hread | ⟨raw, bytes, good, rest, -, -, -, rfl⟩ := text_error h
    · exact (prompt_textFrom .kept .plain []).ended hread heof
    · cases heof
  ok_congr := by
    rintro front c back back' _ _ value rfl rfl h
    obtain ⟨raw, hinput, hraw⟩ := text_eq_ok_iff.1 h
    have hquote (rest : List UInt8) : raw ++ ascii '"' :: rest = (raw ++ [ascii '"']) ++ rest :=
      List.append_cons ..
    rw [hquote] at hinput
    obtain rfl := List.append_cancel_right hinput
    exact text_eq_ok_iff.2 ⟨raw, (hquote _).symm, hraw⟩
  error_congr := by
    intro front c back back' input input' fault hinput hinput' h hcause hunread
    obtain hread | ⟨raw, bytes, good, rest, -, -, -, rfl⟩ := text_error h
    · exact text_of_error
        ((prompt_textFrom .kept .plain []).error_congr hinput hinput' hread hcause hunread)
    · exact absurd rfl hcause
  settled := by
    intro input fault h hcause
    obtain hread | ⟨raw, bytes, good, rest, rfl, hraw, hdecode, rfl⟩ := text_error h
    · exact ((prompt_textFrom .kept .plain []).settled hread hcause).imp text_of_error
    · have hgood := Utf8.decode_error_lt hdecode
      have hlength := hraw.length_le
      refine ⟨raw, rest, bytes.length - good, rfl, by omega, rfl, ?_⟩
      rintro _ back' rfl
      exact text_of_no_text hraw hdecode back'

theorem prompt_skipText : Prompt (silent skipText) := by
  refine ((prompt_textFrom .skipped .plain []).andThen fun _ => prompt_done ()).congr
    fun input => ?_
  unfold silent skipText andThen
  cases textFrom .skipped .plain [] input <;> rfl

/-! ## Kinds -/

theorem prompt_onValue {read : UInt8 → Reader α} (h : ∀ b, PromptBehind [b] (read b)) :
    Prompt (onValue read) := by
  refine prompt_of_behindBlank (.error (.ended .value)) h (by simp) fun input => ?_
  unfold onValue
  cases skipBlank input <;> rfl

/-- How a number is named that was found. -/
def Value.found : Value → Found
  | .integer value => .integer value
  | .number value => .number value

theorem prompt_wrongKind (found : Found) (wanted : Wanted) :
    Prompt (stopAt (.wrongKind found wanted) : Reader α) :=
  prompt_stopAt (Cause.isMetInPlace_of_data rfl)

/-- A value of another kind is read, and refused where it ends. -/
theorem prompt_mismatch (wanted : Wanted) (b : UInt8) :
    PromptBehind [b] (mismatch wanted b : Reader α) := by
  have hword (letters : List UInt8) (found : Found) : PromptBehind [b]
      ((word letters).andThen fun _ => (stopAt (.wrongKind found wanted) : Reader α)) :=
    ((prompt_word letters).andThen fun _ => prompt_wrongKind found wanted).behind [b]
  have hnumber := (prompt_number.andThen fun value =>
    prompt_wrongKind (α := α) value.found wanted).again [b]
  have htext := (prompt_text.andThen fun value =>
    prompt_wrongKind (α := α) (.text value) wanted).behind [b]
  show PromptBehind [b] fun tail => mismatch wanted b tail
  unfold mismatch
  refine .ite (fun _ => (hword nullTail .null).congr (bind_eq_andThen fun _ _ => rfl)) fun _ =>
    .ite (fun _ => (hword trueTail (.boolean true)).congr (bind_eq_andThen fun _ _ => rfl)) fun _ =>
    .ite (fun _ => (hword falseTail (.boolean false)).congr (bind_eq_andThen fun _ _ => rfl))
      fun _ => ?_
  refine .ite (fun _ => hnumber.congr fun tail => bind_eq_andThen ?_ _) fun _ =>
    .ite (fun _ => htext.congr (bind_eq_andThen fun _ _ => rfl)) fun _ =>
    .ite (fun _ => (prompt_wrongKind _ _).again [b]) fun _ =>
    .ite (fun _ => (prompt_wrongKind _ _).again [b])
      fun _ => (prompt_stopPast (by decide)).again [b]
  intro value rest
  cases value <;> rfl

/-- The integer that a value is, if it is one of 64 bits. -/
def integerOf : Value → Reader Int64
  | .integer value => fun rest =>
    if Int64.minValue.toInt ≤ value ∧ value ≤ Int64.maxValue.toInt then
      .ok (Int64.ofInt value, rest)
    else stopAt (.outOfRange value .integer) rest
  | .number value => stopAt (.wrongKind (.number value) .integer)

theorem prompt_integerOf (value : Value) : Prompt (integerOf value) := by
  cases value with
  | integer value =>
    exact .ite (fun _ => prompt_done _) fun _ => prompt_stopAt (Cause.isMetInPlace_of_data rfl)
  | number value => exact prompt_wrongKind _ _

theorem prompt_integerValue : Prompt integerValue := by
  refine prompt_onValue fun b => .ite (fun _ => ?_) fun _ => prompt_mismatch _ b
  refine ((prompt_number.andThen prompt_integerOf).again [b]).congr fun tail => ?_
  show _ = number.andThen integerOf (b :: tail)
  unfold andThen
  cases number (b :: tail) with
  | error fault => rfl
  | ok found =>
    obtain ⟨value, rest⟩ := found
    cases value <;> rfl

/-- The number that a value is. -/
def Value.toNumber : Value → Binary64
  | .integer value => .ofInt value
  | .number value => value

theorem prompt_numberValue : Prompt numberValue := by
  refine prompt_onValue fun b => .ite (fun _ => ?_) fun _ => prompt_mismatch _ b
  refine ((prompt_number.andThen fun value => prompt_done value.toNumber).again [b]).congr
    fun tail => ?_
  show _ = number.andThen (fun value => done value.toNumber) (b :: tail)
  unfold andThen
  cases number (b :: tail) with
  | error fault => rfl
  | ok found =>
    obtain ⟨value, rest⟩ := found
    cases value <;> rfl

theorem prompt_textValue : Prompt textValue :=
  prompt_onValue fun b => .ite (fun _ => prompt_text.behind [b]) fun _ => prompt_mismatch _ b

theorem prompt_optional {read : Reader α} (h : Prompt read) : Prompt (optional read) := by
  refine prompt_onValue fun b => .ite (fun _ => ?_) fun _ => ?_
  · refine (((prompt_word nullTail).andThen fun _ => prompt_done none).behind [b]).congr
      fun tail => ?_
    unfold andThen
    cases word nullTail tail <;> rfl
  · refine ((h.andThen fun value => prompt_done (some value)).again [b]).congr fun tail => ?_
    show _ = read.andThen (fun value => done (some value)) (b :: tail)
    unfold andThen
    cases read (b :: tail) <;> rfl

theorem prompt_storing {δ : Type} {read : Reader α} (h : Prompt read) (store : α → δ) :
    Prompt (storing read store) := by
  refine (h.andThen fun value => prompt_done (store value)).congr fun input => ?_
  unfold storing andThen
  cases read input <;> rfl

end ChunkSizing.Json
