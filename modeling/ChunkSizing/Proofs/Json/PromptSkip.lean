import ChunkSizing.Proofs.Json.PromptValue
import ChunkSizing.Proofs.Json.Skipping

/-!
# ChunkSizing.Proofs.Json.PromptSkip — values are skipped promptly.

A skipped value is a loop over its tokens, and every token is a choice by its first byte.
-/

namespace ChunkSizing.Json

namespace Skip

open Reader

variable {b : UInt8} {input rest : List UInt8} {inner : Bracket} {outer : List Bracket}
  {state : State}

/-! ## Tokens as readers -/

/-- What is left to do: nothing, or to go on in a state. -/
def Progress.outcome : Progress → (Unit ⊕ State) × List UInt8
  | finished rest => (.inl (), rest)
  | more next rest => (.inr next, rest)

/-- A token, as a reader of what is left to do. -/
def tokenReader (token : List UInt8 → Except Fault Progress) : Reader (Unit ⊕ State) :=
  fun input => (token input).map Progress.outcome

/-- What is left to do where a value has ended. -/
def afterValue : List Bracket → Unit ⊕ State
  | [] => .inl ()
  | inner :: outer => .inr (.afterItem inner outer)

theorem outcome_ended (around : List Bracket) (rest : List UInt8) :
    (ended around rest).outcome = (afterValue around, rest) := by
  cases around <;> rfl

theorem prompt_scalar (b : UInt8) : PromptBehind [b] (silent (scalar b)) := by
  have hscalar : PromptBehind [b] fun tail =>
      if b = ascii 'n' then word nullTail tail
      else if b = ascii 't' then word trueTail tail
      else if b = ascii 'f' then word falseTail tail
      else if b = ascii '"' then silent skipText tail
      else if b = ascii '-' ∨ isDigit b = true then
        (numeral .skipped).andThen (fun _ => done ()) ([b] ++ tail)
      else stopPast .expectedValue ([b] ++ tail) :=
    .ite (fun _ => (prompt_word nullTail).behind [b]) fun _ =>
      .ite (fun _ => (prompt_word trueTail).behind [b]) fun _ =>
      .ite (fun _ => (prompt_word falseTail).behind [b]) fun _ =>
      .ite (fun _ => prompt_skipText.behind [b]) fun _ =>
      .ite (fun _ => ((prompt_numeral .skipped).andThen fun _ => prompt_done ()).again [b])
        fun _ => (prompt_stopPast (by decide)).again [b]
  have hword (letters tail : List UInt8) : ((word letters tail).map Prod.snd).map
      (fun rest => ((), rest)) = word letters tail := by
    cases word letters tail <;> rfl
  refine hscalar.congr fun tail => ?_
  unfold silent scalar
  split_ifs
  · exact hword nullTail tail
  · exact hword trueTail tail
  · exact hword falseTail tail
  · rfl
  · show _ = (numeral .skipped).andThen (fun _ => done ()) (b :: tail)
    unfold andThen
    cases numeral .skipped (b :: tail) <;> rfl
  · rfl

theorem prompt_valueToken (around : List Bracket) (b : UInt8) :
    PromptBehind [b] (tokenReader (valueToken around b)) := by
  have htoken : PromptBehind [b] fun tail =>
      if b = ascii '[' then done (.inr (.firstElement around)) tail
      else if b = ascii '\x7b' then done (.inr (.firstKey around)) tail
      else (silent (scalar b)).andThen (fun _ => done (afterValue around)) tail :=
    .ite (fun _ => (prompt_done _).behind [b]) fun _ =>
      .ite (fun _ => (prompt_done _).behind [b]) fun _ =>
      (prompt_scalar b).andThen fun _ => prompt_done _
  refine htoken.congr fun tail => ?_
  unfold tokenReader valueToken
  split_ifs
  · rfl
  · rfl
  · unfold andThen silent
    cases scalar b tail with
    | error fault => rfl
    | ok rest => exact congrArg Except.ok (outcome_ended around rest)

theorem prompt_keyToken (outer : List Bracket) (b : UInt8) :
    PromptBehind [b] (tokenReader (keyToken outer b)) := by
  have hcolon : Cause.expectedColon.IsMetInPlace := by decide
  have hmark := prompt_expected (ascii ':') (.inr (.value (.object :: outer)) : Unit ⊕ State) hcolon
  have hkey := prompt_skipText.andThen fun _ =>
    prompt_behindBlank (.error (.ended .object)) hmark (by simp)
  have hcause : Cause.keyNotText.IsMetInPlace := by decide
  have htoken := PromptBehind.ite (fun _ : b = ascii '"' => hkey.behind [b])
    fun _ => (prompt_stopPast hcause).again [b]
  refine htoken.congr fun tail => ?_
  unfold tokenReader keyToken
  split_ifs
  · unfold andThen silent
    cases skipText tail with
    | error fault => rfl
    | ok rest =>
      show _ = onFirst _ _ (skipBlank rest)
      dsimp only
      cases skipBlank rest with
      | nil => rfl
      | cons c rest =>
        rw [onFirst_cons]
        dsimp only
        split_ifs <;> rfl
  · rfl

theorem prompt_separator (inner : Bracket) (outer : List Bracket) (b : UInt8) :
    PromptBehind [b] (tokenReader (separator inner outer b)) := by
  have hseparator (next : State) (close : UInt8) {cause : Cause} (hcause : cause.IsMetInPlace) :
      PromptBehind [b] fun tail =>
        if b = ascii ',' then done (.inr next) tail
        else if b = close then done (afterValue outer) tail
        else stopPast cause ([b] ++ tail) :=
    .ite (fun _ => (prompt_done _).behind [b]) fun _ =>
      .ite (fun _ => (prompt_done _).behind [b]) fun _ => (prompt_stopPast hcause).again [b]
  cases inner with
  | list =>
    have hcause : Cause.expectedListCommaOrEnd.IsMetInPlace := by decide
    refine (hseparator (.value (.list :: outer)) (ascii ']') hcause).congr fun tail => ?_
    simp only [tokenReader, separator]
    split_ifs
    · rfl
    · exact congrArg Except.ok (outcome_ended outer tail)
    · rfl
  | object =>
    have hcause : Cause.expectedObjectCommaOrEnd.IsMetInPlace := by decide
    refine (hseparator (.nextKey outer) (ascii '\x7d') hcause).congr fun tail => ?_
    simp only [tokenReader, separator]
    split_ifs
    · rfl
    · exact congrArg Except.ok (outcome_ended outer tail)
    · rfl

/-! ## Steps -/

/-- The end of a bracket, or a token inside it. -/
theorem prompt_closeOr {close : UInt8} {token : UInt8 → List UInt8 → Except Fault Progress}
    (h : PromptBehind [b] (tokenReader (token b))) : PromptBehind [b]
      (tokenReader fun tail => if b = close then .ok (ended outer tail) else token b tail) := by
  have htoken := PromptBehind.ite (fun _ : b = close => (prompt_done (afterValue outer)).behind [b])
    fun _ => h
  refine htoken.congr fun tail => ?_
  unfold tokenReader
  split_ifs
  · exact congrArg Except.ok (outcome_ended outer tail)
  · rfl

/-- The token of a state, from its first byte. -/
def State.token : State → UInt8 → List UInt8 → Except Fault Progress
  | value around, b => valueToken around b
  | firstElement outer, b => fun tail =>
    if b = ascii ']' then .ok (ended outer tail) else valueToken (.list :: outer) b tail
  | firstKey outer, b => fun tail =>
    if b = ascii '\x7d' then .ok (ended outer tail) else keyToken outer b tail
  | nextKey outer, b => keyToken outer b
  | afterItem inner outer, b => separator inner outer b

theorem prompt_token (state : State) (b : UInt8) :
    PromptBehind [b] (tokenReader (state.token b)) := by
  cases state with
  | value around => exact prompt_valueToken around b
  | firstElement outer => exact prompt_closeOr (prompt_valueToken (.list :: outer) b)
  | firstKey outer => exact prompt_closeOr (prompt_keyToken outer b)
  | nextKey outer => exact prompt_keyToken outer b
  | afterItem inner outer => exact prompt_separator inner outer b

theorem prompt_step (state : State) : Prompt (tokenReader state.step) := by
  refine prompt_of_behindBlank (.error (.ended state.unfinished)) (prompt_token state) (by simp)
    fun input => ?_
  unfold tokenReader State.step
  cases skipBlank input with
  | nil => rfl
  | cons b tail => cases state <;> rfl

/-! ## Whole values -/

theorem tokenReader_shorter {next : State}
    (h : tokenReader state.step input = .ok (.inr next, rest)) : rest.length < input.length := by
  obtain ⟨progress, hstep, houtcome⟩ := map_eq_ok_iff.1 h
  cases progress with
  | finished left => cases houtcome
  | more found left =>
    cases houtcome
    exact (step_leaves hstep).2

theorem silent_run (state : State) : silent (run state) =
    (tokenReader state.step).andThen (Sum.elim done fun next => silent (run next)) := by
  funext input
  cases hstep : state.step input with
  | error fault =>
    have htoken : tokenReader state.step input = .error fault := by
      rw [tokenReader, hstep]
      rfl
    rw [andThen_of_error htoken, silent, run_refused hstep]
    rfl
  | ok progress =>
    have htoken : tokenReader state.step input = .ok progress.outcome := by
      rw [tokenReader, hstep]
      rfl
    rw [andThen_of_ok htoken, silent, run_of_step hstep]
    cases progress <;> rfl

theorem prompt_run (state : State) : Prompt (silent (run state)) :=
  prompt_loop (fun state => silent (run state)) prompt_step tokenReader_shorter silent_run state

end Skip

theorem prompt_skipValue : Reader.Prompt (Reader.silent skipValue) := Skip.prompt_run (.value [])

end ChunkSizing.Json
