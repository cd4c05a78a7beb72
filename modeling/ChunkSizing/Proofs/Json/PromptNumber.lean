import ChunkSizing.Proofs.Json.Prompt

/-!
# ChunkSizing.Proofs.Json.PromptNumber — numerals are read promptly.

A numeral is set out as a sequence of choices by the first byte, and the laws do the rest. Only the
value needs an argument of its own: an exponent leaves the range at some digit, the fault stands
there, and yet the digits behind that one are read first (`prompt_valuedDigits`).
-/

namespace ChunkSizing.Json

open Reader

variable {use : Use} {input : List UInt8}

/-! ## Digits -/

/-- The digits at the front. -/
def digitsFront : Reader (List Nat) := fun input => .ok (digits input, afterDigits input)

theorem digits_afterDigits_append {front back : List UInt8} {c : UInt8}
    (h : afterDigits (front ++ c :: back) = c :: back) (back' : List UInt8) :
    digits (front ++ c :: back') = digits (front ++ c :: back) ∧
      afterDigits (front ++ c :: back') = c :: back' := by
  have hinput : (front ++ c :: back).takeWhile isDigit ++ afterDigits (front ++ c :: back) =
      front ++ c :: back := List.takeWhile_append_dropWhile
  rw [h] at hinput
  have hfront : ∀ b ∈ front, isDigit b = true := by
    rw [← List.append_cancel_right hinput]
    exact fun b hb => List.mem_takeWhile_imp hb
  have hends (back : List UInt8) (hc : isDigit c = false) : EndsDigits (c :: back) :=
    endsDigits_cons back hc
  have hc : isDigit c = false := by
    have hhead := List.head?_dropWhile_not isDigit (front ++ c :: back)
    unfold afterDigits at h
    rw [h] at hhead
    exact hhead
  obtain ⟨hdigits, -⟩ := digits_append hfront (hends back hc)
  obtain ⟨hdigits', hafter⟩ := digits_append hfront (hends back' hc)
  exact ⟨hdigits'.trans hdigits.symm, hafter⟩

theorem prompt_digitsFront : Prompt digitsFront where
  leaves := by
    rintro input _ _ ⟨⟩
    exact afterDigits_suffix input
  unread_le := nofun
  ended := nofun
  ok_congr := by
    rintro front c back back' _ _ _ rfl rfl hread
    obtain ⟨rfl, hafter⟩ := Prod.mk.inj (Except.ok.inj hread)
    obtain ⟨hdigits, hafter'⟩ := digits_afterDigits_append hafter back'
    exact congrArg Except.ok (Prod.ext hdigits hafter')
  error_congr := nofun
  settled := nofun

/-- Digits behind one that was looked at. -/
theorem prompt_digits {b : UInt8} (h : isDigit b = true) :
    PromptBehind [b] fun rest => Except.ok (digits (b :: rest), afterDigits rest) := by
  refine (prompt_digitsFront.again [b]).congr fun rest => ?_
  rw [← afterDigits_cons h]
  rfl

/-! ## Numerals -/

/-- The sign of a numeral. -/
def minus : Reader Bool := onFirst (.ok false) fun b rest =>
  if b = ascii '-' then .ok (true, rest) else .ok (false, b :: rest)

theorem prompt_minus : Prompt minus :=
  prompt_onFirst _ (fun b => .ite (fun _ => (prompt_done true).behind _)
    fun _ => (prompt_done false).again [b]) (by simp)

@[simp] theorem endedNumeral_ne_invalidText (use : Use) : use.endedNumeral ≠ .invalidText := by
  cases use <;> simp [Use.endedNumeral]

theorem prompt_wholePart (use : Use) : Prompt (wholePart use) := by
  have hzero : Prompt fun rest : List UInt8 =>
      if (rest.head?.map isDigit).getD false = true then stopPast .invalidNumber rest
      else Except.ok ([0], rest) := by
    have hcause : Cause.invalidNumber.IsMetInPlace := by decide
    have hnext (b : UInt8) := PromptBehind.ite
      (fun _ : isDigit b = true => (prompt_stopPast hcause).again [b])
      (fun _ => (prompt_done [0]).again [b])
    exact (prompt_onFirst (.ok [0]) hnext (by simp)).congr fun input => by cases input <;> rfl
  have hwhole (b : UInt8) : PromptBehind [b] fun rest =>
      if b = ascii '0' then
        if (rest.head?.map isDigit).getD false = true then stopPast .invalidNumber rest
        else .ok ([0], rest)
      else if isDigit b = true then .ok (digits (b :: rest), afterDigits rest)
      else stopAt .invalidNumber rest :=
    .ite (fun _ => hzero.behind _) fun _ => .ite prompt_digits
      fun _ => (prompt_stopAt (by decide)).behind _
  exact (prompt_onFirst (.error use.endedNumeral) hwhole (by simp)).congr
    fun input => by cases input <;> rfl

theorem prompt_fractionPart (use : Use) : Prompt (fractionPart use) := by
  have hcause : Cause.invalidNumber.IsMetInPlace := by decide
  have hdigit (c : UInt8) := PromptBehind.ite
    (fun _ : isDigit c = true => prompt_digitsFront.again [c])
    (fun _ => (prompt_stopPast hcause).again [c])
  have hfraction (b : UInt8) := PromptBehind.ite
    (fun _ : b = ascii '.' =>
      (prompt_onFirst (.error use.endedNumeral) hdigit (by simp)).behind [b])
    (fun _ => (prompt_done []).again [b])
  refine (prompt_onFirst (.ok []) hfraction (by simp)).congr fun input => ?_
  cases input with
  | nil => rfl
  | cons b rest =>
    rw [fractionPart, onFirst_cons]
    split
    · cases rest with
      | nil => rfl
      | cons c more =>
        by_cases hc : isDigit c = true
        · rw [onFirst_cons, if_pos hc]
          split
          · rename_i hnone
            exact absurd hnone (digits_cons_ne_nil hc more)
          · rfl
        · have hnone : digits (c :: more) = [] := by
            unfold digits
            rw [List.takeWhile_cons_of_neg hc]
            rfl
          rw [onFirst_cons, if_neg hc, hnone]
          rfl
    · rfl

/-- The sign of an exponent. -/
def signFront : Reader Bool := fun input => .ok (exponentSign input)

theorem prompt_signFront : Prompt signFront := by
  have hsign (b : UInt8) : PromptBehind [b] fun rest =>
      if b = ascii '-' then done true rest
      else if b = ascii '+' then done false rest
      else done false ([b] ++ rest) :=
    .ite (fun _ => (prompt_done true).behind [b]) fun _ =>
      .ite (fun _ => (prompt_done false).behind [b]) fun _ => (prompt_done false).again [b]
  refine (prompt_onFirst (.ok false) hsign (by simp)).congr fun input => ?_
  cases input with
  | nil => rfl
  | cons b rest =>
    rw [onFirst_cons, signFront, exponentSign]
    split
    · rfl
    · split <;> rfl

/-- An exponent in parts: its mark, its sign, and a reader of its digits; or none. -/
def exponentWith {α : Type} (atEnd : Except Cause α) (absent : Reader α) (use : Use)
    (found : Bool → Reader α) : Reader α :=
  onFirst atEnd fun b rest =>
    if b = ascii 'e' ∨ b = ascii 'E' then
      signFront.andThen (fun negative => onFirst (.error use.endedNumeral) fun d more =>
        if isDigit d = true then found negative ([d] ++ more) else stopAt .invalidNumber more) rest
    else absent ([b] ++ rest)

theorem prompt_exponentWith {α : Type} (atEnd : Except Cause α) {absent : Reader α} (use : Use)
    {found : Bool → Reader α} (habsent : Prompt absent)
    (hfound : ∀ negative, Prompt (found negative)) (hend : atEnd ≠ .error .invalidText) :
    Prompt (exponentWith atEnd absent use found) := by
  refine prompt_onFirst _ (fun b => .ite (fun _ => ?_) fun _ => habsent.again [b]) hend
  have hcause : Cause.invalidNumber.IsMetInPlace := by decide
  have hdigit (negative : Bool) (d : UInt8) := PromptBehind.ite
    (fun _ => (hfound negative).again [d])
    (fun _ : ¬ isDigit d = true => (prompt_stopAt hcause).behind [d])
  have hdigits (negative : Bool) :=
    prompt_onFirst (.error use.endedNumeral) (hdigit negative) (by simp)
  exact (prompt_signFront.andThen hdigits).behind [b]

/-- **An exponent, and what is made of it**: the reader behind it may go by the digits. -/
theorem exponentPart_andThen {α : Type} (use : Use) {next : Option (Bool × List Nat) → Reader α}
    {atEnd : Except Cause α} (hend : next none [] = ending atEnd) :
    (exponentPart use).andThen next = exponentWith atEnd (next none) use fun negative =>
      digitsFront.andThen fun found => next (some (negative, found)) := by
  funext input
  cases input with
  | nil => exact hend
  | cons b rest =>
    rw [exponentWith, onFirst_cons]
    split
    · rename_i hmark
      have hsign : signFront rest = .ok ((exponentSign rest).1, (exponentSign rest).2) := rfl
      rw [andThen_of_ok hsign]
      unfold andThen
      rw [exponentPart, if_pos hmark]
      dsimp only
      cases (exponentSign rest).2 with
      | nil => rfl
      | cons d more =>
        rw [onFirst_cons]
        dsimp only
        by_cases hdigit : isDigit d = true
        · rw [if_pos hdigit, if_pos hdigit, ← afterDigits_cons hdigit]
          rfl
        · rw [if_neg hdigit, if_neg hdigit]
          rfl
    · rename_i hmark
      unfold andThen
      rw [exponentPart, if_neg hmark]
      rfl

/-- A numeral up to its exponent: the sign and the digits on both sides of the point. -/
def mantissa (use : Use) : Reader (Bool × List Nat × List Nat) :=
  minus.andThen fun negative => (wholePart use).andThen fun whole =>
    (fractionPart use).andThen fun fraction => done (negative, whole, fraction)

theorem prompt_mantissa (use : Use) : Prompt (mantissa use) :=
  prompt_minus.andThen fun _ => (prompt_wholePart use).andThen fun _ =>
    (prompt_fractionPart use).andThen fun _ => prompt_done _

/-- A numeral with an exponent. -/
def withExponent (found : Bool × List Nat × List Nat) (exponent : Option (Bool × List Nat)) :
    Numeral :=
  ⟨found.1, found.2.1, found.2.2, exponent⟩

theorem numeral_eq (use : Use) : numeral use = (mantissa use).andThen fun found =>
    (exponentPart use).andThen fun exponent => done (withExponent found exponent) := by
  funext input
  have hminus : minus input = .ok (decide (input.head? = some (ascii '-')),
      if input.head? = some (ascii '-') then input.tail else input) := by
    cases input with
    | nil => rfl
    | cons b rest =>
      rw [minus, onFirst_cons]
      by_cases hb : b = ascii '-'
      · subst hb
        rfl
      · have hhead : ¬ (b :: rest).head? = some (ascii '-') := fun h => hb (Option.some.inj h)
        rw [if_neg hb, if_neg hhead, decide_eq_false hhead]
  unfold numeral mantissa andThen
  rw [hminus]
  simp only [bind, Except.bind]
  cases wholePart use (if input.head? = some (ascii '-') then input.tail else input) with
  | error fault => rfl
  | ok whole =>
    obtain ⟨whole, afterWhole⟩ := whole
    dsimp only
    cases fractionPart use afterWhole with
    | error fault => rfl
    | ok fraction =>
      obtain ⟨fraction, afterFraction⟩ := fraction
      dsimp only [done]
      cases exponentPart use afterFraction with
      | error fault => rfl
      | ok exponent => rfl

theorem prompt_numeral (use : Use) : Prompt (numeral use) := by
  rw [numeral_eq]
  refine (prompt_mantissa use).andThen fun found => ?_
  rw [exponentPart_andThen use (show _ = ending (.ok (withExponent found none)) from rfl)]
  have hfound (negative : Bool) := prompt_digitsFront.andThen fun exponent =>
    prompt_done (withExponent found (some (negative, exponent)))
  exact prompt_exponentWith _ _ (prompt_done _) hfound (by simp)

/-! ## Numbers -/

theorem gatherExponent_error_lt {start behind : Nat} {found : List Nat}
    (h : gatherExponent start found = .error behind) : behind < found.length := by
  induction found generalizing start with
  | nil => cases h
  | cons digit found ih =>
    rw [gatherExponent] at h
    split at h
    · exact Nat.lt_succ_of_lt (ih h)
    · obtain rfl := Except.error.inj h
      exact Nat.lt_succ_self _

/-- **An exponent that leaves the range** does so whatever digits follow. -/
theorem gatherExponent_append {start : Nat} {front back : List Nat}
    (h : gatherExponent start (front ++ back) = .error back.length) (back' : List Nat) :
    gatherExponent start (front ++ back') = .error back'.length := by
  induction front generalizing start with
  | nil => exact absurd (gatherExponent_error_lt h) (Nat.lt_irrefl _)
  | cons digit front ih =>
    rw [List.cons_append, gatherExponent] at h ⊢
    split at h
    · rename_i hfits
      rw [if_pos hfits]
      exact ih h
    · rename_i hbeyond
      have hlength := Except.error.inj h
      rw [List.length_append] at hlength
      obtain rfl : front = [] := List.length_eq_zero_iff.1 (by omega)
      rw [if_neg hbeyond]
      rfl

/-- The value of a numeral, of which the digits of the exponent are still to come. -/
theorem exists_value (found : Bool × List Nat × List Nat) (negative : Bool) :
    ∃ (scaled : Nat → Option Value) (vanishing : Option Value), ∀ exponent,
      (∀ n, gatherExponent 0 exponent = .ok n →
        (withExponent found (some (negative, exponent))).value =
          (scaled n).elim (.error 0) .ok) ∧
      ∀ behind, gatherExponent 0 exponent = .error behind →
        (withExponent found (some (negative, exponent))).value =
          vanishing.elim (.error behind) .ok := by
  obtain ⟨sign, whole, fraction⟩ := found
  rcases hwhole : gather 0 whole with ⟨held, beyond⟩
  rcases hfraction : gather held fraction with ⟨significand, dropped⟩
  let point : Int := beyond - (fraction.length - dropped : Nat)
  let signed (value : Binary64) : Value := .number (if sign then -value else value)
  have hplain (exponent : List Nat) :
      ¬ (fraction = [] ∧ some (negative, exponent) = none ∧ beyond = 0) :=
    fun h => Option.some_ne_none _ h.2.1
  refine ⟨fun n => (scale? (Binary64.ofInt significand)
    (if negative then point - n else point + n)).map signed,
    if significand ≠ 0 ∧ !negative then none else some (signed (.zero false)),
    fun exponent => ⟨?_, ?_⟩⟩
  · intro n hn
    unfold withExponent Numeral.value
    simp only [hwhole, hplain, if_false, hfraction, hn]
    cases scale? (Binary64.ofInt significand) (if negative then point - n else point + n) <;> rfl
  · intro behind hbehind
    unfold withExponent Numeral.value
    simp only [hwhole, hplain, if_false, hfraction, hbehind]
    split <;> rfl

/-- The value of a numeral without exponent, behind its last byte. -/
def valued (numeral : Numeral) : Reader Value := fun input =>
  match numeral.value with
  | .ok value => .ok (value, input)
  | .error behind => .error ⟨.numberOutOfRange, input.length + behind, none⟩

/-- The value of a numeral with an exponent, from the digits of the exponent on. -/
def valuedDigits (found : Bool × List Nat × List Nat) (negative : Bool) : Reader Value :=
  digitsFront.andThen fun exponent => valued (withExponent found (some (negative, exponent)))

theorem value_none_error {found : Bool × List Nat × List Nat} {behind : Nat}
    (h : (withExponent found none).value = .error behind) : behind = 0 := by
  unfold withExponent Numeral.value at h
  dsimp only at h
  split at h
  · split at h
    · cases h
    · split at h <;> cases h
  · split at h <;> cases h
    rfl

/-- **A number that is out of range** is so because of its exponent, or else behind its end. -/
theorem value_error {found : Bool × List Nat × List Nat} {negative : Bool} {exponent : List Nat}
    {behind : Nat} (h : (withExponent found (some (negative, exponent))).value = .error behind) :
    behind = 0 ∨ gatherExponent 0 exponent = .error behind ∧ ∀ exponent behind,
      gatherExponent 0 exponent = .error behind →
        (withExponent found (some (negative, exponent))).value = .error behind := by
  obtain ⟨scaled, vanishing, hvalue⟩ := exists_value found negative
  cases hgather : gatherExponent 0 exponent with
  | ok n =>
    rw [(hvalue exponent).1 n hgather] at h
    cases hscaled : scaled n with
    | none =>
      rw [hscaled] at h
      exact .inl (Except.error.inj h).symm
    | some value =>
      rw [hscaled] at h
      cases h
  | error beyond =>
    rw [(hvalue exponent).2 beyond hgather] at h
    cases vanishing with
    | some value => cases h
    | none =>
      obtain rfl := Except.error.inj h
      exact .inr ⟨rfl, fun exponent behind => (hvalue exponent).2 behind⟩

theorem length_digits (input : List UInt8) :
    (afterDigits input).length + (digits input).length = input.length := by
  have hsplit := congrArg List.length
    (List.takeWhile_append_dropWhile (p := isDigit) (l := input))
  rw [List.length_append] at hsplit
  unfold afterDigits digits
  rw [List.length_map]
  omega

/-- Digits that go on with others. -/
theorem digits_append_of_all {front : List UInt8} (h : ∀ b ∈ front, isDigit b = true)
    (rest : List UInt8) :
    digits (front ++ rest) = digits front ++ digits rest ∧
      afterDigits (front ++ rest) = afterDigits rest := by
  unfold digits afterDigits
  rw [List.takeWhile_append_of_pos h, List.dropWhile_append_of_pos h, List.map_append,
    List.takeWhile_eq_self_iff.2 h]
  exact ⟨rfl, rfl⟩

/-- A front that is no longer than the digits is all digits. -/
theorem all_of_length_le {front rest : List UInt8}
    (h : front.length ≤ (digits (front ++ rest)).length) : ∀ b ∈ front, isDigit b = true := by
  unfold digits at h
  rw [List.length_map] at h
  have hdigits := List.prefix_of_prefix_length_le (List.prefix_append front rest)
    (List.takeWhile_prefix isDigit) h
  exact fun b hb => List.mem_takeWhile_imp (hdigits.subset hb)

variable {found : Bool × List Nat × List Nat} {negative : Bool}

theorem valuedDigits_eq_ok {value : Value} {rest : List UInt8} :
    valuedDigits found negative input = .ok (value, rest) ↔
      (withExponent found (some (negative, digits input))).value = .ok value ∧
        afterDigits input = rest := by
  show valued _ (afterDigits input) = _ ↔ _
  unfold valued
  cases (withExponent found (some (negative, digits input))).value with
  | ok value => simp
  | error behind => simp

theorem valuedDigits_eq_error {fault : Fault} :
    valuedDigits found negative input = .error fault ↔
      ∃ behind, (withExponent found (some (negative, digits input))).value = .error behind ∧
        ⟨.numberOutOfRange, (afterDigits input).length + behind, none⟩ = fault := by
  show valued _ (afterDigits input) = _ ↔ _
  unfold valued
  cases (withExponent found (some (negative, digits input))).value with
  | ok value => simp
  | error behind => simp

theorem prompt_valuedDigits (found : Bool × List Nat × List Nat) (negative : Bool) :
    Prompt (valuedDigits found negative) where
  leaves := by
    intro input value rest h
    obtain ⟨-, rfl⟩ := valuedDigits_eq_ok.1 h
    exact afterDigits_suffix input
  unread_le := by
    intro input fault h _
    obtain ⟨behind, hvalue, rfl⟩ := valuedDigits_eq_error.1 h
    have hbehind : behind ≤ (digits input).length := by
      obtain rfl | ⟨hgather, -⟩ := value_error hvalue
      · exact Nat.zero_le _
      · exact (gatherExponent_error_lt hgather).le
    have := length_digits input
    show (afterDigits input).length + behind ≤ input.length
    omega
  ended := by
    intro input fault h heof
    obtain ⟨behind, -, rfl⟩ := valuedDigits_eq_error.1 h
    cases heof
  ok_congr := by
    rintro front c back back' _ _ value rfl rfl h
    obtain ⟨hvalue, hafter⟩ := valuedDigits_eq_ok.1 h
    obtain ⟨hdigits, hafter'⟩ := digits_afterDigits_append hafter back'
    exact valuedDigits_eq_ok.2 ⟨hdigits ▸ hvalue, hafter'⟩
  error_congr := by
    rintro front c back back' _ _ _ rfl rfl h - hunread
    obtain ⟨behind, hvalue, rfl⟩ := valuedDigits_eq_error.1 h
    have hlength := length_digits (front ++ c :: back)
    rw [List.length_append, List.length_cons] at hlength
    dsimp only at hunread ⊢
    obtain rfl | ⟨hgather, hbeyond⟩ := value_error hvalue
    -- the number was complete, so the byte at which it stops is the one behind its digits
    · have hlengths : (afterDigits (front ++ c :: back)).length = (c :: back).length := hunread
      have hafter : afterDigits (front ++ c :: back) = c :: back :=
        (List.suffix_of_suffix_length_le (afterDigits_suffix _)
          (List.suffix_append front (c :: back)) hlengths.le).eq_of_length hlengths
      obtain ⟨hdigits, hafter'⟩ := digits_afterDigits_append hafter back'
      exact valuedDigits_eq_error.2 ⟨0, hdigits ▸ hvalue, by rw [hafter']; rfl⟩
    -- the digits so far are beyond the range, and any digits that follow are counted
    · have hle : front.length ≤ (digits (front ++ c :: back)).length := by omega
      have hfront := all_of_length_le hle
      obtain ⟨hdigits, hafter⟩ := digits_append_of_all hfront (c :: back)
      obtain ⟨hdigits', hafter'⟩ := digits_append_of_all hfront (c :: back')
      have hcount := length_digits (c :: back)
      rw [List.length_cons, ← hafter] at hcount
      obtain rfl : behind = (digits (c :: back)).length := by omega
      rw [hdigits] at hgather
      have hgather' := gatherExponent_append hgather (digits (c :: back'))
      rw [← hdigits'] at hgather'
      refine valuedDigits_eq_error.2 ⟨_, hbeyond _ _ hgather', ?_⟩
      rw [hafter', length_digits, List.length_cons]
  settled := by
    intro input fault h hcause
    obtain ⟨behind, -, rfl⟩ := valuedDigits_eq_error.1 h
    cases hcause

theorem prompt_valued {numeral : Numeral}
    (h : ∀ behind, numeral.value = .error behind → behind = 0) : Prompt (valued numeral) := by
  cases hvalue : numeral.value with
  | ok value =>
    refine (prompt_done value).congr fun input => ?_
    unfold valued
    rw [hvalue]
    rfl
  | error behind =>
    obtain rfl := h behind hvalue
    have hcause : Cause.numberOutOfRange.IsMetInPlace := by decide
    refine (prompt_stopAt hcause).congr fun input => ?_
    unfold valued
    rw [hvalue]
    rfl

theorem number_eq : number = (mantissa .kept).andThen fun found =>
    (exponentPart .kept).andThen fun exponent => valued (withExponent found exponent) := by
  funext input
  unfold number
  rw [numeral_eq]
  unfold andThen
  cases mantissa .kept input with
  | error fault => rfl
  | ok found =>
    obtain ⟨found, afterFraction⟩ := found
    dsimp only
    cases exponentPart .kept afterFraction with
    | error fault => rfl
    | ok exponent => rfl

theorem prompt_number : Prompt number := by
  rw [number_eq]
  refine (prompt_mantissa .kept).andThen fun found => ?_
  have hend : valued (withExponent found none) [] =
      ending ((withExponent found none).value.mapError fun _ => .numberOutOfRange) := by
    unfold valued
    cases hvalue : (withExponent found none).value with
    | ok value => rfl
    | error behind =>
      obtain rfl := value_none_error hvalue
      rfl
  rw [exponentPart_andThen .kept hend]
  refine prompt_exponentWith _ _ (prompt_valued fun _ => value_none_error)
    (prompt_valuedDigits found) ?_
  cases (withExponent found none).value <;> simp [Except.mapError]

end ChunkSizing.Json
