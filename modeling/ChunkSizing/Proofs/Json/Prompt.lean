import ChunkSizing.Proofs.Json.Grammar

/-!
# ChunkSizing.Proofs.Json.Prompt — readers that make up their minds in time.

A prompt reader looks no further than one byte beyond what it has passed. So the byte at which it
stops settles what it makes of its input, and all that stands behind that byte could be exchanged.
Prompt readers in sequence are prompt, and so is a loop of them. The one fault that is exempt is
that of bytes that are no text, which is found at the end of a string and reported earlier; it is
settled by the bytes up to the quote at which it is found (`SettledByQuote`).
-/

namespace ChunkSizing.Json

variable {α β σ : Type} {before : List UInt8}

/-! ## Readers in sequence -/

namespace Reader

/-- Nothing is read. -/
def done (value : α) : Reader α := fun input => .ok (value, input)

/-- A reader, and then another on what it left. -/
def andThen (read : Reader α) (next : α → Reader β) : Reader β := fun input =>
  match read input with
  | .error fault => .error fault
  | .ok (value, rest) => next value rest

/-- What is read from nothing. -/
def ending : Except Cause α → Except Fault (α × List UInt8)
  | .ok value => .ok (value, [])
  | .error cause => .error ⟨cause, 0, none⟩

/-- A reader for each first byte, and what becomes of an input without one. -/
def onFirst (atEnd : Except Cause α) (read : UInt8 → Reader α) : Reader α
  | [] => ending atEnd
  | b :: tail => read b tail

theorem onFirst_cons (atEnd : Except Cause α) (read : UInt8 → Reader α) (b : UInt8)
    (tail : List UInt8) : onFirst atEnd read (b :: tail) = read b tail :=
  rfl

/-- White space. -/
def blank : Reader Unit := fun input => .ok ((), skipBlank input)

/-! ## Prompt readers -/

/-- **A fault that is found at a quote** and reported some bytes to the left of it. The bytes up to
that quote tell everything; those behind it may be any others. -/
def SettledByQuote (before : List UInt8) (read : Reader α) (input : List UInt8) (fault : Fault) :
    Prop :=
  ∃ front back distance, before ++ input = front ++ ascii '"' :: back ∧
    (0 < distance ∧ distance ≤ front.length) ∧ fault.unread = back.length + distance ∧
    ∀ {input' back'}, before ++ input' = front ++ ascii '"' :: back' →
      read input' = .error { fault with unread := back'.length + distance }

theorem SettledByQuote.imp {read : Reader α} {read' : Reader β} {input : List UInt8}
    {fault : Fault} (h : SettledByQuote before read input fault)
    (himp : ∀ {input fault}, read input = .error fault → read' input = .error fault) :
    SettledByQuote before read' input fault := by
  obtain ⟨front, back, distance, hinput, hdistance, hunread, hall⟩ := h
  refine ⟨front, back, distance, hinput, hdistance, hunread, ?_⟩
  intro input' back' hinput'
  exact himp (hall hinput')

/-- **A prompt reader.** The bytes `before` its input have been seen already; it may give them back.
A byte at which it stops, having read a value or met with a fault, tells it everything: the bytes
behind that one may be any others. -/
structure PromptBehind (before : List UInt8) (read : Reader α) : Prop where
  leaves : ∀ {input value rest}, read input = .ok (value, rest) → rest <:+ before ++ input
  unread_le : ∀ {input fault}, read input = .error fault → fault.cause ≠ .invalidText →
    fault.unread ≤ (before ++ input).length
  ended : ∀ {input fault}, read input = .error fault → fault.cause.category = .eof →
    fault.unread = 0
  ok_congr : ∀ {front c back back' input input' value}, before ++ input = front ++ c :: back →
    before ++ input' = front ++ c :: back' → read input = .ok (value, c :: back) →
      read input' = .ok (value, c :: back')
  error_congr : ∀ {front c back back' input input' fault}, before ++ input = front ++ c :: back →
    before ++ input' = front ++ c :: back' → read input = .error fault →
      fault.cause ≠ .invalidText → fault.unread = back.length + 1 →
        read input' = .error { fault with unread := back'.length + 1 }
  settled : ∀ {input fault}, read input = .error fault → fault.cause = .invalidText →
    SettledByQuote before read input fault

/-- A prompt reader that has seen nothing yet. -/
abbrev Prompt (read : Reader α) : Prop := PromptBehind [] read

end Reader

open Reader

/-! ## Ends of an input -/

/-- An end of an input that reaches back to a byte at least. -/
theorem exists_middle {front back rest whole : List UInt8} {c : UInt8} (hrest : rest <:+ whole)
    (hwhole : whole = front ++ c :: back) (hle : back.length + 1 ≤ rest.length) :
    ∃ first middle, front = first ++ middle ∧ rest = middle ++ c :: back := by
  obtain ⟨first, rfl⟩ := hrest
  obtain ⟨middle, rfl, hmiddle⟩ | ⟨more, rfl, hmore⟩ := List.append_eq_append_iff.1 hwhole
  · exact ⟨first, middle, rfl, hmiddle⟩
  · have hlength := congrArg List.length hmore
    rw [List.length_append, List.length_cons] at hlength
    obtain rfl : more = [] := List.length_eq_zero_iff.1 (by omega)
    exact ⟨front, [], (List.append_nil _).symm, hmore.symm⟩

namespace Reader

variable {read : Reader α} {next : α → Reader β} {front middle back back' input input' : List UInt8}
  {c : UInt8}

/-- The bytes up to the one at which another reader will stop do not change what is left. -/
theorem PromptBehind.ok_shift (h : PromptBehind before read) {value : α}
    (hinput : before ++ input = front ++ c :: back)
    (hinput' : before ++ input' = front ++ c :: back')
    (hfront : ∃ first, front = first ++ middle)
    (hread : read input = .ok (value, middle ++ c :: back)) :
    read input' = .ok (value, middle ++ c :: back') := by
  obtain ⟨first, rfl⟩ := hfront
  cases middle with
  | nil => exact h.ok_congr hinput hinput' hread
  | cons d middle =>
    simp only [List.append_assoc, List.cons_append] at hinput hinput'
    exact h.ok_congr hinput hinput' hread

/-- What was read in front of a byte is read in front of it whatever follows. -/
theorem PromptBehind.ok_of (h : Prompt read) {value : α}
    (hread : read (front ++ c :: back) = .ok (value, c :: back)) (back' : List UInt8) :
    read (front ++ c :: back') = .ok (value, c :: back') :=
  have hinput (back : List UInt8) : [] ++ (front ++ c :: back) = front ++ c :: back := rfl
  h.ok_congr (hinput back) (hinput back') hread

/-- **A fault in front of a byte** is met with whatever follows. -/
theorem PromptBehind.error_of (h : Prompt read) {fault : Fault}
    (hread : read (front ++ c :: back) = .error fault) (hcause : fault.cause ≠ .invalidText)
    (hunread : fault.unread = back.length + 1) (back' : List UInt8) :
    read (front ++ c :: back') = .error { fault with unread := back'.length + 1 } :=
  have hinput (back : List UInt8) : [] ++ (front ++ c :: back) = front ++ c :: back := rfl
  h.error_congr (hinput back) (hinput back') hread hcause hunread

/-! ## Sequences -/

theorem andThen_of_ok {input rest : List UInt8} {value : α} (h : read input = .ok (value, rest)) :
    read.andThen next input = next value rest := by
  unfold andThen
  rw [h]

theorem andThen_of_error {input : List UInt8} {fault : Fault} (h : read input = .error fault) :
    read.andThen next input = .error fault := by
  unfold andThen
  rw [h]

theorem prompt_done (value : α) : Prompt (done value) where
  leaves := by
    rintro input _ _ ⟨⟩
    exact List.suffix_refl _
  unread_le := nofun
  ended := nofun
  ok_congr := by
    rintro front c back back' _ _ _ rfl rfl hread
    obtain ⟨rfl, hrest⟩ := Prod.mk.inj (Except.ok.inj hread)
    obtain rfl : front = [] := List.append_left_eq_self.1 hrest
    rfl
  error_congr := nofun
  settled := nofun

/-- A fault of the second reader in a sequence that a quote settles there. -/
theorem PromptBehind.settled_andThen (hread : PromptBehind before read) {value : α}
    {rest : List UInt8} {fault : Fault} (hfirst : read input = .ok (value, rest))
    (hsettled : SettledByQuote [] (next value) rest fault) :
    SettledByQuote before (read.andThen next) input fault := by
  obtain ⟨middle, back, distance, hrest, ⟨hpos, hle⟩, hunread, hnext⟩ := hsettled
  obtain rfl : rest = middle ++ ascii '"' :: back := hrest
  obtain ⟨first, hinput⟩ := hread.leaves hfirst
  have hwhole : before ++ input = (first ++ middle) ++ ascii '"' :: back := by
    rw [← hinput, List.append_assoc]
  refine ⟨first ++ middle, back, distance, hwhole, ⟨hpos, ?_⟩, hunread, ?_⟩
  · rw [List.length_append]
    omega
  · intro input' back' hinput'
    rw [andThen_of_ok (hread.ok_shift hwhole hinput' ⟨first, rfl⟩ hfirst)]
    exact hnext rfl

/-- **Prompt readers in sequence** are prompt. -/
theorem PromptBehind.andThen (hread : PromptBehind before read)
    (hnext : ∀ value, Prompt (next value)) : PromptBehind before (read.andThen next) where
  leaves := by
    intro input value rest h
    cases hfirst : read input with
    | error fault => simp [andThen_of_error hfirst] at h
    | ok found =>
      rw [andThen_of_ok hfirst] at h
      exact ((hnext _).leaves h).trans (hread.leaves hfirst)
  unread_le := by
    intro input fault h hcause
    cases hfirst : read input with
    | error found =>
      rw [andThen_of_error hfirst] at h
      obtain rfl := Except.error.inj h
      exact hread.unread_le hfirst hcause
    | ok found =>
      rw [andThen_of_ok hfirst] at h
      exact Nat.le_trans ((hnext _).unread_le h hcause) (hread.leaves hfirst).length_le
  ended := by
    intro input fault h heof
    cases hfirst : read input with
    | error found =>
      rw [andThen_of_error hfirst] at h
      obtain rfl := Except.error.inj h
      exact hread.ended hfirst heof
    | ok found =>
      rw [andThen_of_ok hfirst] at h
      exact (hnext _).ended h heof
  ok_congr := by
    intro front c back back' input input' value hinput hinput' h
    cases hfirst : read input with
    | error fault => simp [andThen_of_error hfirst] at h
    | ok found =>
      obtain ⟨found, rest⟩ := found
      rw [andThen_of_ok hfirst] at h
      obtain ⟨first, middle, hfront, rfl⟩ :=
        exists_middle (hread.leaves hfirst) hinput ((hnext found).leaves h).length_le
      rw [andThen_of_ok (hread.ok_shift hinput hinput' ⟨first, hfront⟩ hfirst)]
      exact (hnext found).ok_of h back'
  error_congr := by
    intro front c back back' input input' fault hinput hinput' h hcause hunread
    cases hfirst : read input with
    | error found =>
      rw [andThen_of_error hfirst] at h
      obtain rfl := Except.error.inj h
      exact andThen_of_error (hread.error_congr hinput hinput' hfirst hcause hunread)
    | ok found =>
      obtain ⟨found, rest⟩ := found
      rw [andThen_of_ok hfirst] at h
      obtain ⟨first, middle, hfront, rfl⟩ := exists_middle (hread.leaves hfirst) hinput
        (hunread ▸ (hnext found).unread_le h hcause)
      rw [andThen_of_ok (hread.ok_shift hinput hinput' ⟨first, hfront⟩ hfirst)]
      exact (hnext found).error_of h hcause hunread back'
  settled := by
    intro input fault h hcause
    cases hfirst : read input with
    | error found =>
      rw [andThen_of_error hfirst] at h
      obtain rfl := Except.error.inj h
      exact (hread.settled hfirst hcause).imp andThen_of_error
    | ok found =>
      rw [andThen_of_ok hfirst] at h
      exact hread.settled_andThen hfirst ((hnext _).settled h hcause)

/-- A step of a sequence, in the notation of results. -/
theorem bind_eq_andThen {found : α × List UInt8 → Except Fault (β × List UInt8)}
    (h : ∀ value rest, found (value, rest) = next value rest) (input : List UInt8) :
    (read input >>= found) = read.andThen next input := by
  unfold andThen
  cases read input with
  | error fault => rfl
  | ok outcome => exact h outcome.1 outcome.2

theorem PromptBehind.congr {read' : Reader α} (h : PromptBehind before read')
    (hsame : ∀ input, read input = read' input) : PromptBehind before read := by
  rw [funext hsame]
  exact h

/-! ## The first byte -/

/-- Bytes in front that are not given back. -/
theorem exists_behind (hinput : before ++ input = front ++ c :: back)
    (hinput' : before ++ input' = front ++ c :: back') (hle : back.length + 1 ≤ input.length) :
    ∃ middle, input = middle ++ c :: back ∧ input' = middle ++ c :: back' := by
  obtain ⟨first, middle, rfl, rfl⟩ := exists_middle (List.suffix_append before input) hinput hle
  rw [List.append_assoc] at hinput hinput'
  obtain rfl := List.append_cancel_right hinput
  exact ⟨middle, rfl, List.append_cancel_left hinput'⟩

theorem PromptBehind.behind (h : Prompt read) (before : List UInt8) : PromptBehind before read where
  leaves hread := (h.leaves hread).trans (List.suffix_append before _)
  unread_le hread hcause :=
    Nat.le_trans (h.unread_le hread hcause) (List.suffix_append before _).length_le
  ended := h.ended
  ok_congr := by
    intro front c back back' input input' value hinput hinput' hread
    obtain ⟨middle, rfl, rfl⟩ := exists_behind hinput hinput' (h.leaves hread).length_le
    exact h.ok_of hread back'
  error_congr := by
    intro front c back back' input input' fault hinput hinput' hread hcause hunread
    obtain ⟨middle, rfl, rfl⟩ :=
      exists_behind hinput hinput' (hunread ▸ h.unread_le hread hcause)
    exact h.error_of hread hcause hunread back'
  settled := by
    intro input fault hread hcause
    obtain ⟨front, back, distance, hinput, ⟨hpos, hle⟩, hunread, hall⟩ := h.settled hread hcause
    obtain rfl : input = front ++ ascii '"' :: back := hinput
    refine ⟨before ++ front, back, distance, (List.append_assoc ..).symm, ⟨hpos, ?_⟩, hunread, ?_⟩
    · rw [List.length_append]
      omega
    · intro input' back' hinput'
      rw [List.append_assoc] at hinput'
      exact hall (List.append_cancel_left hinput')

/-- Bytes in front that are read again. -/
theorem PromptBehind.again (h : Prompt read) (before : List UInt8) :
    PromptBehind before fun input => read (before ++ input) where
  leaves := h.leaves
  unread_le := h.unread_le
  ended := h.ended
  ok_congr := h.ok_congr
  error_congr := h.error_congr
  settled := by
    intro input fault hread hcause
    obtain ⟨front, back, distance, hinput, hdistance, hunread, hall⟩ := h.settled hread hcause
    refine ⟨front, back, distance, hinput, hdistance, hunread, ?_⟩
    intro input' back' hinput'
    exact hall hinput'

theorem exists_first (front : List UInt8) (c : UInt8) (back back' : List UInt8) :
    ∃ b tail tail', front ++ c :: back = b :: tail ∧ front ++ c :: back' = b :: tail' := by
  cases front with
  | nil => exact ⟨c, back, back', rfl, rfl⟩
  | cons b front => exact ⟨b, front ++ c :: back, front ++ c :: back', rfl, rfl⟩

/-- **A reader for each first byte** is prompt if each of them is, having seen that byte. -/
theorem prompt_onFirst (atEnd : Except Cause α) {read : UInt8 → Reader α}
    (h : ∀ b, PromptBehind [b] (read b)) (hend : atEnd ≠ .error .invalidText) :
    Prompt (onFirst atEnd read) where
  leaves := by
    intro input value rest hread
    cases input with
    | nil =>
      cases atEnd with
      | ok _ =>
        cases hread
        exact List.suffix_refl _
      | error _ => cases hread
    | cons b tail => exact (h b).leaves hread
  unread_le := by
    intro input fault hread hcause
    cases input with
    | nil =>
      cases atEnd with
      | ok _ => cases hread
      | error _ =>
        cases hread
        exact Nat.zero_le _
    | cons b tail => exact (h b).unread_le hread hcause
  ended := by
    intro input fault hread heof
    cases input with
    | nil =>
      cases atEnd with
      | ok _ => cases hread
      | error _ =>
        cases hread
        rfl
    | cons b tail => exact (h b).ended hread heof
  ok_congr := by
    rintro front c back back' _ _ value rfl rfl hread
    obtain ⟨b, tail, tail', hinput, hinput'⟩ := exists_first front c back back'
    rw [hinput, onFirst_cons] at hread
    rw [hinput', onFirst_cons]
    exact (h b).ok_congr hinput.symm hinput'.symm hread
  error_congr := by
    rintro front c back back' _ _ fault rfl rfl hread hcause hunread
    obtain ⟨b, tail, tail', hinput, hinput'⟩ := exists_first front c back back'
    rw [hinput, onFirst_cons] at hread
    rw [hinput', onFirst_cons]
    exact (h b).error_congr hinput.symm hinput'.symm hread hcause hunread
  settled := by
    intro input fault hread hcause
    cases input with
    | nil =>
      cases atEnd with
      | ok _ => cases hread
      | error cause =>
        cases hread
        obtain rfl : cause = .invalidText := hcause
        exact absurd rfl hend
    | cons b tail =>
      obtain ⟨front, back, distance, hinput, hdistance, hunread, hall⟩ :=
        (h b).settled hread hcause
      refine ⟨front, back, distance, hinput, hdistance, hunread, ?_⟩
      intro input' back' hinput'
      obtain ⟨b', tail, tail', hfirst, hfirst'⟩ := exists_first front (ascii '"') back back'
      obtain ⟨rfl, -⟩ := List.cons.inj (hinput.trans hfirst)
      obtain rfl : input' = b :: tail' := hinput'.trans hfirst'
      exact hall hinput'

/-- A choice that does not depend on the input. -/
theorem PromptBehind.ite {p : Prop} [Decidable p] {read' : Reader α}
    (h : p → PromptBehind before read) (h' : ¬ p → PromptBehind before read') :
    PromptBehind before fun input => if p then read input else read' input := by
  split
  · rename_i hp
    exact h hp
  · rename_i hp
    exact h' hp

end Reader

/-! ## Faults and white space -/

/-- The cause of a fault that is reported where it is met, in front of a byte: neither that of an
input that ended nor that of bytes that are no text. -/
abbrev Cause.IsMetInPlace (cause : Cause) : Prop := cause.category ≠ .eof ∧ cause ≠ .invalidText

theorem Cause.isMetInPlace_of_data {cause : Cause} (h : cause.category = .data) :
    cause.IsMetInPlace := by
  constructor
  · simp [h]
  · rintro rfl
    cases h

namespace Reader

variable {read : Reader α}

theorem prompt_stopAt {cause : Cause} (h : cause.IsMetInPlace) :
    Prompt (stopAt cause : Reader α) where
  leaves := nofun
  unread_le := by
    rintro input _ ⟨⟩ -
    exact Nat.le_refl _
  ended := by
    rintro input _ ⟨⟩ heof
    exact absurd heof h.1
  ok_congr := nofun
  error_congr := by
    rintro front c back back' _ _ _ rfl rfl ⟨⟩ - hunread
    simp only [List.length_append, List.length_cons] at hunread
    obtain rfl : front = [] := List.length_eq_zero_iff.1 (by omega)
    rfl
  settled := by
    rintro input _ ⟨⟩ hcause
    exact absurd hcause h.2

theorem prompt_stopPast {cause : Cause} (h : cause.IsMetInPlace) :
    Prompt (stopPast cause : Reader α) where
  leaves := nofun
  unread_le := by
    rintro input _ ⟨⟩ -
    exact Nat.sub_le _ _
  ended := by
    rintro input _ ⟨⟩ heof
    exact absurd heof h.1
  ok_congr := nofun
  error_congr := by
    rintro front c back back' _ _ _ rfl rfl ⟨⟩ - hunread
    simp only [List.length_append, List.length_cons] at hunread
    obtain ⟨b, rfl⟩ : ∃ b, front = [b] := List.length_eq_one_iff.1 (by omega)
    rfl
  settled := by
    rintro input _ ⟨⟩ hcause
    exact absurd hcause h.2

/-- A byte that must be there. -/
theorem prompt_expected (expected : UInt8) (value : α) {cause : Cause}
    (h : cause.IsMetInPlace) (b : UInt8) : PromptBehind [b] fun tail =>
      if b = expected then done value tail else stopPast cause ([b] ++ tail) :=
  .ite (fun _ => (prompt_done value).behind [b]) fun _ => (prompt_stopPast h).again [b]

theorem prompt_blank : Prompt blank where
  leaves := by
    rintro input _ _ ⟨⟩
    exact skipBlank_suffix input
  unread_le := nofun
  ended := nofun
  ok_congr := by
    rintro front c back back' _ _ _ rfl rfl hread
    obtain ⟨-, hskip⟩ := Prod.mk.inj (Except.ok.inj hread)
    obtain ⟨passed, hinput, hpassed, hc⟩ := exists_blank hskip
    obtain rfl := List.append_cancel_right hinput
    show Except.ok ((), skipBlank (front ++ c :: back')) = .ok ((), c :: back')
    rw [skipBlank_append hpassed, skipBlank_cons _ hc]
  error_congr := nofun
  settled := nofun

/-- A reader behind white space. -/
theorem prompt_behindBlank (atEnd : Except Cause α) {read : UInt8 → Reader α}
    (h : ∀ b, PromptBehind [b] (read b)) (hend : atEnd ≠ .error .invalidText) :
    Prompt (blank.andThen fun _ => onFirst atEnd read) :=
  prompt_blank.andThen fun _ => prompt_onFirst atEnd h hend

/-- A reader that passes white space and goes on by the first byte behind it. -/
theorem prompt_of_behindBlank {read : Reader α} {next : UInt8 → Reader α} (atEnd : Except Cause α)
    (h : ∀ b, PromptBehind [b] (next b)) (hend : atEnd ≠ .error .invalidText)
    (hread : ∀ input, read input = onFirst atEnd next (skipBlank input)) : Prompt read :=
  (prompt_behindBlank atEnd h hend).congr hread

/-! ## Loops -/

/-- A reader that is prompt on short inputs, however long they may be. -/
theorem prompt_of_short {read : Reader α}
    (h : ∀ n, ∃ short, Prompt short ∧ ∀ input, input.length < n → read input = short input)
    (hsettled : ∀ {input fault}, read input = .error fault → fault.cause = .invalidText →
      SettledByQuote [] read input fault) :
    Prompt read where
  leaves := by
    intro input value rest hread
    obtain ⟨short, hshort, hsame⟩ := h (input.length + 1)
    exact hshort.leaves ((hsame input (Nat.lt_succ_self _)).symm.trans hread)
  unread_le := by
    intro input fault hread
    obtain ⟨short, hshort, hsame⟩ := h (input.length + 1)
    exact hshort.unread_le ((hsame input (Nat.lt_succ_self _)).symm.trans hread)
  ended := by
    intro input fault hread
    obtain ⟨short, hshort, hsame⟩ := h (input.length + 1)
    exact hshort.ended ((hsame input (Nat.lt_succ_self _)).symm.trans hread)
  ok_congr := by
    intro front c back back' input input' value hinput hinput' hread
    obtain ⟨short, hshort, hsame⟩ := h (input.length + input'.length + 1)
    rw [hsame input (by omega)] at hread
    rw [hsame input' (by omega)]
    exact hshort.ok_congr hinput hinput' hread
  error_congr := by
    intro front c back back' input input' fault hinput hinput' hread
    obtain ⟨short, hshort, hsame⟩ := h (input.length + input'.length + 1)
    rw [hsame input (by omega)] at hread
    rw [hsame input' (by omega)]
    exact hshort.error_congr hinput hinput' hread
  settled := hsettled

/-- The first rounds of a loop. A round ends with a value or with the state of the next. -/
def rounds (step : σ → Reader (β ⊕ σ)) : Nat → σ → Reader β
  | 0, _ => stopAt .expectedValue
  | n + 1, state => (step state).andThen (Sum.elim done (rounds step n))

theorem prompt_rounds {step : σ → Reader (β ⊕ σ)} (hstep : ∀ state, Prompt (step state)) (n : Nat)
    (state : σ) : Prompt (rounds step n state) := by
  induction n generalizing state with
  | zero => exact prompt_stopAt (by decide)
  | succ n ih =>
    refine (hstep state).andThen fun outcome => ?_
    cases outcome with
    | inl value => exact prompt_done value
    | inr next => exact ih next

/-- **A loop of prompt rounds** is prompt, if every round takes a byte at least. -/
theorem prompt_loop {step : σ → Reader (β ⊕ σ)} (run : σ → Reader β)
    (hstep : ∀ state, Prompt (step state))
    (hshorter : ∀ {state input next rest}, step state input = .ok (.inr next, rest) →
      rest.length < input.length)
    (hrun : ∀ state, run state = (step state).andThen (Sum.elim done run)) (state : σ) :
    Prompt (run state) := by
  have hrounds (n : Nat) : ∀ state input, input.length < n →
      run state input = rounds step n state input := by
    induction n with
    | zero => exact fun _ _ h => absurd h (Nat.not_lt_zero _)
    | succ n ih =>
      intro state input hlength
      rw [hrun]
      cases hread : step state input with
      | error fault => rw [andThen_of_error hread, rounds, andThen_of_error hread]
      | ok found =>
        obtain ⟨outcome, rest⟩ := found
        rw [andThen_of_ok hread, rounds, andThen_of_ok hread]
        cases outcome with
        | inl value => rfl
        | inr next => exact ih next rest (by have := hshorter hread; omega)
  -- the quote is met in some round, and the rounds before it are read alike
  have hsettled (n : Nat) : ∀ {state input fault}, input.length < n →
      run state input = .error fault → fault.cause = .invalidText →
        SettledByQuote [] (run state) input fault := by
    induction n with
    | zero => exact fun h => absurd h (Nat.not_lt_zero _)
    | succ n ih =>
      intro state input fault hlength h hcause
      rw [hrun state] at h ⊢
      cases hread : step state input with
      | error found =>
        have hfault := h.symm.trans (andThen_of_error hread)
        obtain rfl := Except.error.inj hfault
        exact ((hstep state).settled hread hcause).imp andThen_of_error
      | ok found =>
        obtain ⟨outcome, rest⟩ := found
        rw [andThen_of_ok hread] at h
        refine (hstep state).settled_andThen hread ?_
        cases outcome with
        | inl value => cases h
        | inr next => exact ih (by have := hshorter hread; omega) h hcause
  exact prompt_of_short (fun n => ⟨_, prompt_rounds hstep n state, hrounds n state⟩)
    (hsettled _ (Nat.lt_succ_self _))

/-! ## Readers of nothing but bytes -/

/-- What leaves some bytes behind, as a reader. -/
def silent (read : List UInt8 → Except Fault (List UInt8)) : Reader Unit := fun input =>
  (read input).map fun rest => ((), rest)

end Reader

end ChunkSizing.Json
