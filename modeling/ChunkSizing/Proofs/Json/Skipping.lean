import ChunkSizing.Json.Skip
import ChunkSizing.Proofs.Json.Grammar

/-!
# ChunkSizing.Proofs.Json.Skipping — what is skipped is a value.

The machine that skips a value keeps a list of open brackets. `Closes` says which texts end the
values around, innermost first, and `Demands` what each state still asks of the input. Every token
is one step of a derivation: if the rest of the input meets the next state's demand, the whole of it
meets the present one's (`step_sound`). In the other direction a value, standing anywhere, takes the
machine past itself (`run_value`), by induction on the value.
-/

namespace ChunkSizing.Json

namespace Skip

variable {b : UInt8} {before input left rest tail text : List UInt8}
variable {around outer : List Bracket} {inner : Bracket} {state : State} {p : Progress}

/-! ## Demands -/

/-- Text that ends the values around a value that has ended. -/
inductive Closes : List Bracket → List UInt8 → Prop where
  | nil : Closes [] []
  | list {items : List (List UInt8)} {text more : List UInt8} {outer : List Bracket}
      (hitems : ∀ item ∈ items, IsValue item) (htext : Items (ascii ']') false items text)
      (hmore : Closes outer more) : Closes (.list :: outer) (text ++ more)
  | object {members : List Member} {text more : List UInt8} {outer : List Bracket}
      (hmembers : ∀ member ∈ members, member.IsLoose)
      (hvalues : ∀ member ∈ members, IsValue member.value)
      (htext : Items (ascii '\x7d') false (members.map Member.bytes) text)
      (hmore : Closes outer more) : Closes (.object :: outer) (text ++ more)

/-- What a state asks of the input. -/
inductive Demands : State → List UInt8 → Prop where
  | value {around : List Bracket} {before value more : List UInt8} (hbefore : Blank before)
      (hvalue : IsValue value) (hmore : Closes around more) :
      Demands (.value around) (before ++ (value ++ more))
  | firstElement {outer : List Bracket} {items : List (List UInt8)} {text more : List UInt8}
      (hitems : ∀ item ∈ items, IsValue item) (htext : Items (ascii ']') true items text)
      (hmore : Closes outer more) : Demands (.firstElement outer) (text ++ more)
  | firstKey {outer : List Bracket} {members : List Member} {text more : List UInt8}
      (hmembers : ∀ member ∈ members, member.IsLoose)
      (hvalues : ∀ member ∈ members, IsValue member.value)
      (htext : Items (ascii '\x7d') true (members.map Member.bytes) text)
      (hmore : Closes outer more) : Demands (.firstKey outer) (text ++ more)
  | nextKey {outer : List Bracket} {before : List UInt8} {member : Member} {more : List UInt8}
      (hbefore : Blank before) (hmember : member.IsLoose) (hvalue : IsValue member.value)
      (hmore : Closes (.object :: outer) more) :
      Demands (.nextKey outer) (before ++ (member.bytes ++ more))
  | afterItem {inner : Bracket} {outer : List Bracket} {text : List UInt8}
      (h : Closes (inner :: outer) text) : Demands (.afterItem inner outer) text

/-- What a token leaves is accounted for, up to the bytes behind the whole value. -/
def Accounts (left : List UInt8) : Progress → Prop
  | .finished rest => rest = left
  | .more state rest => ∃ text, rest = text ++ left ∧ Demands state text

theorem closes_of_accounts (h : Accounts left (ended around rest)) :
    ∃ text, rest = text ++ left ∧ Closes around text := by
  cases around with
  | nil => exact ⟨[], h, .nil⟩
  | cons inner outer =>
    obtain ⟨text, hrest, hdemands⟩ := h
    cases hdemands with
    | afterItem hcloses => exact ⟨text, hrest, hcloses⟩

/-! ## Every token is a step of a derivation -/

theorem scalar_sound (h : scalar b tail = .ok rest) :
    ∃ value, b :: tail = value ++ rest ∧ IsValue value := by
  have hword {letters : List UInt8} (hw : (word letters tail).map Prod.snd = .ok rest) :
      b :: tail = (b :: letters) ++ rest := by
    obtain ⟨⟨⟨⟩, left⟩, hread, rfl⟩ := map_eq_ok_iff.1 hw
    rw [List.cons_append, ← word_eq_ok_iff.1 hread]
  unfold scalar at h
  split_ifs at h with hnull htrue hfalse hquote hdigit
  · exact ⟨_, hword h, .word (by subst hnull; decide)⟩
  · exact ⟨_, hword h, .word (by subst htrue; decide)⟩
  · exact ⟨_, hword h, .word (by subst hfalse; decide)⟩
  · obtain ⟨raw, bytes, rfl, hraw⟩ := skipText_eq_ok_iff.1 h
    refine ⟨ascii '"' :: (raw ++ [ascii '"']), ?_, .text hraw⟩
    rw [hquote, List.cons_append, List.append_assoc]
    rfl
  · obtain ⟨⟨numeral, left⟩, hread, rfl⟩ := map_eq_ok_iff.1 h
    obtain ⟨text, hinput, htext⟩ := numeral_sound hread
    exact ⟨text, hinput, .numeral htext⟩
  · cases h

theorem valueToken_sound (h : valueToken around b tail = .ok p) (hp : Accounts left p) :
    ∃ value more, b :: tail = value ++ (more ++ left) ∧ IsValue value ∧ Closes around more := by
  unfold valueToken at h
  split_ifs at h with hlist hobject
  · cases h
    obtain ⟨_, rfl, hdemands⟩ := hp
    cases hdemands with
    | @firstElement _ items text more hitems htext hmore =>
      refine ⟨ascii '[' :: text, more, ?_, .list hitems htext, hmore⟩
      rw [hlist, List.cons_append, List.append_assoc]
  · cases h
    obtain ⟨_, rfl, hdemands⟩ := hp
    cases hdemands with
    | @firstKey _ members text more hmembers hvalues htext hmore =>
      refine ⟨ascii '\x7b' :: text, more, ?_, .object hmembers hvalues htext, hmore⟩
      rw [hobject, List.cons_append, List.append_assoc]
  · obtain ⟨rest, hread, rfl⟩ := map_eq_ok_iff.1 h
    obtain ⟨more, rfl, hmore⟩ := closes_of_accounts hp
    obtain ⟨value, hinput, hvalue⟩ := scalar_sound hread
    exact ⟨value, more, hinput, hvalue, hmore⟩

theorem keyToken_sound (h : keyToken outer b tail = .ok p) (hp : Accounts left p) :
    ∃ (member : Member) (more : List UInt8), b :: tail = member.bytes ++ (more ++ left) ∧
      member.IsLoose ∧
      IsValue member.value ∧ Closes (.object :: outer) more := by
  unfold keyToken at h
  split at h
  · rename_i hquote
    split at h
    · cases h
    rename_i afterKey hkey
    split at h
    · cases h
    rename_i c afterColon hblank
    split at h
    · rename_i hcolon
      cases h
      obtain ⟨_, rfl, hdemands⟩ := hp
      obtain ⟨raw, bytes, rfl, hraw⟩ := skipText_eq_ok_iff.1 hkey
      obtain ⟨before, rfl, hbefore, -⟩ := exists_blank hblank
      cases hdemands with
      | @value _ after value more hafter hvalue hmore =>
        refine ⟨⟨raw, before, after, value⟩, more, ?_, ⟨⟨hbefore, hafter⟩, bytes, hraw⟩, hvalue,
          hmore⟩
        rw [hquote, hcolon]
        simp only [Member.bytes, List.cons_append, List.append_assoc]
    · cases h
  · cases h

theorem separator_sound (h : separator inner outer b tail = .ok p) (hp : Accounts left p)
    (hbefore : Blank before) :
    ∃ text, before ++ b :: tail = text ++ left ∧ Closes (inner :: outer) text := by
  unfold separator at h
  cases inner with
  | list =>
    dsimp only at h
    split_ifs at h with hcomma hclose
    · cases h
      obtain ⟨_, rfl, hdemands⟩ := hp
      cases hdemands with
      | @value _ after value _ hafter hvalue hmore =>
        cases hmore with
        | @list items text more _ hitems htext hmore =>
          refine ⟨before ++ ascii ',' :: (after ++ (value ++ text)) ++ more, ?_,
            .list (List.forall_mem_cons.2 ⟨hvalue, hitems⟩) (.next hbefore hafter htext) hmore⟩
          rw [hcomma]
          simp only [List.cons_append, List.append_assoc]
    · obtain rfl := Except.ok.inj h
      obtain ⟨more, rfl, hmore⟩ := closes_of_accounts hp
      refine ⟨before ++ [ascii ']'] ++ more, ?_,
        .list (List.forall_mem_nil _) (.close hbefore) hmore⟩
      rw [hclose]
      simp only [List.append_assoc, List.cons_append, List.nil_append]
    · cases h
  | object =>
    dsimp only at h
    split_ifs at h with hcomma hclose
    · cases h
      obtain ⟨_, rfl, hdemands⟩ := hp
      cases hdemands with
      | @nextKey _ after member _ hafter hmember hvalue hmore =>
        cases hmore with
        | @object members text more _ hmembers hvalues htext hmore =>
          refine ⟨before ++ ascii ',' :: (after ++ (member.bytes ++ text)) ++ more, ?_,
            .object (List.forall_mem_cons.2 ⟨hmember, hmembers⟩)
              (List.forall_mem_cons.2 ⟨hvalue, hvalues⟩) (.next hbefore hafter htext) hmore⟩
          rw [hcomma]
          simp only [List.cons_append, List.append_assoc]
    · obtain rfl := Except.ok.inj h
      obtain ⟨more, rfl, hmore⟩ := closes_of_accounts hp
      refine ⟨before ++ [ascii '\x7d'] ++ more, ?_,
        .object (List.forall_mem_nil _) (List.forall_mem_nil _) (.close hbefore) hmore⟩
      rw [hclose]
      simp only [List.append_assoc, List.cons_append, List.nil_append]
    · cases h

/-- **One token** meets the demand of its state, if what follows meets the next state's. -/
theorem step_sound (h : state.step input = .ok p) (hp : Accounts left p) :
    ∃ text, input = text ++ left ∧ Demands state text := by
  unfold State.step at h
  split at h
  · cases h
  rename_i b tail hblank
  obtain ⟨before, rfl, hbefore, -⟩ := exists_blank hblank
  cases state with
  | value around =>
    obtain ⟨value, more, hinput, hvalue, hmore⟩ := valueToken_sound h hp
    refine ⟨_, ?_, .value hbefore hvalue hmore⟩
    rw [hinput]
    simp only [List.append_assoc]
  | firstElement outer =>
    dsimp only at h
    split at h
    · rename_i hclose
      obtain rfl := Except.ok.inj h
      obtain ⟨more, rfl, hmore⟩ := closes_of_accounts hp
      refine ⟨_, ?_, .firstElement (List.forall_mem_nil _) (.close hbefore) hmore⟩
      rw [hclose]
      simp only [List.append_assoc, List.cons_append, List.nil_append]
    · obtain ⟨value, more, hinput, hvalue, hmore⟩ := valueToken_sound h hp
      cases hmore with
      | list hitems htext hmore =>
        refine ⟨_, ?_, .firstElement (List.forall_mem_cons.2 ⟨hvalue, hitems⟩)
          (.first hbefore htext) hmore⟩
        rw [hinput]
        simp only [List.append_assoc]
  | firstKey outer =>
    dsimp only at h
    split at h
    · rename_i hclose
      obtain rfl := Except.ok.inj h
      obtain ⟨more, rfl, hmore⟩ := closes_of_accounts hp
      refine ⟨_, ?_, .firstKey (List.forall_mem_nil _) (List.forall_mem_nil _) (.close hbefore)
        hmore⟩
      rw [hclose]
      simp only [List.append_assoc, List.cons_append, List.nil_append]
    · obtain ⟨member, more, hinput, hmember, hvalue, hmore⟩ := keyToken_sound h hp
      cases hmore with
      | object hmembers hvalues htext hmore =>
        refine ⟨_, ?_, .firstKey (List.forall_mem_cons.2 ⟨hmember, hmembers⟩)
          (List.forall_mem_cons.2 ⟨hvalue, hvalues⟩) (.first hbefore htext) hmore⟩
        rw [hinput]
        simp only [List.append_assoc]
  | nextKey outer =>
    obtain ⟨member, more, hinput, hmember, hvalue, hmore⟩ := keyToken_sound h hp
    refine ⟨_, ?_, .nextKey hbefore hmember hvalue hmore⟩
    rw [hinput]
    simp only [List.append_assoc]
  | afterItem inner outer =>
    obtain ⟨text, hinput, hcloses⟩ := separator_sound h hp hbefore
    exact ⟨text, hinput, .afterItem hcloses⟩

/-- **A whole run** meets the demand of its state. -/
theorem run_sound (h : run state input = .ok rest) :
    ∃ text, input = text ++ rest ∧ Demands state text := by
  fun_induction run state input with
  | case1 => cases h
  | case2 state input left hstep => exact step_sound hstep (Except.ok.inj h)
  | case3 state input next left hstep _ ih => exact step_sound hstep (ih h)

/-! ## A value is skipped -/

theorem run_finished (h : state.step input = .ok (.finished rest)) :
    run state input = .ok rest := by
  rw [run]
  split <;> rename_i heq <;> rw [h] at heq <;> cases heq
  rfl

theorem run_more {next : State} (h : state.step input = .ok (.more next rest)) :
    run state input = run next rest := by
  rw [run]
  split <;> rename_i heq <;> rw [h] at heq <;> cases heq
  rfl

/-- What is left once the machine has gone on from a token. -/
def Progress.resume : Progress → Except Fault (List UInt8)
  | finished rest => .ok rest
  | more state rest => run state rest

theorem run_of_step (h : state.step input = .ok p) : run state input = p.resume := by
  cases p with
  | finished rest => exact run_finished h
  | more next rest => exact run_more h

theorem run_refused {fault : Fault} (h : state.step input = .error fault) :
    run state input = .error fault := by
  rw [run]
  split <;> rename_i heq <;> rw [h] at heq <;> cases heq
  rfl

theorem run_congr {state' : State} {input' : List UInt8}
    (h : state.step input = state'.step input') : run state input = run state' input' := by
  cases hstep : state'.step input' with
  | error fault => rw [run_refused hstep, run_refused (h.trans hstep)]
  | ok p => rw [run_of_step hstep, run_of_step (h.trans hstep)]

theorem step_blank (hbefore : Blank before) (state : State) (input : List UInt8) :
    state.step (before ++ input) = state.step input := by
  unfold State.step
  rw [skipBlank_append hbefore]

theorem step_value (hb : isBlank b = false) :
    (State.value around).step (b :: tail) = valueToken around b tail := by
  unfold State.step
  rw [skipBlank_cons tail hb]

/-- Values that the machine goes past wherever they stand. -/
def IsPassed (value : List UInt8) : Prop :=
  ∀ (around : List Bracket) {before rest : List UInt8}, Blank before → EndsNumeral rest →
    run (.value around) (before ++ (value ++ rest)) = (ended around rest).resume

/-- A value without brackets is one token. -/
theorem isPassed_of_scalar (hb : isBlank b = false) (hlist : b ≠ ascii '[')
    (hobject : b ≠ ascii '\x7b')
    (h : ∀ rest, EndsNumeral rest → scalar b (tail ++ rest) = .ok rest) : IsPassed (b :: tail) := by
  intro around before rest hbefore hrest
  apply run_of_step
  rw [step_blank hbefore, List.cons_append, step_value hb]
  unfold valueToken
  rw [if_neg hlist, if_neg hobject, h rest hrest]
  rfl

theorem isPassed_word (h : text ∈ words) : IsPassed text := by
  have hword (letters : List UInt8) (rest : List UInt8) :
      (word letters (letters ++ rest)).map Prod.snd = .ok rest :=
    map_eq_ok_iff.2 ⟨_, word_eq_ok_iff.2 rfl, rfl⟩
  simp only [words, List.mem_cons, List.not_mem_nil, or_false] at h
  rcases h with rfl | rfl | rfl
  · exact isPassed_of_scalar (by decide) (by decide) (by decide) fun rest _ => hword nullTail rest
  · exact isPassed_of_scalar (by decide) (by decide) (by decide) fun rest _ => hword trueTail rest
  · exact isPassed_of_scalar (by decide) (by decide) (by decide) fun rest _ => hword falseTail rest

theorem isPassed_text {raw bytes : List UInt8} (h : Unescapes .skipped raw bytes) :
    IsPassed (ascii '"' :: (raw ++ [ascii '"'])) := by
  refine isPassed_of_scalar (by decide) (by decide) (by decide) ?_
  intro rest _
  show skipText (raw ++ [ascii '"'] ++ rest) = .ok rest
  rw [List.append_assoc]
  exact skipText_eq_ok_iff.2 ⟨raw, bytes, rfl, h⟩

theorem isPassed_numeral {found : Numeral} (h : Spells text found) : IsPassed text := by
  obtain ⟨b, tail, rfl, hb⟩ := h.exists_cons
  have hne {c : UInt8} (hc : c ≠ ascii '-' ∧ isDigit c = false) : b ≠ c :=
    ne_of_numeral hb hc.1 hc.2
  refine isPassed_of_scalar (isBlank_of_numeral hb) (hne (by decide)) (hne (by decide)) ?_
  intro rest hrest
  have hread : numeral .skipped (b :: tail ++ rest) = .ok (found, rest) := numeral_complete h hrest
  unfold scalar
  rw [if_neg (hne (by decide)), if_neg (hne (by decide)), if_neg (hne (by decide)),
    if_neg (hne (by decide)), if_pos hb]
  exact map_eq_ok_iff.2 ⟨_, hread, rfl⟩

/-! ## Items and members -/

theorem run_afterElement {items : List (List UInt8)} (hitems : ∀ item ∈ items, IsPassed item)
    (h : Items (ascii ']') false items text) (outer : List Bracket) (rest : List UInt8) :
    run (.afterItem .list outer) (text ++ rest) = (ended outer rest).resume := by
  induction items generalizing text with
  | nil =>
    cases h with
    | close hbefore =>
      apply run_of_step
      rw [List.append_assoc, step_blank hbefore]
      rfl
  | cons item items ih =>
    obtain ⟨hitem, hitems⟩ := List.forall_mem_cons.1 hitems
    cases h with
    | @next before after _ text _ hbefore hafter htext =>
      have hcomma : (State.afterItem .list outer).step
          (before ++ ascii ',' :: (after ++ (item ++ text)) ++ rest) =
            .ok (.more (.value (.list :: outer)) (after ++ (item ++ (text ++ rest)))) := by
        simp only [List.append_assoc, List.cons_append]
        rw [step_blank hbefore]
        rfl
      rw [run_more hcomma, hitem _ hafter (htext.endsNumeral (.inl rfl) rest)]
      exact ih hitems htext

/-- **The elements of a list**, from behind its bracket. -/
theorem run_firstElement {items : List (List UInt8)}
    (hitems : ∀ item ∈ items, Solid item ∧ IsPassed item)
    (h : Items (ascii ']') true items text) (outer : List Bracket) (rest : List UInt8) :
    run (.firstElement outer) (text ++ rest) = (ended outer rest).resume := by
  cases h with
  | close hbefore =>
    apply run_of_step
    rw [List.append_assoc, step_blank hbefore]
    rfl
  | @first before item text items hbefore htext =>
    obtain ⟨⟨⟨b, tail, rfl, hb, hclose⟩, hitem⟩, hfurther⟩ := List.forall_mem_cons.1 hitems
    have hvalue : (State.firstElement outer).step (before ++ (b :: tail ++ (text ++ rest))) =
        (State.value (.list :: outer)).step (before ++ (b :: tail ++ (text ++ rest))) := by
      rw [step_blank hbefore, step_blank hbefore, List.cons_append, step_value hb]
      unfold State.step
      rw [skipBlank_cons _ hb]
      exact if_neg hclose
    rw [List.append_assoc, List.append_assoc, run_congr hvalue,
      hitem _ hbefore (htext.endsNumeral (.inl rfl) rest)]
    exact run_afterElement (fun item hmem => (hfurther item hmem).2) htext outer rest

theorem step_key {member : Member} (hmember : member.IsLoose) (outer : List Bracket)
    (rest : List UInt8) : (State.nextKey outer).step (member.bytes ++ rest) =
      .ok (.more (.value (.object :: outer)) (member.afterColon ++ (member.value ++ rest))) := by
  obtain ⟨bytes, hkey⟩ := hmember.key
  have hskip : skipText (member.key ++ ascii '"' :: (member.beforeColon ++ ascii ':' ::
      (member.afterColon ++ (member.value ++ rest)))) =
        .ok (member.beforeColon ++ ascii ':' :: (member.afterColon ++ (member.value ++ rest))) :=
    skipText_eq_ok_iff.2 ⟨_, bytes, rfl, hkey⟩
  have hcolon : skipBlank (member.beforeColon ++ ascii ':' ::
      (member.afterColon ++ (member.value ++ rest))) =
        ascii ':' :: (member.afterColon ++ (member.value ++ rest)) :=
    skipBlank_append hmember.beforeColon _
  simp only [Member.bytes, List.cons_append, List.append_assoc]
  show keyToken outer (ascii '"') _ = _
  unfold keyToken
  rw [if_pos rfl, hskip]
  dsimp only
  rw [hcolon]
  rfl

theorem run_member {member : Member} (hmember : member.IsLoose) (hvalue : IsPassed member.value)
    (outer : List Bracket) (hrest : EndsNumeral rest) :
    run (.nextKey outer) (member.bytes ++ rest) = run (.afterItem .object outer) rest := by
  rw [run_more (step_key hmember outer rest), hvalue _ hmember.afterColon hrest]
  rfl

theorem run_afterMember {members : List Member} (hmembers : ∀ member ∈ members, member.IsLoose)
    (hvalues : ∀ member ∈ members, IsPassed member.value)
    (h : Items (ascii '\x7d') false (members.map Member.bytes) text) (outer : List Bracket)
    (rest : List UInt8) : run (.afterItem .object outer) (text ++ rest) =
      (ended outer rest).resume := by
  induction members generalizing text with
  | nil =>
    cases h with
    | close hbefore =>
      apply run_of_step
      rw [List.append_assoc, step_blank hbefore]
      rfl
  | cons member members ih =>
    obtain ⟨hmember, hmembers⟩ := List.forall_mem_cons.1 hmembers
    obtain ⟨hvalue, hvalues⟩ := List.forall_mem_cons.1 hvalues
    cases h with
    | @next before after _ text _ hbefore hafter htext =>
      have hcomma : (State.afterItem .object outer).step
          (before ++ ascii ',' :: (after ++ (member.bytes ++ text)) ++ rest) =
            .ok (.more (.nextKey outer) (after ++ (member.bytes ++ (text ++ rest)))) := by
        simp only [List.append_assoc, List.cons_append]
        rw [step_blank hbefore]
        rfl
      rw [run_more hcomma, run_congr (step_blank hafter _ _),
        run_member hmember hvalue outer (htext.endsNumeral (.inr rfl) rest)]
      exact ih hmembers hvalues htext

/-- **The members of an object**, from behind its brace. -/
theorem run_firstKey {members : List Member} (hmembers : ∀ member ∈ members, member.IsLoose)
    (hvalues : ∀ member ∈ members, IsPassed member.value)
    (h : Items (ascii '\x7d') true (members.map Member.bytes) text) (outer : List Bracket)
    (rest : List UInt8) : run (.firstKey outer) (text ++ rest) = (ended outer rest).resume := by
  cases members with
  | nil =>
    cases h with
    | close hbefore =>
      apply run_of_step
      rw [List.append_assoc, step_blank hbefore]
      rfl
  | cons member members =>
    obtain ⟨hmember, hmembers⟩ := List.forall_mem_cons.1 hmembers
    obtain ⟨hvalue, hvalues⟩ := List.forall_mem_cons.1 hvalues
    cases h with
    | @first before _ text _ hbefore htext =>
      -- a quote is no closing brace, so the first key is read like any other
      have hkey : (State.firstKey outer).step (before ++ (member.bytes ++ (text ++ rest))) =
          (State.nextKey outer).step (member.bytes ++ (text ++ rest)) := by
        rw [step_blank hbefore]
        rfl
      rw [List.append_assoc, List.append_assoc, run_congr hkey,
        run_member hmember hvalue outer (htext.endsNumeral (.inr rfl) rest)]
      exact run_afterMember hmembers hvalues htext outer rest

/-- **Every value is passed**, wherever it stands. -/
theorem run_value {value : List UInt8} (h : IsValue value) : IsPassed value := by
  induction h with
  | word h => exact isPassed_word h
  | numeral h => exact isPassed_numeral h
  | text h => exact isPassed_text h
  | @list items text hitems htext ih =>
    intro around before rest hbefore _
    have hopen : (State.value around).step (before ++ (ascii '[' :: text ++ rest)) =
        .ok (.more (.firstElement around) (text ++ rest)) := by
      rw [step_blank hbefore]
      rfl
    rw [run_more hopen]
    exact run_firstElement (fun item hmem => ⟨(hitems item hmem).solid, ih item hmem⟩) htext around
      rest
  | @object members text hmembers hvalues htext ih =>
    intro around before rest hbefore _
    have hopen : (State.value around).step (before ++ (ascii '\x7b' :: text ++ rest)) =
        .ok (.more (.firstKey around) (text ++ rest)) := by
      rw [step_blank hbefore]
      rfl
    rw [run_more hopen]
    exact run_firstKey hmembers ih htext around rest

end Skip

variable {before input rest value : List UInt8}

/-! ## Whole values -/

/-- **What is skipped is a value**, behind white space. -/
theorem skipValue_sound (h : skipValue input = .ok rest) :
    ∃ before value, input = before ++ (value ++ rest) ∧ Blank before ∧ IsValue value := by
  obtain ⟨_, rfl, hdemands⟩ := Skip.run_sound h
  cases hdemands with
  | @value _ before value _ hbefore hvalue hmore =>
    cases hmore with
    | nil =>
      refine ⟨before, value, ?_, hbefore, hvalue⟩
      simp only [List.append_assoc, List.nil_append]

/-- **A value is skipped**, in front of bytes that cannot go on with it. -/
theorem skipValue_complete (hbefore : Blank before) (h : IsValue value) (hrest : EndsNumeral rest) :
    skipValue (before ++ (value ++ rest)) = .ok rest :=
  Skip.run_value h [] hbefore hrest

end ChunkSizing.Json
