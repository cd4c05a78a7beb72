import ChunkSizing.Proofs.Json.PromptSkip
import ChunkSizing.Proofs.Json.Front

/-!
# ChunkSizing.Proofs.Json.PromptRecord — records are read promptly.

The members of an object are a loop, the elements of a list a sequence. So a record is read promptly
if its fields are, and a fault in a record is reported alike whatever stands behind the byte at
which it was met (`Record.parseFront_congr`).
-/

namespace ChunkSizing.Json

open Reader

variable {α δ : Type} {input rest : List UInt8} {fields : List (Field δ)} {first : Bool} {draft : δ}

/-! ## Separators -/

/-- Whether there is a further item. -/
def Ahead.more : Ahead → Bool
  | close _ => false
  | item _ => true

/-- What stands ahead, as a reader of whether there is a further item. -/
def aheadReader (ahead : List UInt8 → Except Fault Ahead) : Reader Bool := fun input =>
  (ahead input).map fun found => (found.more, found.rest)

theorem prompt_nextKey (first : Bool) : Prompt (aheadReader (nextKey first)) := by
  have hkey (c : UInt8) : PromptBehind [c] fun tail =>
      if c = ascii '"' then done true tail
      else if c = ascii '\x7d' then stopPast .trailingComma ([c] ++ tail)
      else stopPast .keyNotText ([c] ++ tail) :=
    .ite (fun _ => (prompt_done _).behind [c]) fun _ =>
      .ite (fun _ => (prompt_stopPast (by decide)).again [c])
        fun _ => (prompt_stopPast (by decide)).again [c]
  have hahead (b : UInt8) : PromptBehind [b] fun tail =>
      if b = ascii '\x7d' then done false tail
      else if first then
        if b = ascii '"' then done true tail else stopPast .keyNotText ([b] ++ tail)
      else if b = ascii ',' then
        blank.andThen (fun _ => onFirst (.error (.ended .value)) fun c tail =>
          if c = ascii '"' then done true tail
          else if c = ascii '\x7d' then stopPast .trailingComma ([c] ++ tail)
          else stopPast .keyNotText ([c] ++ tail)) tail
      else stopPast .expectedObjectCommaOrEnd ([b] ++ tail) :=
    .ite (fun _ => (prompt_done _).behind [b]) fun _ =>
      .ite (fun _ => prompt_expected _ _ (by decide) b) fun _ =>
      .ite (fun _ => (prompt_behindBlank _ hkey (by simp)).behind [b])
        fun _ => (prompt_stopPast (by decide)).again [b]
  refine prompt_of_behindBlank (.error (.ended .object)) hahead (by simp) fun input => ?_
  unfold aheadReader nextKey
  cases skipBlank input with
  | nil => rfl
  | cons b tail =>
    rw [onFirst_cons]
    dsimp only
    split_ifs
    · rfl
    · rfl
    · rfl
    · show _ = onFirst _ _ (skipBlank tail)
      cases skipBlank tail with
      | nil => rfl
      | cons c tail =>
        rw [onFirst_cons]
        dsimp only
        split_ifs <;> rfl
    · rfl

theorem prompt_nextElement (first : Bool) : Prompt (aheadReader (nextElement first)) := by
  have helement (c : UInt8) : PromptBehind [c] fun tail =>
      if c = ascii ']' then stopPast .trailingComma ([c] ++ tail) else done true ([c] ++ tail) :=
    .ite (fun _ => (prompt_stopPast (by decide)).again [c]) fun _ => (prompt_done _).again [c]
  have hahead (b : UInt8) : PromptBehind [b] fun tail =>
      if b = ascii ']' then done false tail
      else if first then done true ([b] ++ tail)
      else if b = ascii ',' then
        blank.andThen (fun _ => onFirst (.error (.ended .value)) fun c tail =>
          if c = ascii ']' then stopPast .trailingComma ([c] ++ tail)
          else done true ([c] ++ tail)) tail
      else stopPast .expectedListCommaOrEnd ([b] ++ tail) :=
    .ite (fun _ => (prompt_done _).behind [b]) fun _ =>
      .ite (fun _ => (prompt_done _).again [b]) fun _ =>
      .ite (fun _ => (prompt_behindBlank _ helement (by simp)).behind [b])
        fun _ => (prompt_stopPast (by decide)).again [b]
  refine prompt_of_behindBlank (.error (.ended .list)) hahead (by simp) fun input => ?_
  unfold aheadReader nextElement
  cases skipBlank input with
  | nil => rfl
  | cons b tail =>
    rw [onFirst_cons]
    dsimp only
    split_ifs
    · rfl
    · rfl
    · show _ = onFirst _ _ (skipBlank tail)
      cases skipBlank tail with
      | nil => rfl
      | cons c tail =>
        rw [onFirst_cons]
        dsimp only
        split_ifs <;> rfl
    · rfl

theorem prompt_lastElement : Prompt (silent lastElement) := by
  have hcomma (c : UInt8) : PromptBehind [c] fun tail =>
      if c = ascii ']' then (stopPast .trailingComma ([c] ++ tail) : Except Fault (Unit × _))
      else stopPast .trailingCharacters ([c] ++ tail) :=
    .ite (fun _ => (prompt_stopPast (by decide)).again [c])
      fun _ => (prompt_stopPast (by decide)).again [c]
  have hlast (b : UInt8) : PromptBehind [b] fun tail =>
      if b = ascii ']' then done () tail
      else if b = ascii ',' then
        blank.andThen (fun _ => onFirst (.error .trailingCharacters) fun c tail =>
          if c = ascii ']' then stopPast .trailingComma ([c] ++ tail)
          else stopPast .trailingCharacters ([c] ++ tail)) tail
      else stopPast .trailingCharacters ([b] ++ tail) :=
    .ite (fun _ => (prompt_done _).behind [b]) fun _ =>
      .ite (fun _ => (prompt_behindBlank _ hcomma (by simp)).behind [b])
        fun _ => (prompt_stopPast (by decide)).again [b]
  refine prompt_of_behindBlank (.error (.ended .list)) hlast (by simp) fun input => ?_
  unfold silent lastElement
  cases skipBlank input with
  | nil => rfl
  | cons b tail =>
    rw [onFirst_cons]
    dsimp only
    split_ifs
    · rfl
    · show _ = onFirst _ _ (skipBlank tail)
      cases skipBlank tail with
      | nil => rfl
      | cons c tail =>
        rw [onFirst_cons]
        dsimp only
        split_ifs <;> rfl
    · rfl

theorem prompt_colon : Prompt (silent colon) := by
  have hcause : Cause.expectedColon.IsMetInPlace := by decide
  have hcolon := prompt_expected (ascii ':') () hcause
  refine prompt_of_behindBlank (.error (.ended .object)) hcolon (by simp) fun input => ?_
  unfold silent colon
  cases skipBlank input with
  | nil => rfl
  | cons b tail =>
    rw [onFirst_cons]
    dsimp only
    split_ifs <;> rfl

/-! ## Members -/

theorem inside_eq_error_iff {site : Site} {result : Except Fault α} {fault : Fault} :
    inside site result = .error fault ↔
      ∃ found, result = .error found ∧ found.within site = fault := by
  cases result <;> simp [inside]

/-- **Placing faults** changes nothing about where reading stops. -/
theorem Reader.PromptBehind.inside {before : List UInt8} {read : Reader α}
    (h : PromptBehind before read) (site : Site) :
    PromptBehind before fun input => Json.inside site (read input) where
  leaves hread := h.leaves (eq_ok_of_inside hread)
  unread_le := by
    intro input fault hread hcause
    obtain ⟨found, hfound, rfl⟩ := inside_eq_error_iff.1 hread
    exact (h.unread_le hfound hcause :)
  ended := by
    intro input fault hread heof
    obtain ⟨found, hfound, rfl⟩ := inside_eq_error_iff.1 hread
    exact (h.ended hfound heof :)
  ok_congr := by
    intro front c back back' input input' value hinput hinput' hread
    rw [h.ok_congr hinput hinput' (eq_ok_of_inside hread)]
    rfl
  error_congr := by
    intro front c back back' input input' fault hinput hinput' hread hcause hunread
    obtain ⟨found, hfound, rfl⟩ := inside_eq_error_iff.1 hread
    rw [h.error_congr hinput hinput' hfound hcause hunread]
    rfl
  settled := by
    intro input fault hread hcause
    obtain ⟨found, hfound, rfl⟩ := inside_eq_error_iff.1 hread
    obtain ⟨front, back, distance, hinput, hdistance, hunread, hall⟩ := h.settled hfound hcause
    refine ⟨front, back, distance, hinput, hdistance, hunread, ?_⟩
    intro input' back' hinput'
    exact inside_eq_error_iff.2 ⟨_, hall hinput', rfl⟩

/-- A repeated key is refused behind the white space that follows it. -/
theorem prompt_repeated (name : String) :
    Prompt fun input => (stopAt (.duplicateField name) (afterRepeated input) :
      Except Fault (α × List UInt8)) := by
  have hcause : (Cause.duplicateField name).IsMetInPlace := Cause.isMetInPlace_of_data rfl
  have hnext (b : UInt8) : PromptBehind [b] fun tail =>
      if b = ascii '\x7d' then (stopAt (.duplicateField name) tail : Except Fault (α × _))
      else stopAt (.duplicateField name) ([b] ++ tail) :=
    .ite (fun _ => (prompt_stopAt hcause).behind [b]) fun _ => (prompt_stopAt hcause).again [b]
  refine prompt_of_behindBlank (.error (.duplicateField name)) hnext (by simp) fun input => ?_
  unfold afterRepeated
  cases skipBlank input with
  | nil => rfl
  | cons b tail =>
    rw [onFirst_cons]
    dsimp only
    split_ifs <;> rfl

/-- Behind the key of a member. -/
def valueReader (fields : List (Field δ)) (draft : δ) (key : String) : Reader δ :=
  match fields.find? (·.name == key) with
  | some field => fun input =>
    if field.seen draft then stopAt (.duplicateField field.name) (afterRepeated input)
    else (silent colon).andThen (fun _ rest => inside (.member key) (field.read draft rest)) input
  | none => (silent colon).andThen fun _ rest =>
    inside (.member key) (((silent skipValue).andThen fun _ => done draft) rest)

theorem prompt_valueReader (h : ∀ field ∈ fields, ∀ draft, Prompt (field.read draft)) (draft : δ)
    (key : String) : Prompt (valueReader fields draft key) := by
  unfold valueReader
  cases hfind : fields.find? (·.name == key) with
  | none =>
    have hskip := (prompt_skipValue.andThen fun _ => prompt_done draft).inside (.member key)
    exact prompt_colon.andThen fun _ => hskip
  | some field =>
    have hfield := (h field (List.mem_of_find?_eq_some hfind) draft).inside (.member key)
    exact .ite (fun _ => prompt_repeated field.name)
      fun _ => prompt_colon.andThen fun _ => hfield

theorem prompt_readMember (h : ∀ field ∈ fields, ∀ draft, Prompt (field.read draft)) (draft : δ) :
    Prompt (readMember fields draft) := by
  refine (prompt_text.andThen fun key => prompt_valueReader h draft key).congr fun input => ?_
  unfold readMember andThen valueReader
  cases text input with
  | error fault => rfl
  | ok found =>
    obtain ⟨key, rest⟩ := found
    dsimp only
    cases fields.find? (·.name == key) with
    | none =>
      unfold andThen silent
      dsimp only
      cases colon rest with
      | error fault => rfl
      | ok rest =>
        dsimp only [Except.map]
        cases skipValue rest <;> rfl
    | some field =>
      dsimp only
      split_ifs
      · rfl
      · unfold andThen silent
        cases colon rest <;> rfl

/-! ## Objects -/

/-- One round of the loop over the members: the draft at the closing brace, or what to go on with
behind a member. -/
def memberRound (fields : List (Field δ)) (state : Bool × δ) : Reader (δ ⊕ Bool × δ) :=
  (aheadReader (nextKey state.1)).andThen fun more =>
    if more then (readMember fields state.2).andThen fun next => done (.inr (false, next))
    else done (.inl state.2)

theorem prompt_memberRound (h : ∀ field ∈ fields, ∀ draft, Prompt (field.read draft))
    (state : Bool × δ) : Prompt (memberRound fields state) := by
  refine (prompt_nextKey state.1).andThen fun more => ?_
  cases more with
  | false => exact prompt_done _
  | true => exact (prompt_readMember h state.2).andThen fun _ => prompt_done _

theorem aheadReader_of_error {ahead : List UInt8 → Except Fault Ahead} {fault : Fault}
    (h : ahead input = .error fault) : aheadReader ahead input = .error fault := by
  rw [aheadReader, h]
  rfl

theorem aheadReader_of_ok {ahead : List UInt8 → Except Fault Ahead} {found : Ahead}
    (h : ahead input = .ok found) : aheadReader ahead input = .ok (found.more, found.rest) := by
  rw [aheadReader, h]
  rfl

section Rounds

variable {state : Bool × δ} {fault : Fault}

theorem memberRound_of_error (h : nextKey state.1 input = .error fault) :
    memberRound fields state input = .error fault :=
  andThen_of_error (aheadReader_of_error h)

theorem memberRound_close (h : nextKey state.1 input = .ok (.close rest)) :
    memberRound fields state input = .ok (.inl state.2, rest) :=
  andThen_of_ok (aheadReader_of_ok h)

theorem memberRound_item (h : nextKey state.1 input = .ok (.item rest)) :
    memberRound fields state input =
      (readMember fields state.2).andThen (fun next => done (.inr (false, next))) rest :=
  andThen_of_ok (aheadReader_of_ok h)

theorem memberRound_shorter {next : Bool × δ}
    (h : memberRound fields state input = .ok (.inr next, rest)) : rest.length < input.length := by
  cases hahead : nextKey state.1 input with
  | error fault =>
    rw [memberRound_of_error hahead] at h
    cases h
  | ok found =>
    cases found with
    | close left =>
      rw [memberRound_close hahead] at h
      cases h
    | item left =>
      rw [memberRound_item hahead] at h
      cases hmember : readMember fields state.2 left with
      | error fault =>
        rw [andThen_of_error hmember] at h
        cases h
      | ok read =>
        rw [andThen_of_ok hmember] at h
        cases h
        exact Nat.lt_of_le_of_lt (readMember_leaves fields _ hmember).length_le
          (nextKey_leaves hahead).2

theorem readMembers_of_error (h : nextKey first input = .error fault) :
    readMembers fields first draft input = .error fault := by
  rw [readMembers]
  split <;> rename_i heq <;> rw [h] at heq <;> cases heq
  rfl

theorem readMembers_item_of_error (hahead : nextKey first input = .ok (.item rest))
    (hmember : readMember fields draft rest = .error fault) :
    readMembers fields first draft input = .error fault := by
  rw [readMembers]
  split <;> rename_i heq <;> rw [hahead] at heq <;> cases heq
  split <;> rename_i heq <;> rw [hmember] at heq <;> cases heq
  rfl

theorem readMembers_eq (state : Bool × δ) : readMembers fields state.1 state.2 =
    (memberRound fields state).andThen
      (Sum.elim done fun next => readMembers fields next.1 next.2) := by
  funext input
  cases hahead : nextKey state.1 input with
  | error fault => rw [readMembers_of_error hahead, andThen_of_error (memberRound_of_error hahead)]
  | ok found =>
    cases found with
    | close left =>
      rw [readMembers_close hahead, andThen_of_ok (memberRound_close hahead)]
      rfl
    | item left =>
      cases hmember : readMember fields state.2 left with
      | error fault =>
        have hround := (memberRound_item hahead).trans (andThen_of_error hmember)
        rw [readMembers_item_of_error hahead hmember, andThen_of_error hround]
      | ok read =>
        have hround := (memberRound_item hahead).trans (andThen_of_ok hmember)
        rw [readMembers_item hahead hmember, andThen_of_ok hround]
        rfl

end Rounds

theorem prompt_readMembers (h : ∀ field ∈ fields, ∀ draft, Prompt (field.read draft))
    (first : Bool) (draft : δ) : Prompt (readMembers fields first draft) :=
  prompt_loop (fun state => readMembers fields state.1 state.2) (prompt_memberRound h)
    memberRound_shorter readMembers_eq (first, draft)

/-! ## Lists -/

theorem readElements_nil_eq (index : Nat) (draft : δ) : readElements [] index draft =
    (silent lastElement).andThen fun _ => done (draft, index) := by
  funext input
  unfold readElements andThen silent
  cases lastElement input <;> rfl

theorem readElements_cons_eq (field : Field δ) (fields : List (Field δ)) (index : Nat) (draft : δ) :
    readElements (field :: fields) index draft =
      (aheadReader (nextElement (index == 0))).andThen fun more =>
        if more then
          Reader.andThen (fun rest => inside (.element index) (field.read draft rest)) fun draft =>
            readElements fields (index + 1) draft
        else done (draft, index) := by
  funext input
  rw [readElements]
  cases hahead : nextElement (index == 0) input with
  | error fault => rw [andThen_of_error (aheadReader_of_error hahead)]
  | ok found =>
    rw [andThen_of_ok (aheadReader_of_ok hahead)]
    cases found with
    | close left => rfl
    | item left =>
      dsimp only
      rw [Ahead.more, if_pos rfl, Ahead.rest]
      unfold andThen
      beta_reduce
      cases inside (.element index) (field.read draft left) <;> rfl

theorem prompt_readElements (h : ∀ field ∈ fields, ∀ draft, Prompt (field.read draft))
    (index : Nat) (draft : δ) : Prompt (readElements fields index draft) := by
  induction fields generalizing index draft with
  | nil =>
    rw [readElements_nil_eq]
    exact prompt_lastElement.andThen fun _ => prompt_done _
  | cons field fields ih =>
    rw [readElements_cons_eq]
    obtain ⟨hfield, hfields⟩ := List.forall_mem_cons.1 h
    refine (prompt_nextElement _).andThen fun more => ?_
    cases more with
    | false => exact prompt_done _
    | true => exact ((hfield draft).inside (.element index)).andThen (ih hfields (index + 1))

/-! ## Records -/

namespace Record

/-- A draft that is complete, or a fault where the record ends. -/
def finished (record : Record δ α) (cause : String → Cause) (draft : δ) : Reader α :=
  match record.finish draft with
  | .ok value => done value
  | .error name => stopAt (cause name)

theorem prompt_finished (record : Record δ α) (cause : String → Cause)
    (hcause : ∀ name, (cause name).category = .data) (draft : δ) :
    Prompt (record.finished cause draft) := by
  unfold finished
  cases record.finish draft with
  | ok value => exact prompt_done value
  | error name => exact prompt_stopAt (Cause.isMetInPlace_of_data (hcause name))

/-- **A record is read promptly** if its fields are. -/
theorem prompt_read {record : Record δ α}
    (h : ∀ field ∈ record.fields, ∀ draft, Prompt (field.read draft)) : Prompt record.read := by
  refine prompt_onValue fun b => ?_
  have hobject := (prompt_readMembers h true record.blank).andThen
    (prompt_finished record .missingField fun _ => rfl)
  have hlist := (prompt_readElements h 0 record.blank).andThen fun found =>
    prompt_finished record (fun _ => .wrongLength found.2 record.title record.fields.length)
      (fun _ => rfl) found.1
  refine .ite (fun _ => (hobject.behind [b]).congr fun tail => ?_) fun _ =>
    .ite (fun _ => (hlist.behind [b]).congr fun tail => ?_) fun _ => prompt_mismatch _ b
  · unfold andThen finished
    cases readMembers record.fields true record.blank tail with
    | error fault => rfl
    | ok found =>
      dsimp only
      cases record.finish found.1 <;> rfl
  · unfold andThen finished
    cases readElements record.fields 0 record.blank tail with
    | error fault => rfl
    | ok found =>
      dsimp only
      cases record.finish found.1.1 <;> rfl

/-- A fault in front of some bytes has its position from what stands before them. -/
theorem locate_append (front back : List UInt8) {fault : Fault}
    (hunread : fault.unread = back.length) :
    fault.locate (front ++ back) =
      ⟨fault.cause, front.count 10 + 1, (front.reverse.takeWhile (· != 10)).length,
        fault.site⟩ := by
  have hlength : (front ++ back).length - fault.unread = front.length := by
    rw [hunread, List.length_append, Nat.add_sub_cancel]
  unfold Fault.locate
  rw [hlength, List.take_left]

/-- **The byte at which a fault is met settles the refusal**; the bytes behind it could be any. -/
theorem parseFront_congr {record : Record δ α} (h : Prompt record.read) {front back : List UInt8}
    {c : UInt8} {fault : Fault} (hread : record.read (front ++ c :: back) = .error fault)
    (hcause : fault.cause ≠ .invalidText) (hunread : fault.unread = back.length + 1)
    (back' : List UInt8) :
    record.parseFront (front ++ c :: back') = record.parseFront (front ++ c :: back) := by
  have hread' := h.error_of hread hcause hunread back'
  unfold parseFront
  rw [hread, hread']
  dsimp only
  rw [locate_append front (c :: back) hunread, locate_append front (c :: back') rfl]

end Record

end ChunkSizing.Json
