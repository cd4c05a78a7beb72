import ChunkSizing.Proofs.Json.Entries
import ChunkSizing.Proofs.Json.Skipping

/-!
# ChunkSizing.Proofs.Json.Recognition — the texts that are records.

The whole inputs that are read as a record are the texts whose entries fill a draft of it
(`Record.Grammar.parse_eq_ok_iff`). For each part of the loops there is one statement about what it
reads, and from these the induction over the members or the elements goes both ways.
-/

namespace ChunkSizing.Json

variable {α δ : Type} {input rest text lead : List UInt8} {first : Bool}

/-! ## Brackets, commas and colons -/

theorem nextKey_close_iff : nextKey first input = .ok (.close rest) ↔
    ∃ before, Blank before ∧ input = before ++ ascii '\x7d' :: rest := by
  constructor
  · intro h
    unfold nextKey at h
    split at h
    · cases h
    rename_i b tail hblank
    obtain ⟨before, rfl, hbefore, -⟩ := exists_blank hblank
    split_ifs at h with hclose hfirst hquote hcomma
    · cases h
      exact ⟨before, hbefore, by rw [hclose]⟩
    · cases h
    · cases h
    · split at h
      · cases h
      · split_ifs at h <;> cases h
    · cases h
  · rintro ⟨before, hbefore, rfl⟩
    unfold nextKey
    rw [skipBlank_append hbefore, skipBlank_cons _ (by decide)]
    exact if_pos rfl

/-- A key stands behind its lead and its quote. -/
theorem nextKey_item_iff : nextKey first input = .ok (.item rest) ↔
    ∃ lead, Lead first lead ∧ input = lead ++ ascii '"' :: rest := by
  constructor
  · intro h
    unfold nextKey at h
    split at h
    · cases h
    rename_i b tail hblank
    obtain ⟨before, rfl, hbefore, -⟩ := exists_blank hblank
    split_ifs at h with hclose hfirst hquote hcomma
    · cases h
    · cases h
      exact ⟨before, hfirst ▸ .first hbefore, by rw [hquote]⟩
    · cases h
    · split at h
      · cases h
      rename_i c left hbehind
      obtain ⟨after, rfl, hafter, -⟩ := exists_blank hbehind
      split_ifs at h with hquote hend
      · cases h
        refine ⟨before ++ ascii ',' :: after, ?_, ?_⟩
        · rw [Bool.eq_false_iff.2 hfirst]
          exact .next hbefore hafter
        · rw [hcomma, hquote, List.append_assoc, List.cons_append]
      · cases h
      · cases h
    · cases h
  · rintro ⟨lead, hlead, rfl⟩
    unfold nextKey
    cases hlead with
    | first hbefore =>
      rw [skipBlank_append hbefore, skipBlank_cons _ (by decide)]
      rfl
    | next hbefore hafter =>
      rw [List.append_assoc, List.cons_append, skipBlank_append hbefore,
        skipBlank_cons _ (by decide)]
      dsimp only
      rw [skipBlank_append hafter, skipBlank_cons _ (by decide)]
      rfl

theorem colon_eq_ok_iff : colon input = .ok rest ↔
    ∃ before, Blank before ∧ input = before ++ ascii ':' :: rest := by
  constructor
  · intro h
    unfold colon at h
    split at h
    · cases h
    rename_i b tail hblank
    obtain ⟨before, rfl, hbefore, -⟩ := exists_blank hblank
    split_ifs at h with hcolon
    · cases h
      exact ⟨before, hbefore, by rw [hcolon]⟩
    · cases h
  · rintro ⟨before, hbefore, rfl⟩
    unfold colon
    rw [skipBlank_append hbefore, skipBlank_cons _ (by decide)]
    exact if_pos rfl

theorem nextElement_close_iff : nextElement first input = .ok (.close rest) ↔
    ∃ before, Blank before ∧ input = before ++ ascii ']' :: rest := by
  constructor
  · intro h
    unfold nextElement at h
    split at h
    · cases h
    rename_i b tail hblank
    obtain ⟨before, rfl, hbefore, -⟩ := exists_blank hblank
    split_ifs at h with hclose hfirst hcomma
    · cases h
      exact ⟨before, hbefore, by rw [hclose]⟩
    · cases h
    · split at h
      · cases h
      · split_ifs at h <;> cases h
    · cases h
  · rintro ⟨before, hbefore, rfl⟩
    unfold nextElement
    rw [skipBlank_append hbefore, skipBlank_cons _ (by decide)]
    exact if_pos rfl

theorem nextElement_sound (h : nextElement first input = .ok (.item rest)) :
    ∃ lead, Lead first lead ∧ input = lead ++ rest := by
  unfold nextElement at h
  split at h
  · cases h
  rename_i b tail hblank
  obtain ⟨before, rfl, hbefore, -⟩ := exists_blank hblank
  split_ifs at h with hclose hfirst hcomma
  · cases h
  · cases h
    exact ⟨before, hfirst ▸ .first hbefore, rfl⟩
  · split at h
    · cases h
    rename_i c left hbehind
    obtain ⟨after, rfl, hafter, -⟩ := exists_blank hbehind
    split_ifs at h with hend
    · cases h
    · cases h
      refine ⟨before ++ ascii ',' :: after, ?_, ?_⟩
      · rw [Bool.eq_false_iff.2 hfirst]
        exact .next hbefore hafter
      · rw [hcomma, List.append_assoc, List.cons_append]
  · cases h

theorem nextElement_complete (hlead : Lead first lead) (htext : Solid text) (rest : List UInt8) :
    nextElement first (lead ++ (text ++ rest)) = .ok (.item (text ++ rest)) := by
  obtain ⟨b, tail, rfl, hb, hclose⟩ := htext
  unfold nextElement
  cases hlead with
  | first hbefore =>
    rw [skipBlank_append hbefore, List.cons_append, skipBlank_cons _ hb]
    dsimp only
    rw [if_neg hclose, if_pos rfl]
  | next hbefore hafter =>
    rw [List.append_assoc, List.cons_append, skipBlank_append hbefore,
      skipBlank_cons _ (by decide)]
    dsimp only
    rw [skipBlank_append hafter, List.cons_append, skipBlank_cons _ hb]
    dsimp only
    rw [if_neg (by decide), if_neg (by decide), if_pos rfl, if_neg hclose]

theorem lastElement_eq_ok_iff : lastElement input = .ok rest ↔
    ∃ before, Blank before ∧ input = before ++ ascii ']' :: rest := by
  constructor
  · intro h
    unfold lastElement at h
    split at h
    · cases h
    rename_i b tail hblank
    obtain ⟨before, rfl, hbefore, -⟩ := exists_blank hblank
    split_ifs at h with hclose hcomma
    · cases h
      exact ⟨before, hbefore, by rw [hclose]⟩
    · split at h
      · cases h
      · split_ifs at h <;> cases h
    · cases h
  · rintro ⟨before, hbefore, rfl⟩
    unfold lastElement
    rw [skipBlank_append hbefore, skipBlank_cons _ (by decide)]
    exact if_pos rfl

/-! ## Objects -/

variable {fields : List (Known δ)} {draft next last : δ}

theorem find?_field (fields : List (Known δ)) (name : String) :
    (fields.map Known.field).find? (·.name == name) =
      (fields.find? (·.name == name)).map Known.field :=
  List.find?_map

theorem readMember_sound
    (h : readMember (fields.map Known.field) draft input = .ok (next, rest)) :
    ∃ member entry, ascii '"' :: input = Member.bytes member ++ rest ∧ member.Holds entry ∧
      Takes fields draft entry next := by
  unfold readMember at h
  split at h
  · cases h
  rename_i key afterKey hkey
  obtain ⟨raw, rfl, hraw⟩ := text_eq_ok_iff.1 hkey
  rw [find?_field] at h
  split at h
  · rename_i field hfield
    obtain ⟨known, hfind, rfl⟩ := Option.map_eq_some_iff.1 hfield
    split at h
    · cases h
    rename_i hseen
    split at h
    · cases h
    rename_i left hcolon
    obtain ⟨before, hbefore, rfl⟩ := colon_eq_ok_iff.1 hcolon
    obtain ⟨after, text, rfl, hafter, value, htext, rfl⟩ :=
      (known.recognizes draft).sound (eq_ok_of_inside h)
    have hempty := (known.seen_eq_false_iff draft).1 (Bool.eq_false_iff.2 hseen)
    refine ⟨⟨raw, before, after, text⟩, (key, text), ?_, ⟨⟨hbefore, hafter⟩, hraw, rfl⟩,
      .known hfind hempty htext⟩
    simp only [Member.bytes, List.cons_append, List.append_assoc]
  · rename_i hfield
    have hfind := Option.map_eq_none_iff.1 hfield
    split at h
    · cases h
    rename_i left hcolon
    obtain ⟨before, hbefore, rfl⟩ := colon_eq_ok_iff.1 hcolon
    obtain ⟨_, hskip, hrest⟩ := map_eq_ok_iff.1 (eq_ok_of_inside h)
    obtain ⟨rfl, rfl⟩ := Prod.mk.inj hrest
    obtain ⟨after, text, rfl, hafter, htext⟩ := skipValue_sound hskip
    refine ⟨⟨raw, before, after, text⟩, (key, text), ?_, ⟨⟨hbefore, hafter⟩, hraw, rfl⟩,
      .unknown hfind htext⟩
    simp only [Member.bytes, List.cons_append, List.append_assoc]

/-- What stands behind the quote of a member's key. -/
theorem readMember_complete {member : Member} {entry : String × List UInt8}
    (hmember : member.Holds entry) (hentry : Takes fields draft entry next)
    (hrest : EndsNumeral rest) :
    ∃ tail, member.bytes ++ rest = ascii '"' :: tail ∧
      readMember (fields.map Known.field) draft tail = .ok (next, rest) := by
  obtain ⟨⟨hbefore, hafter⟩, hkey, hvalue⟩ := hmember
  refine ⟨member.key ++ ascii '"' :: (member.beforeColon ++ ascii ':' ::
    (member.afterColon ++ (member.value ++ rest))), ?_, ?_⟩
  · simp only [Member.bytes, List.cons_append, List.append_assoc]
  have hcolon : colon (member.beforeColon ++ ascii ':' ::
      (member.afterColon ++ (member.value ++ rest))) =
        .ok (member.afterColon ++ (member.value ++ rest)) :=
    colon_eq_ok_iff.2 ⟨_, hbefore, rfl⟩
  unfold readMember
  rw [text_eq_ok_iff.2 ⟨member.key, rfl, hkey⟩]
  cases hentry with
  | @known _ _ known value hfind hempty htext =>
    subst hvalue
    have hseen := (known.seen_eq_false_iff draft).2 hempty
    have hread := (known.recognizes draft).complete hafter ⟨value, htext, rfl⟩ hrest
    simp only [find?_field, hfind, Option.map_some, hseen, Bool.false_eq_true, if_false, hcolon,
      hread, inside]
  | unknown hfind htext =>
    subst hvalue
    have hskip := skipValue_complete hafter htext hrest
    simp only [find?_field, hfind, Option.map_none, hcolon, hskip, inside, Except.map]

theorem readMembers_close {fields : List (Field δ)} (h : nextKey first input = .ok (.close rest)) :
    readMembers fields first draft input = .ok (draft, rest) := by
  rw [readMembers]
  split <;> rename_i heq <;> rw [h] at heq <;> cases heq
  rfl

theorem readMembers_item {fields : List (Field δ)} {left : List UInt8}
    (hahead : nextKey first input = .ok (.item rest))
    (hmember : readMember fields draft rest = .ok (next, left)) :
    readMembers fields first draft input = readMembers fields false next left := by
  rw [readMembers]
  split <;> rename_i heq <;> rw [hahead] at heq <;> cases heq
  split <;> rename_i heq <;> rw [hmember] at heq <;> cases heq
  rfl

/-- **What is read as members** are members whose entries fill the draft. -/
theorem readMembers_sound
    (h : readMembers (fields.map Known.field) first draft input = .ok (last, rest)) :
    ∃ members entries text, input = text ++ rest ∧ List.Forall₂ Member.Holds members entries ∧
      Items (ascii '\x7d') first (members.map Member.bytes) text ∧
        Fills fields draft entries last := by
  fun_induction readMembers (fields.map Known.field) first draft input with
  | case1 => cases h
  | case2 first draft input left hahead =>
    obtain ⟨rfl, rfl⟩ := Prod.mk.inj (Except.ok.inj h)
    obtain ⟨before, hbefore, rfl⟩ := nextKey_close_iff.1 hahead
    refine ⟨[], [], before ++ [ascii '\x7d'], ?_, .nil, .close hbefore, .nil draft⟩
    rw [List.append_assoc, List.cons_append, List.nil_append]
  | case3 => cases h
  | case4 first draft input item hahead next left hmember _ ih =>
    obtain ⟨lead, hlead, rfl⟩ := nextKey_item_iff.1 hahead
    obtain ⟨member, entry, hitem, hholds, htakes⟩ := readMember_sound hmember
    obtain ⟨members, entries, text, rfl, hmembers, htext, hfills⟩ := ih h
    refine ⟨member :: members, entry :: entries, lead ++ (member.bytes ++ text), ?_,
      .cons hholds hmembers, items_cons_iff.2 ⟨lead, text, hlead, rfl, htext⟩,
      .cons htakes hfills⟩
    rw [hitem, List.append_assoc, List.append_assoc]

/-- **Members whose entries fill the draft** are read. -/
theorem readMembers_complete {members : List Member} {entries : Entries}
    (hmembers : List.Forall₂ Member.Holds members entries)
    (htext : Items (ascii '\x7d') first (members.map Member.bytes) text)
    (hfills : Fills fields draft entries last) :
    readMembers (fields.map Known.field) first draft (text ++ rest) = .ok (last, rest) := by
  induction hfills generalizing members first text with
  | nil draft =>
    obtain rfl := List.forall₂_nil_right_iff.1 hmembers
    obtain ⟨before, hbefore, rfl⟩ := items_nil_iff.1 htext
    apply readMembers_close
    rw [List.append_assoc]
    exact nextKey_close_iff.2 ⟨before, hbefore, rfl⟩
  | @cons draft next last entry entries hentry _ ih =>
    obtain ⟨member, members, hmember, hmore, rfl⟩ := List.forall₂_cons_right_iff.1 hmembers
    obtain ⟨lead, further, hlead, rfl, hfurther⟩ := items_cons_iff.1 htext
    obtain ⟨tail, hbytes, hread⟩ :=
      readMember_complete hmember hentry (hfurther.endsNumeral (.inr rfl) rest)
    rw [List.append_assoc, List.append_assoc, hbytes,
      readMembers_item (nextKey_item_iff.2 ⟨lead, hlead, rfl⟩) hread]
    exact ih hmore hfurther

/-! ## Lists -/

theorem readElements_close {fields : List (Field δ)} {field : Field δ} {index : Nat}
    (h : nextElement (index == 0) input = .ok (.close rest)) :
    readElements (field :: fields) index draft input = .ok ((draft, index), rest) := by
  rw [readElements, h]

theorem readElements_item {fields : List (Field δ)} {field : Field δ} {index : Nat}
    {left : List UInt8} (hahead : nextElement (index == 0) input = .ok (.item rest))
    (hread : field.read draft rest = .ok (next, left)) :
    readElements (field :: fields) index draft input =
      readElements fields (index + 1) next left := by
  rw [readElements, hahead]
  dsimp only
  rw [hread]
  rfl

/-- **What is read as elements** are values that fill the draft. -/
theorem readElements_sound {index length : Nat}
    (h : readElements (fields.map Known.field) index draft input = .ok ((last, length), rest)) :
    ∃ values text, input = text ++ rest ∧ Items (ascii ']') (index == 0) values text ∧
      Lists fields draft values last := by
  induction fields generalizing index draft input with
  | nil =>
    rw [List.map_nil, readElements] at h
    split at h
    · cases h
    · rename_i hlast
      obtain ⟨hdraft, rfl⟩ := Prod.mk.inj (Except.ok.inj h)
      obtain ⟨rfl, -⟩ := Prod.mk.inj hdraft
      obtain ⟨before, hbefore, rfl⟩ := lastElement_eq_ok_iff.1 hlast
      refine ⟨[], before ++ [ascii ']'], ?_, .close hbefore, .nil [] draft⟩
      rw [List.append_assoc, List.cons_append, List.nil_append]
  | cons known fields ih =>
    rw [List.map_cons, readElements] at h
    split at h
    · cases h
    · rename_i hahead
      obtain ⟨hdraft, rfl⟩ := Prod.mk.inj (Except.ok.inj h)
      obtain ⟨rfl, -⟩ := Prod.mk.inj hdraft
      obtain ⟨before, hbefore, rfl⟩ := nextElement_close_iff.1 hahead
      refine ⟨[], before ++ [ascii ']'], ?_, .close hbefore, .nil _ draft⟩
      rw [List.append_assoc, List.cons_append, List.nil_append]
    · rename_i item hahead
      split at h
      · cases h
      · rename_i next left hread
        obtain ⟨lead, hlead, rfl⟩ := nextElement_sound hahead
        obtain ⟨before, item, rfl, hbefore, value, hitem, rfl⟩ :=
          (known.recognizes draft).sound (eq_ok_of_inside hread)
        obtain ⟨items, text, rfl, htext, hitems⟩ := ih h
        refine ⟨item :: items, lead ++ before ++ (item ++ text), ?_,
          items_cons_iff.2 ⟨lead ++ before, text, hlead.append hbefore, rfl, htext⟩,
          .cons hitem hitems⟩
        simp only [List.append_assoc]

/-- **Values that fill the draft** are read. -/
theorem readElements_complete {index : Nat} {values : List (List UInt8)}
    (htext : Items (ascii ']') (index == 0) values text)
    (hvalues : Lists fields draft values last) :
    readElements (fields.map Known.field) index draft (text ++ rest) =
      .ok ((last, index + values.length), rest) := by
  induction hvalues generalizing index text with
  | nil fields draft =>
    obtain ⟨before, hbefore, rfl⟩ := items_nil_iff.1 htext
    rw [List.append_assoc]
    cases fields with
    | nil =>
      have hlast : lastElement (before ++ ([ascii ']'] ++ rest)) = .ok rest :=
        lastElement_eq_ok_iff.2 ⟨before, hbefore, rfl⟩
      rw [List.map_nil, readElements, hlast]
      rfl
    | cons known fields =>
      exact readElements_close (nextElement_close_iff.2 ⟨before, hbefore, rfl⟩)
  | @cons known fields draft last item items value hitem _ ih =>
    have hstored : Storing known.language (known.set draft) item (known.set draft value) :=
      ⟨value, hitem, rfl⟩
    have hsolid := (known.recognizes draft).solid hstored
    obtain ⟨lead, further, hlead, rfl, hfurther⟩ := items_cons_iff.1 htext
    have hread := (known.recognizes draft).complete Blank.nil hstored
      (hfurther.endsNumeral (.inl rfl) rest)
    have hnext : Items (ascii ']') (index + 1 == 0) items further := hfurther
    rw [List.append_assoc, List.append_assoc, List.map_cons,
      readElements_item (nextElement_complete hlead hsolid _) hread,
      ih hnext, List.length_cons, Nat.add_right_comm, Nat.add_assoc]

/-! ## Records -/

namespace Record.Grammar

variable {record : Record δ α} {value : α}

theorem read_sound (grammar : record.Grammar) (h : record.read input = .ok (value, rest)) :
    ∃ before text entries last, input = before ++ (text ++ rest) ∧ Blank before ∧
      RecordText grammar.names text entries ∧
        Fills grammar.fields record.blank entries last ∧ record.finish last = .ok value := by
  unfold read onValue at h
  split at h
  · cases h
  rename_i b tail hblank
  obtain ⟨before, rfl, hbefore, -⟩ := exists_blank hblank
  rw [grammar.fields_eq] at h
  dsimp only at h
  split at h
  · rename_i hobject
    split at h
    · cases h
    rename_i last left hread
    split at h
    · rename_i hfinish
      obtain ⟨rfl, rfl⟩ := Prod.mk.inj (Except.ok.inj h)
      obtain ⟨members, entries, text, rfl, hmembers, htext, hfills⟩ := readMembers_sound hread
      exact ⟨before, _, entries, last, by rw [hobject, List.cons_append], hbefore,
        .object hmembers htext, hfills, hfinish⟩
    · cases h
  split at h
  · rename_i hlist
    split at h
    · cases h
    rename_i last length left hread
    split at h
    · rename_i hfinish
      obtain ⟨rfl, rfl⟩ := Prod.mk.inj (Except.ok.inj h)
      obtain ⟨values, text, rfl, htext, hvalues⟩ := readElements_sound hread
      have hlength : values.length ≤ grammar.names.length :=
        hvalues.length_le.trans (List.length_map _).ge
      exact ⟨before, _, _, last, by rw [hlist, List.cons_append], hbefore,
        .list hlength htext, (grammar.blank_lists_iff hlength).1 hvalues, hfinish⟩
    · cases h
  · exact absurd h mismatch_ne_ok

theorem read_complete (grammar : record.Grammar) {entries : Entries} (hbefore : Blank before)
    (htext : RecordText grammar.names text entries)
    (hfills : Fills grammar.fields record.blank entries last)
    (hfinish : record.finish last = .ok value) :
    record.read (before ++ (text ++ rest)) = .ok (value, rest) := by
  unfold read onValue
  rw [skipBlank_append hbefore, grammar.fields_eq]
  cases htext with
  | object hmembers htext =>
    rw [List.cons_append, skipBlank_cons _ (by decide)]
    dsimp only
    rw [if_pos rfl, readMembers_complete hmembers htext hfills]
    simp only [hfinish]
  | @list values text hlength htext =>
    have hfirst : Items (ascii ']') (0 == 0) values text := htext
    have hvalues := (grammar.blank_lists_iff hlength).2 hfills
    rw [List.cons_append, skipBlank_cons _ (by decide)]
    dsimp only
    rw [if_neg (by decide), if_pos rfl, readElements_complete hfirst hvalues]
    simp only [hfinish]

end Record.Grammar

/-! ## Whole inputs -/

/-- **A value that is the whole input**, up to white space. -/
def Reader.parse (read : Reader α) (input : List UInt8) : Except Refusal α :=
  match read input with
  | .error fault => .error (fault.locate input)
  | .ok (value, rest) =>
    match skipBlank rest with
    | [] => .ok value
    | _ :: rest => .error (Fault.locate input ⟨.trailingCharacters, rest.length, none⟩)

theorem Reader.parse_eq_ok_iff {read : Reader α} {value : α} : parse read input = .ok value ↔
    ∃ rest, read input = .ok (value, rest) ∧ Blank rest := by
  unfold parse Blank
  cases hread : read input with
  | error fault => simp
  | ok found =>
    obtain ⟨found, rest⟩ := found
    simp only [Except.ok.injEq, Prod.mk.injEq, ← List.dropWhile_eq_nil_iff]
    constructor
    · intro h
      split at h
      · rename_i hblank
        exact ⟨rest, ⟨Except.ok.inj h, rfl⟩, hblank⟩
      · cases h
    · rintro ⟨_, ⟨rfl, rfl⟩, hblank⟩
      have hblank : skipBlank rest = [] := hblank
      rw [hblank]

namespace Record

variable {record : Record δ α} {value : α}

theorem parse_eq_ok_iff : record.parse input = .ok value ↔
    ∃ rest, record.read input = .ok (value, rest) ∧ ∀ b ∈ rest, isBlank b = true :=
  Reader.parse_eq_ok_iff

theorem parseFront_eq_ok_iff_read : record.parseFront input = .ok value ↔
    ∃ rest, record.read input = .ok (value, rest) := by
  unfold parseFront
  cases hread : record.read input with
  | error fault => simp
  | ok found =>
    obtain ⟨found, rest⟩ := found
    simp

/-- What is read as a whole is read at the front. -/
theorem parseFront_of_parse (h : record.parse input = .ok value) :
    record.parseFront input = .ok value := by
  obtain ⟨rest, hread, -⟩ := parse_eq_ok_iff.1 h
  exact parseFront_eq_ok_iff_read.2 ⟨rest, hread⟩

/-- **The whole inputs that are records** are those whose entries fill a new draft. -/
theorem Grammar.parse_eq_ok_iff (grammar : record.Grammar) : record.parse input = .ok value ↔
    ∃ entries last, InputText grammar.names input entries ∧
      Fills grammar.fields record.blank entries last ∧ record.finish last = .ok value := by
  rw [Record.parse_eq_ok_iff]
  constructor
  · rintro ⟨after, hread, hafter⟩
    obtain ⟨before, text, entries, last, rfl, hbefore, htext, hfills, hfinish⟩ :=
      grammar.read_sound hread
    exact ⟨entries, last, .mk hbefore htext hafter, hfills, hfinish⟩
  · rintro ⟨entries, last, ⟨hbefore, htext, hafter⟩, hfills, hfinish⟩
    exact ⟨_, grammar.read_complete hbefore htext hfills hfinish, hafter⟩

/-- The same, for a record that says by itself what its entries denote. -/
theorem Grammar.parse_iff_denotes (grammar : record.Grammar) {Denotes : Entries → α → Prop}
    (hdenotes : ∀ {entries value}, Denotes entries value ↔
      ∃ last, Fills grammar.fields record.blank entries last ∧ record.finish last = .ok value) :
    record.parse input = .ok value ↔
      ∃ entries, InputText grammar.names input entries ∧ Denotes entries value := by
  simp only [grammar.parse_eq_ok_iff, hdenotes]
  constructor
  · rintro ⟨entries, last, hinput, hlast⟩
    exact ⟨entries, hinput, last, hlast⟩
  · rintro ⟨entries, hinput, last, hlast⟩
    exact ⟨entries, last, hinput, hlast⟩

end Record

end ChunkSizing.Json
