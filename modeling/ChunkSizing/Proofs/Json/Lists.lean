import ChunkSizing.Proofs.Json.Recognition

/-!
# ChunkSizing.Proofs.Json.Lists — lists of values, whole numbers, and whole inputs.

What is printed may be a table, and its numbers fill words. Each reader here has one law, as those
of single values have (`Reader.Recognizes`): whole numbers of any size and words of 64 bits; lists,
made from the reader of their elements; and a record as one element among others.
-/

namespace ChunkSizing.Json

variable {α δ : Type} {input rest text : List UInt8} {first : Bool}

/-! ## Whole numbers -/

/-- The whole numbers. -/
def DenotesWhole : TextLanguage Nat := fun text n =>
  ∃ numeral, Spells text numeral ∧ numeral.IsInteger n

/-- The words of 64 bits. -/
def DenotesWord : TextLanguage UInt64 := fun text word => DenotesWhole text word.toNat

/-- **A whole number**, of any size. -/
def wholeValue : Reader Nat := onValue fun b tail =>
  match numeral .kept (b :: tail) with
  | .ok (⟨false, whole, [], none⟩, rest) => .ok (digitsValue whole, rest)
  | _ => mismatch .integer b tail

/-- **A word of 64 bits.** -/
def wordValue : Reader UInt64 := fun input =>
  match wholeValue input with
  | .error fault => .error fault
  | .ok (n, rest) =>
    if n < UInt64.size then .ok (UInt64.ofNat n, rest)
    else stopAt (.outOfRange n .integer) rest

theorem wholeValue_leaves : wholeValue.Leaves := by
  refine onValue_leaves fun {b tail _ _} h => ?_
  split at h
  · rename_i hnumeral
    obtain ⟨rfl, rfl⟩ := Prod.mk.inj (Except.ok.inj h)
    exact (numeral_leaves _ hnumeral).1
  · exact absurd h mismatch_ne_ok

theorem wordValue_leaves : wordValue.Leaves := by
  intro input _ _ h
  unfold wordValue at h
  split at h
  · cases h
  · rename_i hwhole
    split at h
    · obtain ⟨rfl, rfl⟩ := Prod.mk.inj (Except.ok.inj h)
      exact wholeValue_leaves hwhole
    · cases h

/-- A numeral of a whole number is digits alone. -/
theorem isInteger_natCast_iff {numeral : Numeral} {n : Nat} : numeral.IsInteger n ↔
    ∃ whole, numeral = ⟨false, whole, [], none⟩ ∧ digitsValue whole = n := by
  obtain ⟨negative, whole, fraction, exponent⟩ := numeral
  constructor
  · rintro ⟨rfl, rfl, hzero, hvalue⟩
    cases negative with
    | false => exact ⟨whole, rfl, (Int.ofNat_inj.1 hvalue).symm⟩
    | true =>
      have hvalue : (n : Int) = -(digitsValue whole : Int) := hvalue
      exact absurd ⟨rfl, by omega⟩ hzero
  · rintro ⟨_, heq, rfl⟩
    cases heq
    exact ⟨rfl, rfl, fun h => Bool.false_ne_true h.1, rfl⟩

/-- **Whole numbers are read.** -/
theorem wholeValue_recognizes : wholeValue.Recognizes DenotesWhole := by
  refine onValue_recognizes ?_ ?_ ?_
  · intro b tail rest n _ hread
    split at hread
    · rename_i whole left hnumeral
      obtain ⟨rfl, rfl⟩ := Prod.mk.inj (Except.ok.inj hread)
      obtain ⟨text, hinput, hspells⟩ := numeral_sound hnumeral
      exact ⟨text, hinput, _, hspells, isInteger_natCast_iff.2 ⟨whole, rfl, rfl⟩⟩
    · exact absurd hread mismatch_ne_ok
  · rintro b tail rest n ⟨numeral, hspells, hinteger⟩ hrest
    obtain ⟨whole, rfl, rfl⟩ := isInteger_natCast_iff.1 hinteger
    rw [← List.cons_append, numeral_complete hspells hrest]
  · rintro text n ⟨numeral, hspells, -⟩
    exact hspells.solid

/-- **Words are read.** -/
theorem wordValue_recognizes : wordValue.Recognizes DenotesWord where
  sound := by
    intro input rest word hread
    unfold wordValue at hread
    split at hread
    · cases hread
    · rename_i n left hwhole
      split at hread
      · rename_i hlt
        obtain ⟨rfl, rfl⟩ := Prod.mk.inj (Except.ok.inj hread)
        obtain ⟨before, text, hinput, hbefore, htext⟩ := wholeValue_recognizes.sound hwhole
        refine ⟨before, text, hinput, hbefore, ?_⟩
        unfold DenotesWord
        rwa [UInt64.toNat_ofNat_of_lt' hlt]
      · cases hread
  complete := by
    intro before text rest word hbefore htext hrest
    unfold wordValue
    rw [wholeValue_recognizes.complete hbefore htext hrest]
    dsimp only
    rw [if_pos word.toNat_lt, UInt64.ofNat_toNat]
  solid := wholeValue_recognizes.solid

/-! ## Lists -/

/-- **The lists of a language**: its texts as items between square brackets. -/
def Listing (language : TextLanguage α) : TextLanguage (List α) := fun text values =>
  ∃ items body, text = ascii '[' :: body ∧ Items (ascii ']') true items body ∧
    List.Forall₂ language items values

/-- The values of a list, to its closing bracket. An element that takes nothing is none. -/
def readItems (read : Reader α) (first : Bool) (input : List UInt8) :
    Except Fault (List α × List UInt8) :=
  match nextElement first input with
  | .error fault => .error fault
  | .ok (.close rest) => .ok ([], rest)
  | .ok (.item rest) =>
    match read rest with
    | .error fault => .error fault
    | .ok (value, left) =>
      if left.length < input.length then
        match readItems read false left with
        | .error fault => .error fault
        | .ok (values, rest) => .ok (value :: values, rest)
      else stopPast .expectedValue rest
termination_by input.length

/-- **A list.** -/
def listValue (read : Reader α) : Reader (List α) := onValue fun b tail =>
  if b = ascii '[' then readItems read true tail else stopPast .expectedValue (b :: tail)

section Lists

variable {read : Reader α} {language : TextLanguage α} {values : List α}

/-- **What is read as items** are items of the language. -/
theorem readItems_sound (hread : read.Recognizes language)
    (h : readItems read first input = .ok (values, rest)) :
    ∃ items text, input = text ++ rest ∧ Items (ascii ']') first items text ∧
      List.Forall₂ language items values := by
  fun_induction readItems read first input generalizing values with
  | case1 => cases h
  | case2 first input left hahead =>
    obtain ⟨rfl, rfl⟩ := Prod.mk.inj (Except.ok.inj h)
    obtain ⟨before, hbefore, rfl⟩ := nextElement_close_iff.1 hahead
    refine ⟨[], before ++ [ascii ']'], ?_, .close hbefore, .nil⟩
    rw [List.append_assoc, List.cons_append, List.nil_append]
  | case3 => cases h
  | case4 => cases h
  | case5 first input item hahead value left hvalue _ others rest' hothers ih =>
    obtain ⟨rfl, rfl⟩ := Prod.mk.inj (Except.ok.inj h)
    obtain ⟨lead, hlead, rfl⟩ := nextElement_sound hahead
    obtain ⟨before, item, rfl, hbefore, hitem⟩ := hread.sound hvalue
    obtain ⟨items, text, rfl, htext, hitems⟩ := ih hothers
    refine ⟨item :: items, lead ++ before ++ (item ++ text), ?_,
      items_cons_iff.2 ⟨lead ++ before, text, hlead.append hbefore, rfl, htext⟩,
      .cons hitem hitems⟩
    simp only [List.append_assoc]
  | case6 => cases h

/-- **Items of the language** are read. -/
theorem readItems_complete (hread : read.Recognizes language) {items : List (List UInt8)}
    (hitems : List.Forall₂ language items values)
    (htext : Items (ascii ']') first items text) :
    readItems read first (text ++ rest) = .ok (values, rest) := by
  induction hitems generalizing first text with
  | nil =>
    obtain ⟨before, hbefore, rfl⟩ := items_nil_iff.1 htext
    have hclose : nextElement first (before ++ [ascii ']'] ++ rest) = .ok (.close rest) :=
      nextElement_close_iff.2 ⟨before, hbefore, by rw [List.append_assoc]; rfl⟩
    rw [readItems, hclose]
  | @cons item value items values hitem _ ih =>
    obtain ⟨lead, further, hlead, rfl, hfurther⟩ := items_cons_iff.1 htext
    have hsolid := hread.solid hitem
    have hvalue := hread.complete Blank.nil hitem (hfurther.endsNumeral (.inl rfl) rest)
    rw [List.nil_append] at hvalue
    have hshorter : (further ++ rest).length < (lead ++ (item ++ (further ++ rest))).length := by
      obtain ⟨b, tail, rfl, -⟩ := hsolid
      simp only [List.length_append, List.length_cons]
      omega
    rw [List.append_assoc, List.append_assoc, readItems, nextElement_complete hlead hsolid]
    dsimp only
    rw [hvalue]
    dsimp only
    rw [if_pos hshorter, ih hfurther]

/-- **Lists are read**, if their elements are. -/
theorem listValue_recognizes (hread : read.Recognizes language) :
    (listValue read).Recognizes (Listing language) := by
  refine onValue_recognizes ?_ ?_ ?_
  · intro b tail rest values _ h
    split at h
    · rename_i hbracket
      obtain ⟨items, text, rfl, htext, hitems⟩ := readItems_sound hread h
      exact ⟨ascii '[' :: text, by rw [hbracket, List.cons_append], items, text, rfl, htext, hitems⟩
    · cases h
  · rintro b tail rest values ⟨items, body, heq, htext, hitems⟩ _
    obtain ⟨rfl, rfl⟩ := List.cons.inj heq
    rw [if_pos rfl]
    exact readItems_complete hread hitems htext
  · rintro text values ⟨items, body, rfl, -⟩
    exact ⟨_, _, rfl, by decide, by decide⟩

end Lists

/-! ## Records -/

/-- **A known field** from the reader of its values and from its place in a draft. -/
def Known.of {β : Type} (name : String) {read : Reader β} {language : TextLanguage β}
    (hread : read.Recognizes language) (hleaves : read.Leaves) (get : δ → Option β)
    (set : δ → β → δ) (get_set : ∀ draft value, get (set draft value) = some value) : Known δ where
  field := ⟨name, fun draft => (get draft).isSome, fun draft => storing read (set draft),
    fun _ => storing_leaves hleaves _⟩
  Value := β
  language := language
  get := get
  set := set
  recognizes draft := storing_recognizes hread (set draft)
  seen_eq _ := rfl
  get_set := get_set

namespace Record.Grammar

variable {record : Record δ α}

/-- **The language of a record**: the texts whose entries fill a draft of it. -/
def language (grammar : record.Grammar) : TextLanguage α := fun text value =>
  ∃ entries last, RecordText grammar.names text entries ∧
    Fills grammar.fields record.blank entries last ∧ record.finish last = .ok value

/-- **Records are read**, wherever they stand. -/
theorem recognizes (grammar : record.Grammar) : record.read.Recognizes grammar.language where
  sound h := by
    obtain ⟨before, text, entries, last, hinput, hbefore, htext, hfills, hfinish⟩ :=
      grammar.read_sound h
    exact ⟨before, text, hinput, hbefore, entries, last, htext, hfills, hfinish⟩
  complete := by
    rintro before text rest value hbefore ⟨entries, last, htext, hfills, hfinish⟩ -
    exact grammar.read_complete hbefore htext hfills hfinish
  solid := by
    rintro text value ⟨entries, last, htext, -⟩
    cases htext with
    | object => exact ⟨_, _, rfl, by decide, by decide⟩
    | list => exact ⟨_, _, rfl, by decide, by decide⟩

end Record.Grammar

/-! ## Whole inputs -/

section Whole

variable {read : Reader α} {language : TextLanguage α} {value : α}

/-- **The whole inputs that are read** are the texts of the language, between white space. -/
theorem Reader.Recognizes.parse_eq_ok_iff (h : read.Recognizes language) :
    Reader.parse read input = .ok value ↔ ∃ before text after,
      input = before ++ (text ++ after) ∧ Blank before ∧ language text value ∧ Blank after := by
  rw [Reader.parse_eq_ok_iff]
  constructor
  · rintro ⟨after, hread, hafter⟩
    obtain ⟨before, text, hinput, hbefore, htext⟩ := h.sound hread
    exact ⟨before, text, after, hinput, hbefore, htext, hafter⟩
  · rintro ⟨before, text, after, rfl, hbefore, htext, hafter⟩
    have hends : EndsNumeral after := List.append_nil after ▸ hafter.endsNumeral .nil
    exact ⟨after, h.complete hbefore htext hends, hafter⟩

/-- **A text of the language is read as what it denotes.** -/
theorem Reader.Recognizes.parse_eq_ok (h : read.Recognizes language) (htext : language text value) :
    Reader.parse read text = .ok value :=
  h.parse_eq_ok_iff.2 ⟨[], text, [], (List.append_nil text).symm, .nil, htext, .nil⟩

end Whole

end ChunkSizing.Json
