import ChunkSizing.Json.Kinds
import ChunkSizing.Proofs.Json.Grammar
import ChunkSizing.Proofs.Json.Value

/-!
# ChunkSizing.Proofs.Json.Denotation — what the texts of values denote.

A value of a wanted kind has a language of its own: texts with what they denote. A reader
`Recognizes` a language if it reads those texts and no others, behind white space and in front of
anything that cannot go on with a numeral. There is one law for each kind, and one for each way in
which readers are made from others, so that the fields of a record need no proof of their own.
-/

namespace ChunkSizing.Json

variable {α δ : Type} {b : UInt8} {input rest tail text : List UInt8}

/-- A language of texts that denote. -/
abbrev TextLanguage (α : Type) := List UInt8 → α → Prop

/-- **A reader of a language.** -/
structure Reader.Recognizes (read : Reader α) (language : TextLanguage α) : Prop where
  sound : ∀ {input rest value}, read input = .ok (value, rest) →
    ∃ before text, input = before ++ (text ++ rest) ∧ Blank before ∧ language text value
  complete : ∀ {before text rest value}, Blank before → language text value → EndsNumeral rest →
    read (before ++ (text ++ rest)) = .ok (value, rest)
  solid : ∀ {text value}, language text value → Solid text

/-- A text of a language that is read denotes one value. -/
theorem Reader.Recognizes.eq_of_language {read : Reader α} {language : TextLanguage α}
    (h : read.Recognizes language) {value value' : α} (htext : language text value)
    (htext' : language text value') : value = value' := by
  have hread : read ([] ++ (text ++ [])) = .ok (value, []) := h.complete Blank.nil htext .nil
  rw [h.complete Blank.nil htext' .nil] at hread
  exact (Prod.mk.inj (Except.ok.inj hread)).1.symm

/-! ## Languages -/

/-- The integers of 64 bits. -/
def DenotesInteger : TextLanguage Int64 := fun text value =>
  ∃ numeral, Spells text numeral ∧ numeral.IsInteger value.toInt

/-- The numbers, each as its numeral denotes it. -/
def DenotesNumber : TextLanguage Binary64 := fun text value =>
  ∃ numeral, Spells text numeral ∧ numeral.Denotes value

/-- The strings. -/
def DenotesText : TextLanguage String := fun text value =>
  ∃ raw, text = ascii '"' :: (raw ++ [ascii '"']) ∧ SpellsText raw value

/-- **An optional value**: `null` is an absent one. -/
def Optionally (language : TextLanguage α) : TextLanguage (Option α) := fun text value? =>
  (text = nullWord ∧ value? = none) ∨ ∃ value, language text value ∧ value? = some value

/-- A language whose values are stored. -/
def Storing (language : TextLanguage α) (store : α → δ) : TextLanguage δ := fun text stored =>
  ∃ value, language text value ∧ store value = stored

/-! ## Readers made from others -/

theorem onValue_recognizes {read : UInt8 → Reader α} {language : TextLanguage α}
    (hsound : ∀ {b tail rest value}, isBlank b = false → read b tail = .ok (value, rest) →
      ∃ text, b :: tail = text ++ rest ∧ language text value)
    (hcomplete : ∀ {b tail rest value}, language (b :: tail) value → EndsNumeral rest →
      read b (tail ++ rest) = .ok (value, rest))
    (hsolid : ∀ {text value}, language text value → Solid text) :
    (onValue read).Recognizes language where
  sound := by
    intro input rest value h
    unfold onValue at h
    split at h
    · cases h
    · rename_i b tail hblank
      obtain ⟨before, rfl, hbefore, hb⟩ := exists_blank hblank
      obtain ⟨text, hinput, htext⟩ := hsound hb h
      exact ⟨before, text, by rw [hinput], hbefore, htext⟩
  complete := by
    intro before text rest value hbefore htext hrest
    obtain ⟨b, tail, rfl, hb, -⟩ := hsolid htext
    unfold onValue
    rw [skipBlank_append hbefore, List.cons_append, skipBlank_cons _ hb]
    exact hcomplete htext hrest
  solid := hsolid

theorem storing_recognizes {read : Reader α} {language : TextLanguage α}
    (h : read.Recognizes language) (store : α → δ) :
    (storing read store).Recognizes (Storing language store) where
  sound := by
    intro input rest stored hread
    unfold storing at hread
    split at hread
    · cases hread
    · rename_i value left hvalue
      obtain ⟨rfl, rfl⟩ := Prod.mk.inj (Except.ok.inj hread)
      obtain ⟨before, text, hinput, hbefore, htext⟩ := h.sound hvalue
      exact ⟨before, text, hinput, hbefore, value, htext, rfl⟩
  complete := by
    rintro before text rest _ hbefore ⟨value, htext, rfl⟩ hrest
    unfold storing
    rw [h.complete hbefore htext hrest]
  solid := by
    rintro text _ ⟨value, htext, rfl⟩
    exact h.solid htext

/-- A language without `null` can be made optional. -/
theorem optional_recognizes {read : Reader α} {language : TextLanguage α}
    (h : read.Recognizes language)
    (hnull : ∀ {text value}, language text value → text.head? ≠ some (ascii 'n')) :
    (optional read).Recognizes (Optionally language) := by
  refine onValue_recognizes ?_ ?_ ?_
  · intro b tail rest value? hb hread
    split at hread
    · rename_i hn
      split at hread
      · cases hread
      · rename_i left hword
        obtain ⟨rfl, rfl⟩ := Prod.mk.inj (Except.ok.inj hread)
        refine ⟨nullWord, ?_, .inl ⟨rfl, rfl⟩⟩
        rw [hn, word_eq_ok_iff.1 hword]
        rfl
    · split at hread
      · cases hread
      · rename_i value left hvalue
        obtain ⟨rfl, rfl⟩ := Prod.mk.inj (Except.ok.inj hread)
        obtain ⟨before, text, hinput, hbefore, htext⟩ := h.sound hvalue
        cases before with
        | nil => exact ⟨text, hinput, .inr ⟨value, htext, rfl⟩⟩
        | cons c before =>
          obtain ⟨rfl, -⟩ := List.cons.inj hinput
          rw [hbefore b List.mem_cons_self] at hb
          cases hb
  · rintro b tail rest value? (⟨hword, rfl⟩ | ⟨value, htext, rfl⟩) hrest
    · obtain ⟨rfl, rfl⟩ := List.cons.inj hword
      have hread : word nullTail (nullTail ++ rest) = .ok ((), rest) := word_eq_ok_iff.2 rfl
      rw [if_pos rfl, hread]
    · have hn : b ≠ ascii 'n' := by
        rintro rfl
        exact hnull htext rfl
      have hread := h.complete Blank.nil htext hrest
      rw [List.nil_append, List.cons_append] at hread
      rw [if_neg hn, hread]
  · rintro text value? (⟨rfl, rfl⟩ | ⟨value, htext, rfl⟩)
    · exact ⟨_, _, rfl, by decide, by decide⟩
    · exact h.solid htext

/-! ## Strings -/

theorem textValue_recognizes : textValue.Recognizes DenotesText := by
  refine onValue_recognizes ?_ ?_ ?_
  · intro b tail rest value _ hread
    split at hread
    · rename_i hquote
      obtain ⟨raw, rfl, hraw⟩ := text_eq_ok_iff.1 hread
      refine ⟨_, ?_, raw, rfl, hraw⟩
      rw [hquote, List.cons_append, List.append_assoc]
      rfl
    · exact absurd hread mismatch_ne_ok
  · rintro b tail rest value ⟨raw, htext, hraw⟩ _
    obtain ⟨rfl, rfl⟩ := List.cons.inj htext
    rw [if_pos rfl, List.append_assoc]
    exact text_eq_ok_iff.2 ⟨raw, rfl, hraw⟩
  · rintro _ value ⟨raw, rfl, hraw⟩
    exact ⟨_, _, rfl, by decide, by decide⟩

theorem DenotesText.head?_ne {value : String} (h : DenotesText text value) :
    text.head? ≠ some (ascii 'n') := by
  obtain ⟨raw, rfl, -⟩ := h
  exact fun hhead => absurd (Option.some.inj hhead) (by decide)

/-! ## Numerals -/

theorem number_sound {value : Value} (h : number input = .ok (value, rest)) :
    ∃ text numeral, input = text ++ rest ∧ Spells text numeral ∧ numeral.value = .ok value := by
  unfold number at h
  split at h
  · cases h
  · rename_i numeral left hnumeral
    split at h
    · rename_i hvalue
      obtain ⟨rfl, rfl⟩ := Prod.mk.inj (Except.ok.inj h)
      obtain ⟨text, hinput, htext⟩ := numeral_sound hnumeral
      exact ⟨text, numeral, hinput, htext, hvalue⟩
    · cases h

theorem number_complete {numeral : Numeral} {value : Value} (h : Spells text numeral)
    (hvalue : numeral.value = .ok value) (hrest : EndsNumeral rest) :
    number (text ++ rest) = .ok (value, rest) := by
  unfold number
  rw [numeral_complete h hrest]
  simp only [hvalue]

theorem DenotesNumber.head?_ne {value : Binary64} (h : DenotesNumber text value) :
    text.head? ≠ some (ascii 'n') := by
  obtain ⟨numeral, htext, -⟩ := h
  exact htext.head?_ne (by decide) (by decide)

/-- **Integers are read.** -/
theorem integerValue_recognizes : integerValue.Recognizes DenotesInteger := by
  refine onValue_recognizes ?_ ?_ ?_
  · intro b tail rest value _ hread
    split at hread
    · split at hread
      · cases hread
      · rename_i found left hnumber
        split at hread
        · rename_i hrange
          obtain ⟨rfl, rfl⟩ := Prod.mk.inj (Except.ok.inj hread)
          obtain ⟨text, numeral, hinput, htext, hvalue⟩ := number_sound hnumber
          have hlow : -2 ^ 63 ≤ found := hrange.1
          have hhigh : found ≤ 2 ^ 63 - 1 := hrange.2
          refine ⟨text, hinput, numeral, htext, ?_⟩
          rw [Int64.toInt_ofInt_of_le hlow (by omega)]
          exact Numeral.isInteger_of_value hvalue
        · cases hread
      · cases hread
    · exact absurd hread mismatch_ne_ok
  · rintro b tail rest value ⟨numeral, htext, hinteger⟩ hrest
    have hlow := value.le_toInt
    have hhigh := value.toInt_lt
    have hrange : Int64.minValue.toInt ≤ value.toInt ∧ value.toInt ≤ Int64.maxValue.toInt :=
      ⟨hlow, Int.le_of_lt_add_one hhigh⟩
    have hread := number_complete htext (hinteger.value_eq_ok hlow hhigh) hrest
    obtain ⟨_, _, heq, hb⟩ := htext.exists_cons
    obtain ⟨rfl, rfl⟩ := List.cons.inj heq
    rw [List.cons_append] at hread
    rw [if_pos hb, hread]
    simp only [if_pos hrange, Int64.ofInt_toInt]
  · rintro text value ⟨numeral, htext, -⟩
    exact htext.solid

/-- **Numbers are read.** -/
theorem numberValue_recognizes : numberValue.Recognizes DenotesNumber := by
  refine onValue_recognizes ?_ ?_ ?_
  · intro b tail rest value _ hread
    split at hread
    · split at hread
      · cases hread
      · rename_i found left hnumber
        obtain ⟨rfl, rfl⟩ := Prod.mk.inj (Except.ok.inj hread)
        obtain ⟨text, numeral, hinput, htext, hvalue⟩ := number_sound hnumber
        refine ⟨text, hinput, numeral, htext, Numeral.number?_eq_some_iff.1 ?_⟩
        rw [Numeral.number?, hvalue]
      · rename_i found left hnumber
        obtain ⟨rfl, rfl⟩ := Prod.mk.inj (Except.ok.inj hread)
        obtain ⟨text, numeral, hinput, htext, hvalue⟩ := number_sound hnumber
        refine ⟨text, hinput, numeral, htext, Numeral.number?_eq_some_iff.1 ?_⟩
        rw [Numeral.number?, hvalue]
    · exact absurd hread mismatch_ne_ok
  · rintro b tail rest value ⟨numeral, htext, hvalue⟩ hrest
    obtain ⟨_, _, heq, hb⟩ := htext.exists_cons
    obtain ⟨rfl, rfl⟩ := List.cons.inj heq
    rw [if_pos hb]
    rw [← Numeral.number?_eq_some_iff, Numeral.number?] at hvalue
    split at hvalue
    · rename_i found hfound
      obtain rfl := Option.some.inj hvalue
      rw [← List.cons_append, number_complete htext hfound hrest]
    · rename_i found hfound
      obtain rfl := Option.some.inj hvalue
      rw [← List.cons_append, number_complete htext hfound hrest]
    · cases hvalue
  · rintro text value ⟨numeral, htext, -⟩
    exact htext.solid

end ChunkSizing.Json
