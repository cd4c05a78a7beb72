import ChunkSizing.Proofs.Json.Spelling
import ChunkSizing.Proofs.Json.Unescape

/-!
# ChunkSizing.Proofs.Json.Grammar — JSON values as texts.

The grammar speaks of byte sequences alone; no reader occurs in it. `Items` is what stands between
two brackets, `Member` a key with its value, and `IsValue` a whole value, nested however deeply.
Strings and numerals within a value are looked at for their form only.
-/

namespace ChunkSizing.Json

variable {b close : UInt8} {first : Bool} {before lead text input rest tail : List UInt8}

/-! ## White space -/

/-- White space, or nothing. -/
def Blank (bytes : List UInt8) : Prop := ∀ b ∈ bytes, isBlank b = true

theorem Blank.nil : Blank [] := nofun

theorem Blank.append {front back : List UInt8} (hfront : Blank front) (hback : Blank back) :
    Blank (front ++ back) := by
  intro b hb
  rcases List.mem_append.1 hb with hb | hb
  · exact hfront b hb
  · exact hback b hb

theorem skipBlank_append (h : Blank before) (rest : List UInt8) :
    skipBlank (before ++ rest) = skipBlank rest :=
  List.dropWhile_append_of_pos h

theorem skipBlank_cons (tail : List UInt8) (h : isBlank b = false) :
    skipBlank (b :: tail) = b :: tail :=
  List.dropWhile_cons_of_neg (Bool.eq_false_iff.1 h)

/-- The white space that was passed over. -/
theorem exists_blank (h : skipBlank input = b :: tail) :
    ∃ before, input = before ++ b :: tail ∧ Blank before ∧ isBlank b = false := by
  refine ⟨input.takeWhile isBlank, ?_, fun c hc => List.mem_takeWhile_imp hc, ?_⟩
  · rw [← h]
    exact List.takeWhile_append_dropWhile.symm
  · have hhead := List.head?_dropWhile_not isBlank input
    unfold skipBlank at h
    rw [h] at hhead
    exact hhead

/-! ## Words -/

/-- `null`. -/
def nullWord : List UInt8 := ascii 'n' :: nullTail

/-- The values that are words. -/
def words : List (List UInt8) := [nullWord, ascii 't' :: trueTail, ascii 'f' :: falseTail]

theorem word_eq_ok_iff {letters : List UInt8} :
    word letters input = .ok ((), rest) ↔ input = letters ++ rest := by
  induction letters generalizing input with
  | nil => simp [word]
  | cons letter letters ih =>
    cases input with
    | nil => simp [word, stopAt]
    | cons b tail =>
      rw [word, List.cons_append, List.cons.injEq]
      split
      · rename_i hb
        rw [ih, and_iff_right hb]
      · rename_i hb
        simp [stopAt, hb]

/-! ## Between brackets -/

/-- **Items and their closing bracket.** Between two items there is a comma, and white space may
stand around everything. The flag tells whether the first item, without a comma, is still to come.
-/
inductive Items (close : UInt8) : Bool → List (List UInt8) → List UInt8 → Prop where
  | close {first : Bool} {before : List UInt8} (hbefore : Blank before) :
      Items close first [] (before ++ [close])
  | first {before item rest : List UInt8} {items : List (List UInt8)} (hbefore : Blank before)
      (hrest : Items close false items rest) :
      Items close true (item :: items) (before ++ (item ++ rest))
  | next {before after item rest : List UInt8} {items : List (List UInt8)}
      (hbefore : Blank before) (hafter : Blank after) (hrest : Items close false items rest) :
      Items close false (item :: items) (before ++ ascii ',' :: (after ++ (item ++ rest)))

/-- **What stands in front of an item**: a comma, unless it is the first. -/
inductive Lead : Bool → List UInt8 → Prop where
  | first {before : List UInt8} (hbefore : Blank before) : Lead true before
  | next {before after : List UInt8} (hbefore : Blank before) (hafter : Blank after) :
      Lead false (before ++ ascii ',' :: after)

theorem Lead.append (h : Lead first lead) (hbefore : Blank before) :
    Lead first (lead ++ before) := by
  cases h with
  | first hlead => exact .first (hlead.append hbefore)
  | next hlead hafter =>
    rw [List.append_assoc, List.cons_append]
    exact .next hlead (hafter.append hbefore)

theorem items_cons_iff {item : List UInt8} {items : List (List UInt8)} :
    Items close first (item :: items) text ↔
      ∃ lead further, Lead first lead ∧ text = lead ++ (item ++ further) ∧
        Items close false items further := by
  constructor
  · intro h
    cases h with
    | first hbefore hrest => exact ⟨_, _, .first hbefore, rfl, hrest⟩
    | next hbefore hafter hrest =>
      refine ⟨_, _, .next hbefore hafter, ?_, hrest⟩
      rw [List.append_assoc, List.cons_append]
  · rintro ⟨lead, further, hlead, rfl, hrest⟩
    cases hlead with
    | first hbefore => exact .first hbefore hrest
    | next hbefore hafter =>
      rw [List.append_assoc, List.cons_append]
      exact .next hbefore hafter hrest

theorem items_nil_iff : Items close first [] text ↔
    ∃ before, Blank before ∧ text = before ++ [close] := by
  constructor
  · intro h
    cases h with
    | close hbefore => exact ⟨_, hbefore, rfl⟩
  · rintro ⟨before, hbefore, rfl⟩
    exact .close hbefore

/-- White space is no part of a numeral. -/
theorem Blank.endsNumeral (h : Blank before) (hrest : EndsNumeral rest) :
    EndsNumeral (before ++ rest) := by
  cases before with
  | nil => exact hrest
  | cons d before =>
    intro c hc
    obtain rfl := Option.some.inj hc
    have hd := h d List.mem_cons_self
    unfold isBlank at hd
    simp only [Bool.or_eq_true, beq_iff_eq] at hd
    rcases hd with ((rfl | rfl) | rfl) | rfl <;> decide

/-- What stands behind an item is no part of a numeral. -/
theorem Items.endsNumeral {close : UInt8} {items : List (List UInt8)}
    (hclose : close = ascii ']' ∨ close = ascii '\x7d') (h : Items close false items text)
    (rest : List UInt8) : EndsNumeral (text ++ rest) := by
  have hends {b : UInt8} {tail : List UInt8}
      (hb : b = ascii ',' ∨ b = ascii ']' ∨ b = ascii '\x7d') : EndsNumeral (b :: tail) := by
    intro c hc
    obtain rfl := Option.some.inj hc
    rcases hb with rfl | rfl | rfl <;> decide
  cases h with
  | close hbefore =>
    rw [List.append_assoc]
    exact hbefore.endsNumeral (hends (.inr hclose))
  | next hbefore =>
    rw [List.append_assoc, List.cons_append]
    exact hbefore.endsNumeral (hends (.inl rfl))

/-- A key with its value. -/
structure Member where
  /-- What stands between the quotes. -/
  key : List UInt8
  beforeColon : List UInt8
  afterColon : List UInt8
  value : List UInt8

namespace Member

/-- The member as it stands in an object. -/
def bytes (member : Member) : List UInt8 :=
  ascii '"' :: (member.key ++ ascii '"' :: (member.beforeColon ++ ascii ':' ::
    (member.afterColon ++ member.value)))

/-- Only white space stands around the colon. -/
structure IsSpaced (member : Member) : Prop where
  beforeColon : Blank member.beforeColon
  afterColon : Blank member.afterColon

/-- A member whose key is checked for form only. -/
structure IsLoose (member : Member) : Prop extends member.IsSpaced where
  key : ∃ bytes, Unescapes .skipped member.key bytes

end Member

/-! ## Values -/

/-- **The text of a value.** -/
inductive IsValue : List UInt8 → Prop where
  | word {text : List UInt8} (h : text ∈ words) : IsValue text
  | numeral {text : List UInt8} {numeral : Numeral} (h : Spells text numeral) : IsValue text
  | text {raw bytes : List UInt8} (h : Unescapes .skipped raw bytes) :
      IsValue (ascii '"' :: (raw ++ [ascii '"']))
  | list {items : List (List UInt8)} {text : List UInt8} (hitems : ∀ item ∈ items, IsValue item)
      (htext : Items (ascii ']') true items text) : IsValue (ascii '[' :: text)
  | object {members : List Member} {text : List UInt8}
      (hmembers : ∀ member ∈ members, member.IsLoose)
      (hvalues : ∀ member ∈ members, IsValue member.value)
      (htext : Items (ascii '\x7d') true (members.map Member.bytes) text) :
      IsValue (ascii '\x7b' :: text)

/-- A text that does not begin with white space or a closing bracket. -/
def Solid (text : List UInt8) : Prop :=
  ∃ b tail, text = b :: tail ∧ isBlank b = false ∧ b ≠ ascii ']'

/-- What a numeral does not begin with. -/
theorem ne_of_numeral {c : UInt8} (h : b = ascii '-' ∨ isDigit b = true) (hminus : c ≠ ascii '-')
    (hdigit : isDigit c = false) : b ≠ c := by
  rintro rfl
  rcases h with rfl | h
  · exact hminus rfl
  · rw [hdigit] at h
    cases h

theorem isBlank_of_numeral (h : b = ascii '-' ∨ isDigit b = true) : isBlank b = false := by
  unfold isBlank
  rw [beq_eq_false_iff_ne.2 (ne_of_numeral h (by decide) (by decide)),
    beq_eq_false_iff_ne.2 (ne_of_numeral h (by decide) (by decide)),
    beq_eq_false_iff_ne.2 (ne_of_numeral h (by decide) (by decide)),
    beq_eq_false_iff_ne.2 (ne_of_numeral h (by decide) (by decide))]
  rfl

theorem Spells.head?_ne {numeral : Numeral} {c : UInt8} (h : Spells text numeral)
    (hminus : c ≠ ascii '-') (hdigit : isDigit c = false) : text.head? ≠ some c := by
  obtain ⟨b, tail, rfl, hb⟩ := h.exists_cons
  exact fun hhead => ne_of_numeral hb hminus hdigit (Option.some.inj hhead)

theorem Spells.solid {numeral : Numeral} (h : Spells text numeral) : Solid text := by
  obtain ⟨b, tail, rfl, hb⟩ := h.exists_cons
  exact ⟨b, tail, rfl, isBlank_of_numeral hb, ne_of_numeral hb (by decide) (by decide)⟩

theorem IsValue.solid (h : IsValue text) : Solid text := by
  cases h with
  | word h =>
    simp only [words, List.mem_cons, List.not_mem_nil, or_false] at h
    rcases h with rfl | rfl | rfl
    · exact ⟨_, _, rfl, by decide, by decide⟩
    · exact ⟨_, _, rfl, by decide, by decide⟩
    · exact ⟨_, _, rfl, by decide, by decide⟩
  | numeral h => exact h.solid
  | text h => exact ⟨_, _, rfl, by decide, by decide⟩
  | list => exact ⟨_, _, rfl, by decide, by decide⟩
  | object => exact ⟨_, _, rfl, by decide, by decide⟩

end ChunkSizing.Json
