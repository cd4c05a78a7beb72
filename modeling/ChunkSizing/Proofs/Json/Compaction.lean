import ChunkSizing.Proofs.Json.NumberText
import ChunkSizing.Proofs.Json.Rendering

/-!
# ChunkSizing.Proofs.Json.Compaction — the spacings differ in white space between tokens only.

`compacted` goes through a text, keeps track of where strings begin and end, and drops the white
space outside of them. The pieces of a document begin and end outside of strings, so what remains of
a document is what remains of its pieces (`CompactsTo.append`): all of an atom, nothing of what the
spacing adds. What remains of a document is therefore its compact text (`compactsTo_chars`).
-/

namespace ChunkSizing.Json

variable {text more compact : List Char}

/-! ## Strings within a text -/

/-- Where a character of a text stands. -/
inductive Standing where
  | outside
  | inside
  /-- Inside a string, behind a backslash that takes the character with it. -/
  | behindBackslash
deriving DecidableEq

/-- Where the character behind `c` stands. -/
def Standing.next (standing : Standing) (c : Char) : Standing :=
  match standing with
  | outside => if c = '"' then inside else outside
  | inside => if c = '"' then outside else if c = '\\' then behindBackslash else inside
  | behindBackslash => inside

/-- Where the character behind a text stands. -/
def Standing.behind (standing : Standing) (text : List Char) : Standing :=
  text.foldl Standing.next standing

/-- White space between tokens. -/
def isBlankChar (c : Char) : Bool := c == ' ' || c == '\n' || c == '\r' || c == '\t'

/-- **A text without the white space outside of its strings.** -/
def compacted (standing : Standing) : List Char → List Char
  | [] => []
  | c :: rest =>
    if standing = .outside ∧ isBlankChar c then compacted (standing.next c) rest
    else c :: compacted (standing.next c) rest

theorem compacted_append (standing : Standing) (text more : List Char) :
    compacted standing (text ++ more) =
      compacted standing text ++ compacted (standing.behind text) more := by
  induction text generalizing standing with
  | nil => rfl
  | cons c text ih =>
    rw [List.cons_append, compacted, compacted, ih]
    split <;> rfl

theorem behind_append (standing : Standing) (text more : List Char) :
    standing.behind (text ++ more) = (standing.behind text).behind more :=
  List.foldl_append

/-! ## Pieces of a text -/

/-- **A piece between tokens**: it begins and ends outside of strings, and this remains of it. -/
structure CompactsTo (text compact : List Char) : Prop where
  compacted_eq : compacted .outside text = compact
  behind_eq : Standing.outside.behind text = .outside

theorem CompactsTo.nil : CompactsTo [] [] := ⟨rfl, rfl⟩

theorem CompactsTo.append {compact' : List Char} (h : CompactsTo text compact)
    (h' : CompactsTo more compact') : CompactsTo (text ++ more) (compact ++ compact') := by
  refine ⟨?_, ?_⟩
  · rw [compacted_append, h.compacted_eq, h.behind_eq, h'.compacted_eq]
  · rw [behind_append, h.behind_eq, h'.behind_eq]

/-- Nothing remains of white space. -/
theorem compactsTo_blank (h : ∀ c ∈ text, isBlankChar c = true) : CompactsTo text [] := by
  induction text with
  | nil => exact .nil
  | cons c text ih =>
    obtain ⟨hc, htext⟩ := List.forall_mem_cons.1 h
    have hone : CompactsTo [c] [] := by
      have hnext : Standing.outside.next c = .outside := by
        refine if_neg ?_
        rintro rfl
        cases hc
      exact ⟨if_pos ⟨rfl, hc⟩, hnext⟩
    exact hone.append (ih htext)

/-- A character that is kept and opens no string. -/
def IsToken (c : Char) : Prop := c ≠ '"' ∧ isBlankChar c = false

/-- **All remains of tokens** that are no strings. -/
theorem compactsTo_tokens (h : ∀ c ∈ text, IsToken c) : CompactsTo text text := by
  induction text with
  | nil => exact .nil
  | cons c text ih =>
    obtain ⟨⟨hquote, hblank⟩, htext⟩ := List.forall_mem_cons.1 h
    have hone : CompactsTo [c] [c] := by
      refine ⟨if_neg ?_, if_neg hquote⟩
      rw [hblank]
      exact fun hkept => Bool.false_ne_true hkept.2
    exact hone.append (ih htext)

/-! ## Strings -/

theorem hexDigit_ne : ∀ n < 16, hexDigit n ≠ '"' ∧ hexDigit n ≠ '\\' := by decide

/-- **A character of a string** stays inside, whatever it takes to write it. -/
theorem compacted_escaped (c : Char) : compacted .inside (escaped c) = escaped c ∧
    Standing.inside.behind (escaped c) = .inside := by
  unfold escaped
  split
  · decide
  · decide
  · decide
  · decide
  · decide
  · decide
  · decide
  rename_i hquote hbackslash _ _ _ _ _
  split
  · rename_i hcontrol
    obtain ⟨hhigh, hhigh'⟩ := hexDigit_ne (c.toNat / 16) (by omega)
    obtain ⟨hlow, hlow'⟩ := hexDigit_ne (c.toNat % 16) (by omega)
    simp [compacted, Standing.behind, Standing.next, hhigh, hhigh', hlow, hlow']
  · have hne : c ≠ '"' ∧ c ≠ '\\' := ⟨hquote, hbackslash⟩
    simp [compacted, Standing.behind, Standing.next, hne.1, hne.2]

theorem compacted_flatMap_escaped (chars : List Char) :
    compacted .inside (chars.flatMap escaped) = chars.flatMap escaped ∧
      Standing.inside.behind (chars.flatMap escaped) = .inside := by
  induction chars with
  | nil => exact ⟨rfl, rfl⟩
  | cons c chars ih =>
    obtain ⟨hone, hbehind⟩ := compacted_escaped c
    rw [List.flatMap_cons, compacted_append, behind_append, hone, hbehind, ih.1, ih.2]
    exact ⟨rfl, rfl⟩

/-- **All remains of a string**, its own white space and quotes included. -/
theorem compactsTo_quote (chars : List Char) : CompactsTo (quote chars) (quote chars) := by
  obtain ⟨hbody, hbehind⟩ := compacted_flatMap_escaped chars
  have hquote : quote chars = ['"'] ++ (chars.flatMap escaped ++ ['"']) := rfl
  have hopen : Standing.outside.behind ['"'] = .inside := rfl
  refine ⟨?_, ?_⟩
  · rw [hquote, compacted_append, hopen, compacted_append, hbody, hbehind]
    rfl
  · rw [hquote, behind_append, hopen, behind_append, hbehind]
    rfl

/-! ## Atoms -/

theorem isToken_of_isDigit {c : Char} (h : c.isDigit = true) : IsToken c := by
  have hne (d : Char) (hd : d.isDigit = false) : c ≠ d := by
    rintro rfl
    rw [h] at hd
    cases hd
  refine ⟨hne '"' rfl, ?_⟩
  unfold isBlankChar
  rw [beq_eq_false_iff_ne.2 (hne ' ' rfl), beq_eq_false_iff_ne.2 (hne '\n' rfl),
    beq_eq_false_iff_ne.2 (hne '\r' rfl), beq_eq_false_iff_ne.2 (hne '\t' rfl)]
  rfl

/-- A numeral is digits, with signs, a point and a mark among them. -/
theorem isToken_of_mem_chars {written : Written} (h : written.WellFormed) :
    ∀ c ∈ written.chars, IsToken c := by
  have hdigits {digits : List Char} (hdigits : AreDigits digits) : ∀ c ∈ digits, IsToken c :=
    fun c hc => isToken_of_isDigit (hdigits c hc)
  have hminus : IsToken '-' := ⟨by decide, rfl⟩
  have hplus : IsToken '+' := ⟨by decide, rfl⟩
  have hpoint : IsToken '.' := ⟨by decide, rfl⟩
  have hmark : IsToken 'e' := ⟨by decide, rfl⟩
  unfold Written.chars
  simp only [List.forall_mem_append]
  refine ⟨⟨⟨?_, hdigits h.whole_digits⟩, ?_⟩, ?_⟩
  · split
    · exact List.forall_mem_singleton.2 hminus
    · exact nofun
  · unfold Written.fractionChars
    split
    · exact nofun
    · exact List.forall_mem_cons.2 ⟨hpoint, hdigits h.fraction_digits⟩
  · cases hexponent : written.exponent with
    | none => exact nofun
    | some exponent =>
      obtain ⟨negative, digits⟩ := exponent
      refine List.forall_mem_cons.2 ⟨hmark, List.forall_mem_cons.2 ⟨?_, ?_⟩⟩
      · cases negative with
        | false => exact hplus
        | true => exact hminus
      · exact hdigits (h.exponent_digits negative digits hexponent).2

/-- **All remains of an atom.** -/
theorem compactsTo_atom (atom : Atom) : CompactsTo atom.chars atom.chars := by
  cases atom with
  | text value => exact compactsTo_quote value.toList
  | integer value =>
    rw [Atom.chars, ← chars_writtenInteger]
    exact compactsTo_tokens (isToken_of_mem_chars (wellFormed_writtenInteger value))
  | number value =>
    rw [Atom.chars]
    split
    · rename_i hfinite
      obtain ⟨negative, rank, hrank, rfl⟩ := Binary64.exists_of_isFinite hfinite
      rw [← chars_writtenNumber negative hrank]
      exact compactsTo_tokens (isToken_of_mem_chars (wellFormed_writtenNumber negative hrank))
    · exact ⟨rfl, rfl⟩

/-! ## Blocks -/

/-- Nothing remains of the start of a line. -/
theorem compactsTo_line (spacing : Spacing) (depth : Nat) : CompactsTo (spacing.line depth) [] := by
  cases spacing with
  | compact => exact .nil
  | pretty =>
    refine compactsTo_blank (List.forall_mem_cons.2 ⟨rfl, fun c hc => ?_⟩)
    rw [List.eq_of_mem_replicate hc]
    rfl

theorem compactsTo_colon (spacing : Spacing) : CompactsTo spacing.colon Spacing.compact.colon := by
  cases spacing <;> exact ⟨rfl, rfl⟩

theorem compactsTo_flatMap {items compacts : List (List Char)}
    (h : List.Forall₂ CompactsTo items compacts) :
    CompactsTo (items.flatMap (',' :: ·)) (compacts.flatMap (',' :: ·)) := by
  have hcomma : CompactsTo [','] [','] := ⟨rfl, rfl⟩
  induction h with
  | nil => exact .nil
  | cons hitem _ ih => exact (hcomma.append hitem).append ih

/-- **A block of items that compact is the compact block of what remains of them.** -/
theorem compactsTo_block {items compacts : List (List Char)} {opening closing : Char}
    (hopening : IsToken opening) (hclosing : IsToken closing) (spacing : Spacing) (depth : Nat)
    (h : List.Forall₂ CompactsTo items compacts) :
    CompactsTo (spacing.block depth opening closing items)
      (Spacing.compact.block depth opening closing compacts) := by
  have hopen : CompactsTo [opening] [opening] :=
    compactsTo_tokens (List.forall_mem_singleton.2 hopening)
  have hclose : CompactsTo [closing] [closing] :=
    compactsTo_tokens (List.forall_mem_singleton.2 hclosing)
  unfold Spacing.block
  cases h with
  | nil => exact hopen.append hclose
  | @cons item compact items compacts hitem hitems =>
    have hline (depth : Nat) : CompactsTo (spacing.line depth) (Spacing.compact.line depth) :=
      compactsTo_line spacing depth
    have hlines : List.Forall₂ CompactsTo (items.map (spacing.line (depth + 1) ++ ·))
        (compacts.map (Spacing.compact.line (depth + 1) ++ ·)) := by
      rw [List.forall₂_map_left_iff, List.forall₂_map_right_iff]
      exact hitems.imp fun _ _ hitem => (hline _).append hitem
    simp only [List.isEmpty_cons, Bool.false_eq_true, if_false, List.map_cons, intercalate_cons]
    have hall := ((hline (depth + 1)).append hitem).append (compactsTo_flatMap hlines)
    exact ((hopen.append hall).append (hline depth)).append hclose

/-! ## Documents -/

theorem compactsTo_record (spacing : Spacing) (depth : Nat) (members : Members) :
    CompactsTo (spacing.record depth members) (Spacing.compact.record depth members) := by
  refine compactsTo_block ⟨by decide, rfl⟩ ⟨by decide, rfl⟩ spacing depth ?_
  rw [List.forall₂_map_left_iff, List.forall₂_map_right_iff, List.forall₂_same]
  intro member _
  exact ((compactsTo_quote _).append (compactsTo_colon spacing)).append (compactsTo_atom member.2)

/-- **A document without white space outside of its strings** is its compact text. -/
theorem compactsTo_chars (spacing : Spacing) (document : Document) :
    CompactsTo (document.chars spacing) (document.chars .compact) := by
  cases document with
  | record members => exact compactsTo_record spacing 0 members
  | table rows =>
    refine compactsTo_block ⟨by decide, rfl⟩ ⟨by decide, rfl⟩ spacing 0 ?_
    rw [List.forall₂_map_left_iff, List.forall₂_map_right_iff, List.forall₂_same]
    exact fun row _ => compactsTo_record spacing 1 row

-- White space inside a string stays, also behind a quote that is part of the string.
example : compacted .outside "\x7b \"a \\\" b\" :\n1 \x7d".toList =
    "\x7b\"a \\\" b\":1\x7d".toList := by decide +kernel

end ChunkSizing.Json
