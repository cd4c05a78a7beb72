import ChunkSizing.Proofs.Json.NumberText
import ChunkSizing.Proofs.Json.Rendering

/-!
# ChunkSizing.Proofs.Json.Document — what is written is JSON.

Every document is one value of the grammar, in either spacing (`isValue_chars`): its atoms are, a
record is an object of them, and a table is a list of records.
-/

namespace ChunkSizing.Json

/-! ## Atoms -/

theorem isValue_text (value : String) : IsValue (Utf8.encode (Atom.text value).chars) := by
  rw [Atom.chars, ← List.append_nil (Utf8.encode _), encode_quote]
  exact .text (unescapes_flatMap_escaped value.toList)

theorem isValue_integer (value : Int) : IsValue (Utf8.encode (Atom.integer value).chars) := by
  obtain ⟨_, hspells, -⟩ := spells_integer value
  exact .numeral hspells

theorem isValue_number (value : Binary64) : IsValue (Utf8.encode (Atom.number value).chars) := by
  cases hfinite : value.isFinite with
  | true =>
    obtain ⟨_, hspells, -⟩ := denotesNumber_chars hfinite
    exact .numeral hspells
  | false =>
    rw [encode_chars_of_not_isFinite hfinite]
    exact .word List.mem_cons_self

/-- **An atom is a value.** -/
theorem isValue_atom (atom : Atom) : IsValue (Utf8.encode atom.chars) := by
  cases atom with
  | text value => exact isValue_text value
  | integer value => exact isValue_integer value
  | number value => exact isValue_number value

/-! ## Documents -/

theorem isLoose_writtenMember (spacing : Spacing) (member : String × Atom) :
    (writtenMember spacing member).IsLoose where
  beforeColon := Blank.nil
  afterColon := blank_afterColon spacing
  key := ⟨_, unescapes_flatMap_escaped member.1.toList⟩

theorem isValue_record (spacing : Spacing) (depth : Nat) (members : Members) :
    IsValue (Utf8.encode (spacing.record depth members)) := by
  obtain ⟨chars, hrecord, hitems⟩ := exists_items_record spacing depth members
  rw [hrecord, Utf8.encode_cons]
  refine .object ?_ ?_ hitems
  · intro written hmem
    obtain ⟨member, -, rfl⟩ := List.mem_map.1 hmem
    exact isLoose_writtenMember spacing member
  · intro written hmem
    obtain ⟨member, -, rfl⟩ := List.mem_map.1 hmem
    exact isValue_atom member.2

theorem isValue_table (spacing : Spacing) (rows : List Members) :
    IsValue (Utf8.encode ((Document.table rows).chars spacing)) := by
  obtain ⟨chars, hblock, hitems⟩ := exists_items_block spacing 0 '['
    (show Utf8.encode [']'] = [ascii ']'] from rfl) (rows.map (spacing.record 1))
  rw [Document.chars, hblock, Utf8.encode_cons]
  refine .list ?_ hitems
  intro item hmem
  obtain ⟨_, hrecord, rfl⟩ := List.mem_map.1 hmem
  obtain ⟨members, -, rfl⟩ := List.mem_map.1 hrecord
  exact isValue_record spacing 1 members

/-- **A document is one value**, in either spacing. -/
theorem isValue_chars (spacing : Spacing) (document : Document) :
    IsValue (Utf8.encode (document.chars spacing)) := by
  cases document with
  | record members => exact isValue_record spacing 0 members
  | table rows => exact isValue_table spacing rows

theorem isValue_render (spacing : Spacing) (document : Document) :
    IsValue (Utf8.ofString (document.render spacing)) := by
  unfold Document.render Utf8.ofString
  rw [String.toList_ofList]
  exact isValue_chars spacing document

end ChunkSizing.Json
