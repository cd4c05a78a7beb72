import ChunkSizing.Json.Document
import ChunkSizing.Proofs.Json.Entries
import ChunkSizing.Proofs.Json.Quoted

/-!
# ChunkSizing.Proofs.Json.Rendering — a document is a text of a record.

Both spacings put white space and commas between the members where the grammar allows them, so the
text of a record holds the entries that the record has: its keys with the texts of its atoms.
-/

namespace ChunkSizing.Json

variable {rest : List UInt8}

/-! ## White space -/

theorem blank_replicate (count : Nat) : Blank (Utf8.encode (List.replicate count ' ')) := by
  induction count with
  | zero => exact Blank.nil
  | succ count ih =>
    rw [List.replicate_succ, Utf8.encode_cons]
    exact Blank.append (List.forall_mem_singleton.2 rfl) ih

theorem blank_line (spacing : Spacing) (depth : Nat) :
    Blank (Utf8.encode (spacing.line depth)) := by
  cases spacing with
  | compact => exact Blank.nil
  | pretty =>
    rw [Spacing.line, Utf8.encode_cons]
    exact Blank.append (List.forall_mem_singleton.2 rfl) (blank_replicate _)

/-- The white space behind a colon. -/
def Spacing.afterColon : Spacing → List UInt8
  | compact => []
  | pretty => [ascii ' ']

theorem blank_afterColon (spacing : Spacing) : Blank spacing.afterColon := by
  cases spacing with
  | compact => exact Blank.nil
  | pretty => exact List.forall_mem_singleton.2 rfl

theorem encode_colon (spacing : Spacing) :
    Utf8.encode spacing.colon = ascii ':' :: spacing.afterColon := by
  cases spacing <;> rfl

/-! ## Items -/

/-- Items with commas between them: each but the first has a comma in front. -/
theorem intercalate_cons (item : List Char) (items : List (List Char)) :
    List.intercalate [','] (item :: items) = item ++ items.flatMap (',' :: ·) := by
  induction items generalizing item with
  | nil => simp [List.intercalate]
  | cons next items ih =>
    rw [List.intercalate_cons_cons, ih, List.append_assoc, List.flatMap_cons]
    rfl

section Items

variable {closing : Char} {close : UInt8} {line last : List Char}

/-- The items behind the first, and the closing bracket. -/
theorem items_flatMap (hclosing : Utf8.encode [closing] = [close])
    (hline : Blank (Utf8.encode line)) (hlast : Blank (Utf8.encode last))
    (items : List (List Char)) : Items close false (items.map Utf8.encode)
      (Utf8.encode ((items.map (line ++ ·)).flatMap (',' :: ·) ++ (last ++ [closing]))) := by
  induction items with
  | nil =>
    show Items close false [] (Utf8.encode (last ++ [closing]))
    rw [Utf8.encode_append, hclosing]
    exact .close hlast
  | cons item items ih =>
    have hsplit : Utf8.encode (((item :: items).map (line ++ ·)).flatMap (',' :: ·) ++
        (last ++ [closing])) = [] ++ ascii ',' :: (Utf8.encode line ++ (Utf8.encode item ++
          Utf8.encode ((items.map (line ++ ·)).flatMap (',' :: ·) ++ (last ++ [closing])))) := by
      simp only [List.map_cons, List.flatMap_cons, List.cons_append, List.append_assoc,
        Utf8.encode_cons, Utf8.encode_append]
      rfl
    rw [hsplit]
    exact .next .nil hline ih

/-- **Items between brackets**, from behind the opening one. -/
theorem exists_items_block (spacing : Spacing) (depth : Nat) (opening : Char)
    (hclosing : Utf8.encode [closing] = [close]) (items : List (List Char)) :
    ∃ chars, spacing.block depth opening closing items = opening :: chars ∧
      Items close true (items.map Utf8.encode) (Utf8.encode chars) := by
  unfold Spacing.block
  cases items with
  | nil =>
    refine ⟨[closing], rfl, ?_⟩
    rw [hclosing]
    exact .close .nil
  | cons item items =>
    rw [List.isEmpty_cons, if_neg Bool.false_ne_true]
    refine ⟨spacing.line (depth + 1) ++ (item ++
      ((items.map (spacing.line (depth + 1) ++ ·)).flatMap (',' :: ·) ++
        (spacing.line depth ++ [closing]))), ?_, ?_⟩
    · rw [List.map_cons, intercalate_cons]
      simp only [List.cons_append, List.append_assoc]
    · rw [Utf8.encode_append, Utf8.encode_append]
      exact .first (blank_line _ _) (items_flatMap hclosing (blank_line _ _) (blank_line _ _) items)

end Items

/-! ## Records -/

/-- The member that is written for a key and an atom. -/
def writtenMember (spacing : Spacing) (member : String × Atom) : Member where
  key := Utf8.encode (member.1.toList.flatMap escaped)
  beforeColon := []
  afterColon := spacing.afterColon
  value := Utf8.encode member.2.chars

/-- A member of a document with the text of its atom. -/
def entryOf (member : String × Atom) : String × List UInt8 :=
  (member.1, Utf8.encode member.2.chars)

theorem bytes_writtenMember (spacing : Spacing) (member : String × Atom) :
    Utf8.encode (quote member.1.toList ++ spacing.colon ++ member.2.chars) =
      (writtenMember spacing member).bytes := by
  rw [List.append_assoc, Utf8.encode_append, encode_quote, Utf8.encode_append, encode_colon]
  rfl

theorem holds_writtenMember (spacing : Spacing) (member : String × Atom) :
    (writtenMember spacing member).Holds (entryOf member) := by
  refine ⟨⟨Blank.nil, blank_afterColon spacing⟩, ?_, rfl⟩
  have hspells := spellsText_flatMap_escaped member.1.toList
  rwa [String.ofList_toList] at hspells

/-- A record is a brace and its members as items, at any depth. -/
theorem exists_items_record (spacing : Spacing) (depth : Nat) (members : Members) :
    ∃ chars, spacing.record depth members = '\x7b' :: chars ∧
      Items (ascii '\x7d') true ((members.map (writtenMember spacing)).map Member.bytes)
        (Utf8.encode chars) := by
  obtain ⟨chars, hblock, hitems⟩ := exists_items_block spacing depth '\x7b'
    (show Utf8.encode ['\x7d'] = [ascii '\x7d'] from rfl)
    (members.map fun member => quote member.1.toList ++ spacing.colon ++ member.2.chars)
  refine ⟨chars, hblock, ?_⟩
  simp only [List.map_map, Function.comp_def, bytes_writtenMember] at hitems
  rwa [List.map_map]

/-- **A record is the text of its entries**, in either spacing and at any depth. -/
theorem recordText_record (names : List String) (spacing : Spacing) (depth : Nat)
    (members : Members) :
    RecordText names (Utf8.encode (spacing.record depth members)) (members.map entryOf) := by
  obtain ⟨chars, hrecord, hitems⟩ := exists_items_record spacing depth members
  have hopening : Utf8.encode ('\x7b' :: chars) = ascii '\x7b' :: Utf8.encode chars := rfl
  rw [hrecord, hopening]
  have hholds : List.Forall₂ Member.Holds (members.map (writtenMember spacing))
      (members.map entryOf) := by
    rw [List.forall₂_map_left_iff, List.forall₂_map_right_iff, List.forall₂_same]
    exact fun member _ => holds_writtenMember spacing member
  exact .object hholds hitems

theorem recordText_chars (names : List String) (spacing : Spacing) (members : Members) :
    RecordText names (Utf8.encode ((Document.record members).chars spacing))
      (members.map entryOf) :=
  recordText_record names spacing 0 members

/-- The text of a record with one member. -/
theorem chars_single (spacing : Spacing) (key : String) (atom : Atom) :
    (Document.record [(key, atom)]).chars spacing =
      '\x7b' :: spacing.line 1 ++ quote key.toList ++ spacing.colon ++ atom.chars ++
        spacing.line 0 ++ ['\x7d'] := by
  show '\x7b' :: List.intercalate [','] [spacing.line 1 ++ (quote key.toList ++ spacing.colon ++
    atom.chars)] ++ spacing.line 0 ++ ['\x7d'] = _
  rw [List.intercalate_singleton]
  simp only [List.cons_append, List.append_assoc]

/-- The values of a member that is written if there is one. -/
theorem valuesOf_toList {β : Type} (name key : String) (atom : β → Atom) (value? : Option β) :
    valuesOf name ((value?.toList.map fun value => (key, atom value)).map entryOf) =
      if key = name then value?.toList.map fun value => Utf8.encode (atom value).chars
      else [] := by
  cases value? with
  | none =>
    show [] = _
    split <;> rfl
  | some value =>
    show valuesOf name [(key, Utf8.encode (atom value).chars)] = _
    split
    · rename_i hkey
      rw [hkey, valuesOf_cons_self]
      rfl
    · rename_i hkey
      rw [valuesOf_cons_of_ne hkey]
      rfl

end ChunkSizing.Json
