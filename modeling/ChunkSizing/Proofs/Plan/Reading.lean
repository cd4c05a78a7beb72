import ChunkSizing.Plan
import ChunkSizing.Proofs.Json.Compaction
import ChunkSizing.Proofs.Json.Document
import ChunkSizing.Proofs.Json.Lists
import ChunkSizing.Transfer.Format

/-!
# ChunkSizing.Proofs.Plan.Reading — plans that are printed and read.

A plan is printed as a table, and the reader of a table is made from the readers of single values:
a list of records, each with an index and two offsets. What is printed of a plan, in either spacing,
denotes the plan (`Plan.denotes_toDocument`), so it is read as that plan, and no other plan is
printed alike.
-/

namespace ChunkSizing

open Json

/-! ## Rows -/

namespace Plan

/-- A row that is being read. -/
structure Draft where
  index : Option Nat
  start : Option UInt64
  last : Option UInt64

/-- The number of the row, which no word bounds. -/
def indexKnown : Known Draft :=
  .of "index" wholeValue_recognizes wholeValue_leaves Draft.index
    (fun draft value => { draft with index := some value }) fun _ _ => rfl

/-- The offset of the first byte. -/
def startKnown : Known Draft :=
  .of "start" wordValue_recognizes wordValue_leaves Draft.start
    (fun draft value => { draft with start := some value }) fun _ _ => rfl

/-- The offset of the last byte. -/
def lastKnown : Known Draft :=
  .of "end_inclusive" wordValue_recognizes wordValue_leaves Draft.last
    (fun draft value => { draft with last := some value }) fun _ _ => rfl

/-- **The record of a row.** All of its fields must be there. -/
def rowFormat : Record Draft Chunk where
  title := "ChunkPlan"
  fields := [indexKnown.field, startKnown.field, lastKnown.field]
  blank := ⟨none, none, none⟩
  finish
    | ⟨some index, some start, some last⟩ => .ok ⟨index, start, last⟩
    | ⟨none, _, _⟩ => .error "index"
    | ⟨_, none, _⟩ => .error "start"
    | ⟨_, _, none⟩ => .error "end_inclusive"

/-- What holds of the fields one by one. -/
theorem forall_known_iff {p : Known Draft → Prop} :
    (∀ known ∈ [indexKnown, startKnown, lastKnown], p known) ↔
      p indexKnown ∧ p startKnown ∧ p lastKnown := by
  simp only [List.forall_mem_cons, List.not_mem_nil, false_imp_iff, implies_true, and_true]

/-- **The grammar of a row.** -/
def rowGrammar : rowFormat.Grammar where
  fields := [indexKnown, startKnown, lastKnown]
  fields_eq := rfl
  nodup := show ["index", "start", "end_inclusive"].Nodup by decide
  blank := forall_known_iff.2 ⟨rfl, rfl, rfl⟩
  apart := by
    intro known hmem other hother hne draft value
    simp only [List.mem_cons, List.not_mem_nil, or_false] at hmem hother
    rcases hmem with rfl | rfl | rfl <;> rcases hother with rfl | rfl | rfl <;>
      first | rfl | exact absurd rfl hne
  ext := by
    intro draft last h
    obtain ⟨hindex, hstart, hlast⟩ := forall_known_iff.1 h
    cases draft
    cases last
    cases hindex
    cases hstart
    cases hlast
    rfl

/-! ## What is printed -/

/-- **A row denotes its range**, at any depth. -/
theorem denotes_row (spacing : Spacing) (depth : Nat) (chunk : Chunk) :
    rowGrammar.language (Utf8.encode (spacing.record depth (row chunk))) chunk := by
  have hmem : ∀ known ∈ [indexKnown, startKnown, lastKnown], known ∈ rowGrammar.fields :=
    fun _ => id
  obtain ⟨hindex, hstart, hlast⟩ := forall_known_iff.1 hmem
  refine ⟨_, ⟨some chunk.index, some chunk.start, some chunk.last⟩,
    recordText_record _ spacing depth (row chunk), ?_, rfl⟩
  -- the members stand in the order of the fields, each in a place that is free
  refine (rowGrammar.fills_known_iff hindex).2 ⟨rfl, _, spells_integer chunk.index, ?_⟩
  refine (rowGrammar.fills_known_iff hstart).2 ⟨rfl, _, spells_integer chunk.start.toNat, ?_⟩
  exact (rowGrammar.fills_known_iff hlast).2 ⟨rfl, _, spells_integer chunk.last.toNat, .nil _⟩

/-- **The language of plans**: lists of rows. -/
def Denotes : TextLanguage Plan := Listing rowGrammar.language

/-- **A printed plan denotes the plan**, in either spacing. -/
theorem denotes_toDocument (plan : Plan) (spacing : Spacing) :
    Denotes (Utf8.encode (plan.toDocument.chars spacing)) plan := by
  obtain ⟨chars, hblock, hitems⟩ := exists_items_block spacing 0 '['
    (show Utf8.encode [']'] = [ascii ']'] from rfl) ((plan.map row).map (spacing.record 1))
  refine ⟨_, Utf8.encode chars, ?_, hitems, ?_⟩
  · rw [toDocument, Document.chars, hblock, Utf8.encode_cons]
    rfl
  · rw [List.forall₂_map_left_iff, List.forall₂_map_left_iff, List.forall₂_map_left_iff,
      List.forall₂_same]
    exact fun chunk _ => denotes_row spacing 1 chunk

/-! ## Reading -/

/-- **Reads a plan**, which must be the whole input. -/
def parse (input : List UInt8) : Except Json.Refusal Plan :=
  Reader.parse (listValue rowFormat.read) input

theorem read_recognizes : (listValue rowFormat.read).Recognizes Denotes :=
  listValue_recognizes rowGrammar.recognizes

/-- **A plan is read back**, in either spacing. -/
theorem parse_toDocument (plan : Plan) (spacing : Spacing) :
    parse (Utf8.encode (plan.toDocument.chars spacing)) = .ok plan :=
  read_recognizes.parse_eq_ok (denotes_toDocument plan spacing)

/-- **Plans that are printed alike are one**, also in different spacings. -/
theorem eq_of_chars_eq {plan plan' : Plan} {spacing spacing' : Spacing}
    (h : plan.toDocument.chars spacing = plan'.toDocument.chars spacing') : plan = plan' := by
  have hread := parse_toDocument plan spacing
  rw [h, parse_toDocument plan' spacing'] at hread
  exact (Except.ok.inj hread).symm

end Plan

/-! ## The two spacings -/

/-- **What is printed is JSON, and its white space means nothing.** This holds of what is printed of
a transfer, of advice and of a plan: without the white space outside of strings the pretty text is
the compact one, and both are one value. A plan is read back from either text as it was, however
long and whatever its offsets, so no two plans are printed alike. -/
theorem printed_keeps_value :
    (∀ (transfer : Transfer) (advice : Advice) (plan : Plan),
      ∀ document ∈ [transfer.toDocument, advice.toDocument, plan.toDocument],
        compacted .outside (document.chars .pretty) = document.chars .compact ∧
        IsValue (Utf8.encode (document.chars .pretty)) ∧
        IsValue (Utf8.encode (document.chars .compact))) ∧
    (∀ (plan : Plan) (spacing : Spacing),
      Plan.parse (Utf8.encode (plan.toDocument.chars spacing)) = .ok plan) ∧
    ∀ (plan plan' : Plan) (spacing spacing' : Spacing), plan ≠ plan' →
      plan.toDocument.chars spacing ≠ plan'.toDocument.chars spacing' := by
  refine ⟨?_, Plan.parse_toDocument, fun plan plan' spacing spacing' => mt Plan.eq_of_chars_eq⟩
  intro transfer advice plan document _
  exact ⟨(compactsTo_chars .pretty document).compacted_eq, isValue_chars .pretty document,
    isValue_chars .compact document⟩

/-- White space, quotes and backslashes of a string stay, an empty plan is its brackets, and the
greatest offset tells two plans apart. -/
theorem printed_keeps_value_of_quotes :
    (let transfer : Transfer := ⟨-1, some "a \" \\ \n b", none, some (.nan)⟩
    compacted .outside (transfer.toDocument.chars .pretty) = transfer.toDocument.chars .compact) ∧
    Plan.parse (Utf8.encode "[]".toList) = .ok [] ∧
    (Plan.toDocument [⟨0, 0, 0xffffffffffffffff⟩]).chars .pretty ≠
      (Plan.toDocument [⟨0, 0, 0xfffffffffffffffe⟩]).chars .compact := by
  obtain ⟨hprinted, hread, hapart⟩ := printed_keeps_value
  refine ⟨?_, hread [] .pretty, hapart _ _ _ _ (by decide)⟩
  intro transfer
  exact (hprinted transfer ⟨8⟩ [] transfer.toDocument List.mem_cons_self).1

end ChunkSizing
