import ChunkSizing.Proofs.Json.NumberText
import ChunkSizing.Proofs.Json.Rendering
import ChunkSizing.Proofs.Transfer.Grammar

/-!
# ChunkSizing.Proofs.Transfer.Format — transfers and advice that are written and read.

The text of a transfer, in either spacing, denotes the transfer without the measurements that are
not finite, and with the others as `Json.reread` says; so it is read as that
(`Transfer.parse_toDocument`). Finite advice is read as its text denotes, too.
-/

namespace ChunkSizing

open Json

namespace Transfer

/-! ## Transfers -/

/-- The measurements that are there are finite. -/
structure IsFinite (transfer : Transfer) : Prop where
  bandwidth : ∀ x ∈ transfer.bandwidth, x.isFinite = true
  latency : ∀ x ∈ transfer.latency, x.isFinite = true

/-- **What a transfer comes back as.** -/
def reread (transfer : Transfer) : Transfer :=
  { transfer with
    bandwidth := transfer.bandwidth.map Json.reread
    latency := transfer.latency.map Json.reread }

/-- The transfer without the measurements that are not finite. -/
def finitePart (transfer : Transfer) : Transfer :=
  { transfer with
    bandwidth := transfer.bandwidth.filter (·.isFinite)
    latency := transfer.latency.filter (·.isFinite) }

/-- The members of a transfer. -/
def members (transfer : Transfer) : Members :=
  [("size_bytes", Atom.integer transfer.size.toInt)] ++
    (transfer.mimeType.toList.map fun value => ("mime_type", Atom.text value)) ++
    (transfer.bandwidth.toList.map fun value => ("estimated_bandwidth_mbps", Atom.number value)) ++
    (transfer.latency.toList.map fun value => ("latency_ms", Atom.number value))

/-- What is written of a text: the text, or nothing. -/
theorem atMostOne_text (value? : Option String) :
    AtMostOne DenotesText (value?.toList.map fun value => Utf8.encode (Atom.text value).chars)
      value? := by
  cases value? with
  | none => exact .missing
  | some value => exact .value (denotesText_chars value)

/-- What is written of a measurement: its digits, `null`, or nothing. -/
theorem atMostOne_measurement (value? : Option Binary64) :
    AtMostOne DenotesNumber (value?.toList.map fun value => Utf8.encode (Atom.number value).chars)
      ((value?.filter (·.isFinite)).map Json.reread) := by
  cases value? with
  | none => exact .missing
  | some x =>
    cases hfinite : x.isFinite with
    | false =>
      simp only [Option.toList_some, List.map_cons, List.map_nil, Option.filter_some, hfinite,
        Bool.false_eq_true, if_false, Option.map_none, encode_chars_of_not_isFinite hfinite]
      exact .null
    | true =>
      simp only [Option.toList_some, List.map_cons, List.map_nil, Option.filter_some, hfinite,
        if_true, Option.map_some]
      exact .value (denotesNumber_chars hfinite)

theorem name_mem_names (transfer : Transfer) :
    ∀ entry ∈ transfer.members.map entryOf, entry.1 ∈ names := by
  unfold members
  simp only [List.mem_map, List.mem_append, List.mem_singleton, Option.mem_toList]
  rintro _ ⟨member, (((rfl | ⟨_, -, rfl⟩) | ⟨_, -, rfl⟩) | ⟨_, -, rfl⟩), rfl⟩
  · exact List.mem_cons_self
  · exact (show "mime_type" ∈ names by decide)
  · exact (show "estimated_bandwidth_mbps" ∈ names by decide)
  · exact (show "latency_ms" ∈ names by decide)

/-- **What the members of a transfer denote.** -/
theorem denotes_members (transfer : Transfer) :
    Denotes (transfer.members.map entryOf) transfer.finitePart.reread := by
  have hsize (name : String) :
      valuesOf name ([("size_bytes", Atom.integer transfer.size.toInt)].map entryOf) =
        if "size_bytes" = name then [Utf8.encode (Atom.integer transfer.size.toInt).chars]
        else [] :=
    valuesOf_toList name "size_bytes" Atom.integer (some transfer.size.toInt)
  refine ⟨⟨_, ?_, denotesInteger_chars transfer.size⟩, ?_, ?_, ?_, ?_⟩
  · simp only [members, List.map_append, valuesOf_append, hsize, valuesOf_toList, String.reduceEq,
      if_true, if_false, List.append_nil]
  · simp only [members, List.map_append, valuesOf_append, hsize, valuesOf_toList, String.reduceEq,
      if_true, if_false, List.append_nil, List.nil_append]
    exact atMostOne_text transfer.mimeType
  · simp only [members, List.map_append, valuesOf_append, hsize, valuesOf_toList, String.reduceEq,
      if_true, if_false, List.append_nil, List.nil_append]
    exact atMostOne_measurement transfer.bandwidth
  · simp only [members, List.map_append, valuesOf_append, hsize, valuesOf_toList, String.reduceEq,
      if_true, if_false, List.nil_append]
    exact atMostOne_measurement transfer.latency
  · intro entry hentry hunknown
    exact absurd (name_mem_names transfer entry hentry) hunknown

/-- **A transfer is read back**, in either spacing, without what is not finite. -/
theorem parse_toDocument (transfer : Transfer) (spacing : Spacing) :
    format.parse (Utf8.encode (transfer.toDocument.chars spacing)) =
      .ok transfer.finitePart.reread := by
  have hinput : InputText names ([] ++ (Utf8.encode (transfer.toDocument.chars spacing) ++ []))
      (transfer.members.map entryOf) :=
    .mk .nil (recordText_chars names spacing transfer.members) .nil
  rw [List.nil_append, List.append_nil] at hinput
  exact parse_iff_denotes.2 ⟨_, hinput, denotes_members transfer⟩

theorem finitePart_of_isFinite {transfer : Transfer} (h : transfer.IsFinite) :
    transfer.finitePart = transfer := by
  have hkept (value? : Option Binary64) (h : ∀ x ∈ value?, x.isFinite = true) :
      value?.filter (·.isFinite) = value? := by
    cases value? with
    | none => rfl
    | some x => exact if_pos (h x rfl)
  unfold finitePart
  rw [hkept _ h.bandwidth, hkept _ h.latency]

/-- **A transfer is read back** by the reader that leaves what stands behind alone. -/
theorem parseFront_toDocument (transfer : Transfer) (h : transfer.IsFinite) :
    format.parseFront (Utf8.encode (transfer.toDocument.chars .compact)) = .ok transfer.reread := by
  have hparse := parse_toDocument transfer .compact
  rw [finitePart_of_isFinite h] at hparse
  exact Record.parseFront_of_parse hparse

end Transfer

namespace Advice

/-! ## Advice -/

/-- **Finite advice is read back** as a whole document, in either spacing. -/
theorem parse_toDocument (advice : Advice) (spacing : Spacing)
    (h : advice.chunkSize.isFinite = true) :
    format.parse (Utf8.encode (advice.toDocument.chars spacing)) =
      .ok ⟨Json.reread advice.chunkSize⟩ := by
  have hinput : InputText grammar.names
      ([] ++ (Utf8.encode (advice.toDocument.chars spacing) ++ []))
      [("chunk_size_mb", Utf8.encode (Atom.number advice.chunkSize).chars)] :=
    .mk .nil (recordText_chars _ spacing [("chunk_size_mb", .number advice.chunkSize)]) .nil
  rw [List.nil_append, List.append_nil] at hinput
  refine grammar.parse_eq_ok_iff.2 ⟨_, ⟨some _⟩, hinput, ?_, rfl⟩
  have hmem : chunkSizeKnown ∈ grammar.fields := List.mem_singleton_self _
  exact (grammar.fills_known_iff hmem).2 ⟨rfl, _, denotesNumber_chars h, .nil _⟩

end Advice

end ChunkSizing
