import ChunkSizing.Proofs.Transfer.Format

/-!
# ChunkSizing.Proofs.Transfer.RoundTrip — reading undoes writing.

What a number comes back as is in general a neighbour. A number that is written with few digits is
not moved, so a transfer whose measurements are such comes back as it was, in either spacing and to
the sign of a zero. The exceptions are the measurements that are not finite: JSON has no text for
them, and they come back absent.
-/

namespace ChunkSizing

open Json

/-! ## Keys -/

/-- The keys that a document writes. -/
def Json.Document.keys : Document → List String
  | .record members => members.map (·.1)
  | .table rows => rows.flatten.map (·.1)

namespace Transfer

variable {transfer : Transfer}

/-- **The keys of a transfer**: that of the size, and those of the optional fields that are
there. -/
theorem mem_keys_toDocument_iff {key : String} :
    key ∈ transfer.toDocument.keys ↔
      key = sizeField.name ∨ (transfer.mimeType ≠ none ∧ key = mimeTypeField.name) ∨
        (transfer.bandwidth ≠ none ∧ key = bandwidthField.name) ∨
        (transfer.latency ≠ none ∧ key = latencyField.name) := by
  have hoptional {α : Type} (value? : Option α) (name : String) (atom : α → Atom) :
      key ∈ (value?.toList.map fun value => (name, atom value)).map (·.1) ↔
        value? ≠ none ∧ key = name := by
    cases value? <;> simp
  unfold toDocument Document.keys
  simp only [List.map_append, List.mem_append, hoptional, or_assoc]
  exact or_congr_left List.mem_singleton

/-- The keys of absent fields are not among the keys. -/
structure OmitsAbsent (transfer : Transfer) (keys : List String) : Prop where
  mimeType : transfer.mimeType = none → mimeTypeField.name ∉ keys
  bandwidth : transfer.bandwidth = none → bandwidthField.name ∉ keys
  latency : transfer.latency = none → latencyField.name ∉ keys

/-- **Absent fields are not written.** -/
theorem keys_omitsAbsent (transfer : Transfer) :
    transfer.OmitsAbsent transfer.toDocument.keys := by
  constructor <;> intro habsent <;>
    simp [mem_keys_toDocument_iff, habsent, sizeField, mimeTypeField, bandwidthField, latencyField]

/-! ## Short measurements -/

/-- The finite measurements are written short. -/
structure WrittenShort (transfer : Transfer) : Prop where
  bandwidth : ∀ x ∈ transfer.bandwidth, x.isFinite = true → Json.WrittenShort x
  latency : ∀ x ∈ transfer.latency, x.isFinite = true → Json.WrittenShort x

theorem WrittenShort.reread_finitePart (h : transfer.WrittenShort) :
    transfer.finitePart.reread = transfer.finitePart := by
  have hkept {value? : Option Binary64}
      (hshort : ∀ x ∈ value?, x.isFinite = true → Json.WrittenShort x) :
      (value?.filter (·.isFinite)).map Json.reread = value?.filter (·.isFinite) := by
    cases hfilter : value?.filter (·.isFinite) with
    | none => rfl
    | some x =>
      obtain ⟨hvalue, hfinite⟩ := Option.filter_eq_some_iff.1 hfilter
      exact congrArg some (reread_of_writtenShort hfinite (hshort x hvalue hfinite))
  unfold finitePart reread
  rw [hkept h.bandwidth, hkept h.latency]

/-- **Reading undoes writing.** In either spacing, a transfer whose finite measurements are written
short is read as it was, without the measurements that are not finite; and what is absent has no key
in the text. -/
theorem parse_toDocument_of_writtenShort (transfer : Transfer) (spacing : Spacing)
    (h : transfer.WrittenShort) :
    format.parse (Utf8.encode (transfer.toDocument.chars spacing)) = .ok transfer.finitePart ∧
      transfer.OmitsAbsent transfer.toDocument.keys := by
  have hparse := parse_toDocument transfer spacing
  rw [h.reread_finitePart] at hparse
  exact ⟨hparse, keys_omitsAbsent transfer⟩

/-- The least size, a control between quotes and a negative zero come back; what is no number does
not. -/
theorem parse_negative_zero :
    (⟨Int64.minValue, some "\"\x07\"", some (.zero true), some .nan⟩ : Transfer).WrittenShort ∧
    format.parse (Utf8.encode (toDocument
      ⟨Int64.minValue, some "\"\x07\"", some (.zero true), some .nan⟩ |>.chars .pretty)) =
      .ok ⟨Int64.minValue, some "\"\x07\"", some (.zero true), none⟩ := by
  have hzero : Json.WrittenShort (.zero true) :=
    (writtenShort_ofRank_iff true (show 0 < Binary64.infinityRank by decide)).2
      ⟨by decide, by decide, by decide⟩
  have hshort : WrittenShort ⟨Int64.minValue, some "\"\x07\"", some (.zero true), some .nan⟩ := by
    constructor
    · rintro _ ⟨⟩ -
      exact hzero
    · rintro _ ⟨⟩ hfinite
      cases hfinite
  exact ⟨hshort, (parse_toDocument_of_writtenShort _ .pretty hshort).1⟩

end Transfer

end ChunkSizing
