import ChunkSizing.Json.Document
import ChunkSizing.Json.Record
import ChunkSizing.Transfer.Basic

/-!
# ChunkSizing.Transfer.Format — transfers and advice in JSON.

A transfer is a record of a required size and three optional fields; an absent field is not written.
Advice is a record of one number.
-/

namespace ChunkSizing

open Json

namespace Transfer

/-! ## Transfers -/

/-- A transfer that is being read. An outer `none` is a field not met yet. -/
structure Draft where
  size : Option Int64
  mimeType : Option (Option String)
  bandwidth : Option (Option Binary64)
  latency : Option (Option Binary64)

/-- The size, in bytes. -/
def sizeField : Json.Field Draft where
  name := "size_bytes"
  seen draft := draft.size.isSome
  read draft := storing integerValue fun value => { draft with size := some value }
  leaves _ := storing_leaves integerValue_leaves _

/-- The type of the content. -/
def mimeTypeField : Json.Field Draft where
  name := "mime_type"
  seen draft := draft.mimeType.isSome
  read draft := storing (optional textValue) fun value => { draft with mimeType := some value }
  leaves _ := storing_leaves (optional_leaves textValue_leaves) _

/-- The bandwidth, in megabits per second. -/
def bandwidthField : Json.Field Draft where
  name := "estimated_bandwidth_mbps"
  seen draft := draft.bandwidth.isSome
  read draft := storing (optional numberValue) fun value => { draft with bandwidth := some value }
  leaves _ := storing_leaves (optional_leaves numberValue_leaves) _

/-- The latency, in milliseconds. -/
def latencyField : Json.Field Draft where
  name := "latency_ms"
  seen draft := draft.latency.isSome
  read draft := storing (optional numberValue) fun value => { draft with latency := some value }
  leaves _ := storing_leaves (optional_leaves numberValue_leaves) _

/-- **The record of a transfer.** Only the size must be there. -/
def format : Record Draft Transfer where
  title := "PredictionInput"
  fields := [sizeField, mimeTypeField, bandwidthField, latencyField]
  blank := ⟨none, none, none, none⟩
  finish draft :=
    match draft.size with
    | none => .error sizeField.name
    | some size => .ok ⟨size, draft.mimeType.join, draft.bandwidth.join, draft.latency.join⟩

/-- A transfer as a document. Absent fields are left out. -/
def toDocument (transfer : Transfer) : Document :=
  .record <|
    [("size_bytes", Atom.integer transfer.size.toInt)] ++
    (transfer.mimeType.toList.map fun value => ("mime_type", .text value)) ++
    (transfer.bandwidth.toList.map fun value => ("estimated_bandwidth_mbps", .number value)) ++
    (transfer.latency.toList.map fun value => ("latency_ms", .number value))

end Transfer

namespace Advice

/-! ## Advice -/

/-- Advice that is being read. -/
structure Draft where
  chunkSize : Option Binary64

/-- The size of a chunk, in megabytes. -/
def chunkSizeField : Json.Field Draft where
  name := "chunk_size_mb"
  seen draft := draft.chunkSize.isSome
  read _ := storing numberValue fun value => { chunkSize := some value }
  leaves _ := storing_leaves numberValue_leaves _

/-- **The record of advice.** -/
def format : Record Draft Advice where
  title := "PredictionOutput"
  fields := [chunkSizeField]
  blank := ⟨none⟩
  finish draft :=
    match draft.chunkSize with
    | none => .error chunkSizeField.name
    | some size => .ok ⟨size⟩

/-- Advice as a document. -/
def toDocument (advice : Advice) : Document :=
  .record [("chunk_size_mb", .number advice.chunkSize)]

end Advice

end ChunkSizing
