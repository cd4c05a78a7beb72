import ChunkSizing.Proofs.Json.Recognition
import ChunkSizing.Transfer.Format

/-!
# ChunkSizing.Proofs.Transfer.Grammar — the texts that denote transfers.

`Transfer.Denotes` says which transfer the entries of a text denote, by what stands under each name
and how often. The reader accepts the texts with such entries and no others.
-/

namespace ChunkSizing

open Json

namespace Transfer

/-! ## What entries denote -/

/-- The names that a transfer gives a meaning to, in the order of declaration. -/
def names : List String := ["size_bytes", "mime_type", "estimated_bandwidth_mbps", "latency_ms"]

variable {α : Type} {language : TextLanguage α} {value? : Option α} {texts : List (List UInt8)}

/-- **The values of a field that may be absent**: none, `null`, or one that denotes. -/
inductive AtMostOne (language : TextLanguage α) : List (List UInt8) → Option α → Prop where
  | missing : AtMostOne language [] none
  | null : AtMostOne language [nullWord] none
  | value {text : List UInt8} {value : α} (h : language text value) :
      AtMostOne language [text] (some value)

/-- **What entries denote as a transfer.** -/
structure Denotes (entries : Entries) (transfer : Transfer) : Prop where
  size : ∃ text, valuesOf "size_bytes" entries = [text] ∧ DenotesInteger text transfer.size
  mimeType : AtMostOne DenotesText (valuesOf "mime_type" entries) transfer.mimeType
  bandwidth : AtMostOne DenotesNumber (valuesOf "estimated_bandwidth_mbps" entries)
    transfer.bandwidth
  latency : AtMostOne DenotesNumber (valuesOf "latency_ms" entries) transfer.latency
  unknown : ∀ entry ∈ entries, entry.1 ∉ names → IsValue entry.2

/-! ## The grammar of the record -/

/-- The size. -/
def sizeKnown : Known Draft where
  field := sizeField
  Value := Int64
  language := DenotesInteger
  get := Draft.size
  set draft value := { draft with size := some value }
  recognizes _ := storing_recognizes integerValue_recognizes _
  seen_eq _ := rfl
  get_set _ _ := rfl

/-- The type of the content. -/
def mimeTypeKnown : Known Draft where
  field := mimeTypeField
  Value := Option String
  language := Optionally DenotesText
  get := Draft.mimeType
  set draft value := { draft with mimeType := some value }
  recognizes _ := storing_recognizes
    (optional_recognizes textValue_recognizes DenotesText.head?_ne) _
  seen_eq _ := rfl
  get_set _ _ := rfl

/-- The bandwidth. -/
def bandwidthKnown : Known Draft where
  field := bandwidthField
  Value := Option Binary64
  language := Optionally DenotesNumber
  get := Draft.bandwidth
  set draft value := { draft with bandwidth := some value }
  recognizes _ := storing_recognizes
    (optional_recognizes numberValue_recognizes DenotesNumber.head?_ne) _
  seen_eq _ := rfl
  get_set _ _ := rfl

/-- The latency. -/
def latencyKnown : Known Draft where
  field := latencyField
  Value := Option Binary64
  language := Optionally DenotesNumber
  get := Draft.latency
  set draft value := { draft with latency := some value }
  recognizes _ := storing_recognizes
    (optional_recognizes numberValue_recognizes DenotesNumber.head?_ne) _
  seen_eq _ := rfl
  get_set _ _ := rfl

/-- What holds of the fields one by one. -/
theorem forall_known_iff {p : Known Draft → Prop} :
    (∀ known ∈ [sizeKnown, mimeTypeKnown, bandwidthKnown, latencyKnown], p known) ↔
      p sizeKnown ∧ p mimeTypeKnown ∧ p bandwidthKnown ∧ p latencyKnown := by
  simp only [List.forall_mem_cons, List.not_mem_nil, false_imp_iff, implies_true, and_true]

/-- **The grammar of a transfer.** -/
def grammar : format.Grammar where
  fields := [sizeKnown, mimeTypeKnown, bandwidthKnown, latencyKnown]
  fields_eq := rfl
  nodup := show names.Nodup by decide
  blank := forall_known_iff.2 ⟨rfl, rfl, rfl, rfl⟩
  apart := by
    intro known hmem other hother hne draft value
    simp only [List.mem_cons, List.not_mem_nil, or_false] at hmem hother
    rcases hmem with rfl | rfl | rfl | rfl <;> rcases hother with rfl | rfl | rfl | rfl <;>
      first | rfl | exact absurd rfl hne
  ext := by
    intro draft last h
    obtain ⟨hsize, hmimeType, hbandwidth, hlatency⟩ := forall_known_iff.1 h
    cases draft
    cases last
    cases hsize
    cases hmimeType
    cases hbandwidth
    cases hlatency
    rfl

/-! ## Drafts and transfers -/

/-- A field that may be absent. -/
theorem atMostOne_iff : AtMostOne language texts value? ↔
    ∃ found, Filled (Optionally language) none texts found ∧ found.join = value? := by
  constructor
  · intro h
    cases h with
    | missing => exact ⟨none, .kept none, rfl⟩
    | null => exact ⟨some none, .filled (.inl ⟨rfl, rfl⟩), rfl⟩
    | value htext => exact ⟨some (some _), .filled (.inr ⟨_, htext, rfl⟩), rfl⟩
  · rintro ⟨found, hfilled, rfl⟩
    cases hfilled with
    | kept => exact .missing
    | filled hvalue =>
      obtain ⟨rfl, rfl⟩ | ⟨value, htext, rfl⟩ := hvalue
      · exact .null
      · exact .value htext

theorem finish_eq_ok_iff {draft : Draft} {transfer : Transfer} :
    format.finish draft = .ok transfer ↔ draft.size = some transfer.size ∧
      draft.mimeType.join = transfer.mimeType ∧ draft.bandwidth.join = transfer.bandwidth ∧
        draft.latency.join = transfer.latency := by
  obtain ⟨- | size, mimeType, bandwidth, latency⟩ := draft
  · simp [format]
  · obtain ⟨size', mimeType', bandwidth', latency'⟩ := transfer
    simp [format]

/-- **Entries denote what they fill a draft with.** -/
theorem denotes_iff {entries : Entries} {transfer : Transfer} : Denotes entries transfer ↔
    ∃ last, Fills grammar.fields format.blank entries last ∧ format.finish last = .ok transfer := by
  simp only [grammar.fills_iff, finish_eq_ok_iff]
  constructor
  · rintro ⟨hsize, hmimeType, hbandwidth, hlatency, hunknown⟩
    obtain ⟨mimeType, hmimeType, hmimeTypeJoin⟩ := atMostOne_iff.1 hmimeType
    obtain ⟨bandwidth, hbandwidth, hbandwidthJoin⟩ := atMostOne_iff.1 hbandwidth
    obtain ⟨latency, hlatency, hlatencyJoin⟩ := atMostOne_iff.1 hlatency
    refine ⟨⟨some transfer.size, mimeType, bandwidth, latency⟩, ⟨forall_known_iff.2 ?_, hunknown⟩,
      rfl, hmimeTypeJoin, hbandwidthJoin, hlatencyJoin⟩
    exact ⟨filled_some_iff.2 hsize, hmimeType, hbandwidth, hlatency⟩
  · rintro ⟨last, ⟨hfields, hunknown⟩, hsizeEq, hmimeTypeJoin, hbandwidthJoin, hlatencyJoin⟩
    obtain ⟨hsize, hmimeType, hbandwidth, hlatency⟩ := forall_known_iff.1 hfields
    have hsize : Filled DenotesInteger none (valuesOf "size_bytes" entries) last.size := hsize
    rw [hsizeEq] at hsize
    exact ⟨filled_some_iff.1 hsize, atMostOne_iff.2 ⟨_, hmimeType, hmimeTypeJoin⟩,
      atMostOne_iff.2 ⟨_, hbandwidth, hbandwidthJoin⟩,
      atMostOne_iff.2 ⟨_, hlatency, hlatencyJoin⟩, hunknown⟩

/-- What is accepted, and as what. -/
theorem parse_iff_denotes {input : List UInt8} {transfer : Transfer} :
    format.parse input = .ok transfer ↔
      ∃ entries, InputText names input entries ∧ Denotes entries transfer :=
  grammar.parse_iff_denotes denotes_iff

/-! ## Entries that are alike -/

/-- The same text, or two spellings of one string. -/
def SpeltAlike (text text' : List UInt8) : Prop :=
  text = text' ∨ ∃ value, DenotesText text value ∧ DenotesText text' value

/-- **Entries that hold alike values under the known names**, whatever the order and whatever stands
under other names. -/
structure Alike (entries entries' : Entries) : Prop where
  known : ∀ name ∈ names, List.Forall₂ SpeltAlike (valuesOf name entries) (valuesOf name entries')
  unknown : ∀ entry ∈ entries', entry.1 ∉ names → IsValue entry.2

theorem eq_of_speltAlike {text text' : List UInt8} (h : SpeltAlike text text')
    (htext : text.head? ≠ some (ascii '"')) : text' = text := by
  obtain rfl | ⟨value, ⟨raw, rfl, -⟩, -⟩ := h
  · rfl
  · exact absurd rfl htext

theorem DenotesText.of_speltAlike {text text' : List UInt8} {value : String}
    (h : DenotesText text value) (halike : SpeltAlike text text') : DenotesText text' value := by
  obtain rfl | ⟨value', htext, htext'⟩ := halike
  · exact h
  · rwa [textValue_recognizes.eq_of_language h htext]

theorem DenotesNumber.of_speltAlike {text text' : List UInt8} {value : Binary64}
    (h : DenotesNumber text value) (halike : SpeltAlike text text') :
    DenotesNumber text' value := by
  obtain ⟨numeral, htext, hvalue⟩ := h
  rw [eq_of_speltAlike halike (htext.head?_ne (by decide) (by decide))]
  exact ⟨numeral, htext, hvalue⟩

theorem AtMostOne.of_alike {texts' : List (List UInt8)} (h : AtMostOne language texts value?)
    (halike : List.Forall₂ SpeltAlike texts texts')
    (hlanguage : ∀ {text text' value}, language text value → SpeltAlike text text' →
      language text' value) : AtMostOne language texts' value? := by
  cases h with
  | missing =>
    obtain rfl := List.forall₂_nil_left_iff.1 halike
    exact .missing
  | null =>
    obtain ⟨text', _, htext, hnil, rfl⟩ := List.forall₂_cons_left_iff.1 halike
    obtain rfl := List.forall₂_nil_left_iff.1 hnil
    rw [eq_of_speltAlike htext (by decide)]
    exact .null
  | value hvalue =>
    obtain ⟨text', _, htext, hnil, rfl⟩ := List.forall₂_cons_left_iff.1 halike
    obtain rfl := List.forall₂_nil_left_iff.1 hnil
    exact .value (hlanguage hvalue htext)

/-- **Alike entries denote the same.** -/
theorem Denotes.of_alike {entries entries' : Entries} {transfer : Transfer}
    (h : Denotes entries transfer) (halike : Alike entries entries') :
    Denotes entries' transfer := by
  obtain ⟨⟨text, hvalues, numeral, htext, hinteger⟩, hmimeType, hbandwidth, hlatency, -⟩ := h
  have hsize := halike.known "size_bytes" (by decide)
  rw [hvalues] at hsize
  obtain ⟨text', _, halikeSize, hnil, hvalues'⟩ := List.forall₂_cons_left_iff.1 hsize
  obtain rfl := List.forall₂_nil_left_iff.1 hnil
  obtain rfl := eq_of_speltAlike halikeSize (htext.head?_ne (by decide) (by decide))
  exact ⟨⟨_, hvalues', numeral, htext, hinteger⟩,
    hmimeType.of_alike (halike.known _ (by decide)) DenotesText.of_speltAlike,
    hbandwidth.of_alike (halike.known _ (by decide)) DenotesNumber.of_speltAlike,
    hlatency.of_alike (halike.known _ (by decide)) DenotesNumber.of_speltAlike, halike.unknown⟩

/-- **A transfer is accepted from exactly the texts that denote it**: objects or lists, between
white space, in which every known name has at most one value, of its own kind, and the size has one.
A number is what its numeral denotes (`Json.Numeral.Denotes`), the nearest one if its digits are few
(`Json.Numeral.IsShort.denotes`). Hence entries that hold alike values under the known names are
accepted as the same transfer, whichever text they stand in. -/
theorem accepted_iff_denoted (transfer : Transfer) :
    (∀ input, format.parse input = .ok transfer ↔
      ∃ entries, InputText names input entries ∧ Denotes entries transfer) ∧
    ∀ {entries entries' : Entries} {input : List UInt8}, Denotes entries transfer →
      Alike entries entries' → InputText names input entries' →
        format.parse input = .ok transfer := by
  refine ⟨fun input => parse_iff_denotes, fun {entries entries' input} h halike hinput => ?_⟩
  exact parse_iff_denotes.2 ⟨entries', hinput, h.of_alike halike⟩

/-- A list with the size alone holds what an object with the size and an `id` holds. -/
theorem accepted_list_of_one_byte :
    Denotes [("id", [ascii '7']), ("size_bytes", [ascii '1'])] ⟨1, none, none, none⟩ ∧
    Alike [("id", [ascii '7']), ("size_bytes", [ascii '1'])] [("size_bytes", [ascii '1'])] ∧
    InputText names [ascii ' ', ascii '[', ascii '1', ascii ']'] [("size_bytes", [ascii '1'])] ∧
    format.parse [ascii ' ', ascii '[', ascii '1', ascii ']'] = .ok ⟨1, none, none, none⟩ := by
  have hspells {b : UInt8} (hb : isDigit b = true) :
      Spells [b] ⟨false, digits [b], [], none⟩ := by
    have hwhole : IsWhole [b] := by
      refine ⟨⟨List.cons_ne_nil _ _, List.forall_mem_singleton.2 hb⟩, ?_⟩
      intro hhead
      rw [Option.some.inj hhead]
    exact .mk false hwhole .none .none
  have hdenotes : Denotes [("id", [ascii '7']), ("size_bytes", [ascii '1'])]
      ⟨1, none, none, none⟩ := by
    refine ⟨⟨_, rfl, _, hspells (by decide), rfl, rfl, by decide, by decide⟩, .missing, .missing,
      .missing, ?_⟩
    intro entry hentry hunknown
    simp only [List.mem_cons, List.not_mem_nil, or_false] at hentry
    rcases hentry with rfl | rfl
    · exact .numeral (hspells (by decide))
    · exact absurd (by decide) hunknown
  have halike : Alike [("id", [ascii '7']), ("size_bytes", [ascii '1'])]
      [("size_bytes", [ascii '1'])] := by
    refine ⟨?_, ?_⟩
    · intro name hname
      simp only [names, List.mem_cons, List.not_mem_nil, or_false] at hname
      rcases hname with rfl | rfl | rfl | rfl
      · exact .cons (.inl rfl) .nil
      · exact .nil
      · exact .nil
      · exact .nil
    · intro entry hentry hunknown
      obtain rfl := List.mem_singleton.1 hentry
      exact absurd (by decide) hunknown
  have hitems : Items (ascii ']') true [[ascii '1']] [ascii '1', ascii ']'] :=
    .first .nil (.close .nil)
  have hlist : RecordText names _ (names.zip [[ascii '1']]) := .list (by decide) hitems
  have hblank : Blank [ascii ' '] := List.forall_mem_singleton.2 rfl
  have hinput : InputText names _ [("size_bytes", [ascii '1'])] := .mk hblank hlist .nil
  exact ⟨hdenotes, halike, hinput, (accepted_iff_denoted _).2 hdenotes halike hinput⟩

end Transfer

namespace Advice

/-! ## Advice -/

/-- The name that advice gives a meaning to. -/
def names : List String := ["chunk_size_mb"]

/-- **What entries denote as advice.** -/
structure Denotes (entries : Entries) (advice : Advice) : Prop where
  chunkSize : ∃ text, valuesOf "chunk_size_mb" entries = [text] ∧
    DenotesNumber text advice.chunkSize
  unknown : ∀ entry ∈ entries, entry.1 ∉ names → IsValue entry.2

/-- The size of a chunk. -/
def chunkSizeKnown : Known Draft where
  field := chunkSizeField
  Value := Binary64
  language := DenotesNumber
  get := Draft.chunkSize
  set _ value := { chunkSize := some value }
  recognizes _ := storing_recognizes numberValue_recognizes _
  seen_eq _ := rfl
  get_set _ _ := rfl

/-- **The grammar of advice.** -/
def grammar : format.Grammar where
  fields := [chunkSizeKnown]
  fields_eq := rfl
  nodup := List.pairwise_singleton _ _
  blank := List.forall_mem_singleton.2 rfl
  apart := by
    intro known hmem other hother hne
    obtain rfl := List.mem_singleton.1 hmem
    obtain rfl := List.mem_singleton.1 hother
    exact absurd rfl hne
  ext := by
    intro draft last h
    cases draft
    cases last
    cases List.forall_mem_singleton.1 h
    rfl

theorem finish_eq_ok_iff {draft : Draft} {advice : Advice} :
    format.finish draft = .ok advice ↔ draft.chunkSize = some advice.chunkSize := by
  obtain ⟨- | size⟩ := draft
  · simp [format]
  · obtain ⟨size'⟩ := advice
    simp [format]

/-- **Entries denote what they fill a draft with.** -/
theorem denotes_iff {entries : Entries} {advice : Advice} : Denotes entries advice ↔
    ∃ last, Fills grammar.fields format.blank entries last ∧ format.finish last = .ok advice := by
  simp only [grammar.fills_iff, finish_eq_ok_iff]
  constructor
  · rintro ⟨hsize, hunknown⟩
    exact ⟨⟨some advice.chunkSize⟩,
      ⟨List.forall_mem_singleton.2 (filled_some_iff.2 hsize), hunknown⟩, rfl⟩
  · rintro ⟨last, ⟨hfields, hunknown⟩, hlast⟩
    have hsize : Filled DenotesNumber none (valuesOf "chunk_size_mb" entries) last.chunkSize :=
      hfields chunkSizeKnown (List.mem_singleton_self _)
    rw [hlast] at hsize
    exact ⟨filled_some_iff.1 hsize, hunknown⟩

/-- What is accepted as advice, and as which. -/
theorem parse_iff_denotes {input : List UInt8} {advice : Advice} :
    format.parse input = .ok advice ↔
      ∃ entries, InputText names input entries ∧ Denotes entries advice :=
  grammar.parse_iff_denotes denotes_iff

/-- Advice that is denoted is finite. -/
theorem Denotes.isFinite {entries : Entries} {advice : Advice} (h : Denotes entries advice) :
    advice.chunkSize.isFinite = true := by
  obtain ⟨_, -, _, -, hnumeral⟩ := h.chunkSize
  exact hnumeral.isFinite

end Advice

end ChunkSizing
