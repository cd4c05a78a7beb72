import ChunkSizing.Proofs.Json.Accuracy
import ChunkSizing.Transfer.Format

/-!
# ChunkSizing.Proofs.Transfer.Measurements — numbers in the fields of transfers and advice.

Bandwidth, latency and chunk size are read alike (`NumberField.read_eq`). What holds of each of them
for every text of a numeral is put together in `ReadsNumbers`: a finite number or a refusal, the
meaning of a minus, and the texts that are read as the nearest number.
-/

namespace ChunkSizing

open Binary64 Json

variable {read : Reader (Option Binary64)} {before text rest : List UInt8} {numeral : Numeral}

/-- **The fields that hold numbers**, each as a reader of the number that it keeps. -/
inductive NumberField : Reader (Option Binary64) → Prop where
  | bandwidth (draft : Transfer.Draft) :
      NumberField (storing (Transfer.bandwidthField.read draft) fun next => next.bandwidth.join)
  | latency (draft : Transfer.Draft) :
      NumberField (storing (Transfer.latencyField.read draft) fun next => next.latency.join)
  | chunkSize (draft : Advice.Draft) :
      NumberField (storing (Advice.chunkSizeField.read draft) Advice.Draft.chunkSize)

/-- **What a field makes of numerals.** A number is finite, and its sign is that of the numeral; all
else is out of range. A minus turns the sign of what is read without it. Few gathered digits are
read as the number nearest to the exact value, so all texts of one value are read as one number. -/
structure ReadsNumbers (read : Reader (Option Binary64)) : Prop where
  finite : ∀ {before text rest numeral}, Stands before text rest numeral →
    (∃ x : Binary64, read (before ++ (text ++ rest)) = .ok (some x, rest) ∧ x.isFinite = true) ∨
      ∃ fault, read (before ++ (text ++ rest)) = .error fault ∧
        fault.cause.message = "number out of range"
  minus : ∀ {before text rest numeral}, Stands before text rest numeral →
    numeral.negative = false →
    (∃ rank, read (before ++ (text ++ rest)) = .ok (some (ofRank false rank), rest) ∧
      read (before ++ (ascii '-' :: text ++ rest)) = .ok (some (ofRank true rank), rest)) ∨
    ∃ fault, read (before ++ (text ++ rest)) = .error fault ∧
      read (before ++ (ascii '-' :: text ++ rest)) = .error fault
  nearest : ∀ {before text rest numeral}, Stands before text rest numeral → numeral.GathersFew →
    ∃ rank, read (before ++ (text ++ rest)) = .ok (some (ofRank numeral.negative rank), rest) ∧
      IsRounded numeral.exact (ofRank numeral.negative rank)
  same : ∀ {before text rest numeral before' text' rest' numeral'},
    Stands before text rest numeral → Stands before' text' rest' numeral' →
    numeral.GathersFew → numeral'.GathersFew → numeral.exact = numeral'.exact →
    ∃ x x', read (before ++ (text ++ rest)) = .ok (some x, rest) ∧
      read (before' ++ (text' ++ rest')) = .ok (some x', rest') ∧ x.toRat = x'.toRat ∧
      (numeral.exact ≠ 0 ∨ numeral.negative = numeral'.negative → x = x')

/-! ## One reader for all fields -/

/-- **A field reads the number** and keeps it. -/
theorem NumberField.read_eq (hfield : NumberField read) (h : Stands before text rest numeral) :
    read (before ++ (text ++ rest)) =
      (numeral.result rest).map fun found => (some found.1, found.2) := by
  have hvalue := h.numberValue_eq
  have hoptional := h.optional_eq
  unfold storing at hoptional
  rw [hvalue] at hoptional
  cases hfield with
  | bandwidth draft =>
    show storing (storing (optional numberValue) _) _ _ = _
    unfold storing
    rw [hoptional]
    cases numeral.result rest <;> rfl
  | latency draft =>
    show storing (storing (optional numberValue) _) _ _ = _
    unfold storing
    rw [hoptional]
    cases numeral.result rest <;> rfl
  | chunkSize draft =>
    show storing (storing numberValue _) _ _ = _
    unfold storing
    rw [hvalue]
    cases numeral.result rest <;> rfl

theorem NumberField.read_of_denotes (hfield : NumberField read)
    (h : Stands before text rest numeral) {x : Binary64} (hx : numeral.Denotes x) :
    read (before ++ (text ++ rest)) = .ok (some x, rest) := by
  rw [hfield.read_eq h]
  unfold Numeral.result
  rw [Numeral.toNumber_eq_ok_iff.2 hx]
  rfl

/-- A numeral out of range is refused, and the numeral with a minus is refused at the same byte. -/
theorem NumberField.read_of_error (hfield : NumberField read)
    (h : Stands before text rest numeral) {behind : Nat}
    (hbehind : numeral.toNumber = .error behind) : read (before ++ (text ++ rest)) =
      .error ⟨.numberOutOfRange, rest.length + behind, none⟩ := by
  rw [hfield.read_eq h]
  unfold Numeral.result
  rw [hbehind]
  rfl

/-- **Numbers are read alike in all fields.** For every text of a numeral the result is a finite
number with the sign of the numeral, or the numeral is out of range, and a minus in front changes
nothing but the sign. If the gathered digits are a number of 53 bits at most and the power of ten is
small, the result is the number nearest to the exact value. -/
theorem NumberField.readsNumbers (hfield : NumberField read) : ReadsNumbers read where
  finite := by
    intro before text rest numeral h
    cases hnumber : numeral.toNumber with
    | ok x =>
      have hx := Numeral.toNumber_eq_ok_iff.1 hnumber
      exact .inl ⟨x, hfield.read_of_denotes h hx, hx.isFinite⟩
    | error behind => exact .inr ⟨_, hfield.read_of_error h hnumber, rfl⟩
  minus := by
    intro before text rest numeral h hsign
    have hminus := Numeral.toNumber_withMinus hsign
    cases hnumber : numeral.toNumber with
    | ok x =>
      have hx := Numeral.toNumber_eq_ok_iff.1 hnumber
      obtain ⟨rank, -, rfl⟩ := hx.exists_rank
      rw [hsign] at hx hnumber
      rw [hnumber] at hminus
      have hx' := Numeral.toNumber_eq_ok_iff.1 hminus
      exact .inl ⟨rank, hfield.read_of_denotes h hx, hfield.read_of_denotes (h.withMinus hsign) hx'⟩
    | error behind =>
      rw [hnumber] at hminus
      exact .inr ⟨_, hfield.read_of_error h hnumber,
        hfield.read_of_error (h.withMinus hsign) hminus⟩
  nearest := by
    intro before text rest numeral h hfew
    have hx := hfew.denotes h.text.hasDigits
    exact ⟨_, hfield.read_of_denotes h hx, Numeral.isRounded_exact hx.isFinite⟩
  same := by
    intro before text rest numeral before' text' rest' numeral' h h' hfew hfew' hsame
    have hx := hfew.denotes h.text.hasDigits
    have hx' := hfew'.denotes h'.text.hasDigits
    rw [← hsame] at hx'
    refine ⟨_, _, hfield.read_of_denotes h hx, hfield.read_of_denotes h' hx', ?_, ?_⟩
    · by_cases hzero : numeral.exact = 0
      · rw [hzero, abs_zero, ← Nat.cast_zero, rankOf_zero, toRat_ofRank_zero, toRat_ofRank_zero]
      · rw [Numeral.negative_eq_of_exact_eq hsame hzero]
    · rintro (hne | hsign)
      · rw [Numeral.negative_eq_of_exact_eq hsame hne]
      · rw [hsign]

/-- Three texts of one and a half are read as one number. -/
theorem NumberField.readsNumbers_one_and_a_half :
    let read := storing (Transfer.bandwidthField.read ⟨none, none, none, none⟩) fun next =>
      next.bandwidth.join
    let input (text : String) : List UInt8 := Utf8.ofString text ++ [ascii '\x7d']
    ∃ x : Binary64, read (input "1.5") = .ok (some x, [ascii '\x7d']) ∧
      read (input "15e-1") = .ok (some x, [ascii '\x7d']) ∧
      read (input "1.50") = .ok (some x, [ascii '\x7d']) := by
  intro read input
  have hreads : ReadsNumbers read := NumberField.readsNumbers (.bandwidth _)
  have hstands {text : String} {numeral : Numeral}
      (h : Json.numeral .kept (Utf8.ofString text) = .ok (numeral, [])) :
      Stands [] (Utf8.ofString text) [ascii '\x7d'] numeral := by
    obtain ⟨spelled, htext, hspells⟩ := numeral_sound h
    rw [List.append_nil] at htext
    exact ⟨.nil, htext ▸ hspells, fun b hb => by cases hb; decide⟩
  have hpoint := hstands (show Json.numeral .kept (Utf8.ofString "1.5") =
    .ok (⟨false, [1], [5], none⟩, []) by decide +kernel)
  have hexponent := hstands (show Json.numeral .kept (Utf8.ofString "15e-1") =
    .ok (⟨false, [1, 5], [], some (true, [1])⟩, []) by decide +kernel)
  have hzero := hstands (show Json.numeral .kept (Utf8.ofString "1.50") =
    .ok (⟨false, [1], [5, 0], none⟩, []) by decide +kernel)
  have hpointFew : Numeral.GathersFew ⟨false, [1], [5], none⟩ :=
    Numeral.IsShort.gathersFew ⟨by decide, by decide, by decide⟩ hpoint.text (by decide +kernel)
  have hexponentFew : Numeral.GathersFew ⟨false, [1, 5], [], some (true, [1])⟩ :=
    Numeral.IsShort.gathersFew ⟨by decide, by decide, by decide⟩ hexponent.text (by decide +kernel)
  have hzeroFew : Numeral.GathersFew ⟨false, [1], [5, 0], none⟩ :=
    Numeral.IsShort.gathersFew ⟨by decide, by decide, by decide⟩ hzero.text (by decide +kernel)
  obtain ⟨x, x', hx, hx', -, hsame⟩ :=
    hreads.same hpoint hexponent hpointFew hexponentFew (by decide +kernel)
  obtain ⟨y, y', hy, hy', -, hsame'⟩ :=
    hreads.same hpoint hzero hpointFew hzeroFew (by decide +kernel)
  obtain rfl := hsame (.inr rfl)
  obtain rfl := hsame' (.inr rfl)
  obtain rfl : x = y := by
    have heq := hx.symm.trans hy
    exact Option.some.inj (Prod.mk.inj (Except.ok.inj heq)).1
  exact ⟨x, hx, hx', hy'⟩

end ChunkSizing
