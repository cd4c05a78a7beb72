import ChunkSizing.Json.Document
import ChunkSizing.Proofs.Json.Denotation

/-!
# ChunkSizing.Proofs.Json.Quoted — what quoted strings denote.

The escaped form of a character stands for its bytes (`unescapes_escaped`): most characters are
their own form, seven have a letter, and the remaining controls are written in hex digits. A whole
string follows by induction, so the text of a string denotes the string (`denotesText_chars`).
-/

namespace ChunkSizing.Json

variable {use : Use} {raw bytes rest : List UInt8}

/-! ## One character -/

theorem Unescapes.plain_append {piece : List UInt8} (hpiece : ∀ b ∈ piece, IsPlain b)
    (h : Unescapes use raw bytes) : Unescapes use (piece ++ raw) (piece ++ bytes) := by
  induction piece with
  | nil => exact h
  | cons b piece ih =>
    exact .plain (hpiece b List.mem_cons_self)
      (ih fun c hc => hpiece c (List.mem_cons_of_mem b hc))

/-- A character that is neither escaped nor a control has plain bytes. -/
theorem isPlain_of_mem {c : Char} (hquote : c ≠ '"') (hbackslash : c ≠ '\\')
    (hcontrol : 32 ≤ c.toNat) {b : UInt8} (hb : b ∈ String.utf8EncodeChar c) : IsPlain b := by
  rcases Nat.lt_or_ge 0x7f c.toNat with hwide | hascii
  · have hlarge := Utf8.le_of_mem_utf8EncodeChar hwide hb
    refine ⟨?_, ?_, ?_⟩
    · rintro rfl
      revert hlarge
      decide
    · rintro rfl
      revert hlarge
      decide
    · intro hlt
      have : b.toNat < 32 := UInt8.lt_iff_toNat_lt.1 hlt
      omega
  · rw [Utf8.utf8EncodeChar_one hascii, List.mem_singleton] at hb
    have hvalue : b.toNat = c.toNat := hb ▸ Utf8.toNat_byte (by omega)
    refine ⟨?_, ?_, ?_⟩
    · rintro rfl
      exact hquote (Char.toNat_inj.1 hvalue.symm)
    · rintro rfl
      exact hbackslash (Char.toNat_inj.1 hvalue.symm)
    · intro hlt
      have : b.toNat < 32 := UInt8.lt_iff_toNat_lt.1 hlt
      omega

/-- The four hex digits of a control stand for it. -/
theorem hexValue?_control : ∀ n < 32, hexValue? [ascii '0', ascii '0',
    (hexDigit (n / 16)).toUInt8, (hexDigit (n % 16)).toUInt8] = some n := by
  decide

theorem encode_hexDigit :
    ∀ n < 16, String.utf8EncodeChar (hexDigit n) = [(hexDigit n).toUInt8] := by
  decide

/-- **One character** in its escaped form stands for its bytes. -/
theorem unescapes_escaped (c : Char) (h : Unescapes use raw bytes) :
    Unescapes use (Utf8.encode (escaped c) ++ raw) (String.utf8EncodeChar c ++ bytes) := by
  unfold escaped
  split
  · exact .short (show (ascii '"', ascii '"') ∈ shortEscapes by decide) h
  · exact .short (show (ascii '\\', ascii '\\') ∈ shortEscapes by decide) h
  · exact .short (show (ascii 'b', 8) ∈ shortEscapes by decide) h
  · exact .short (show (ascii 'f', 12) ∈ shortEscapes by decide) h
  · exact .short (show (ascii 'n', 10) ∈ shortEscapes by decide) h
  · exact .short (show (ascii 'r', 13) ∈ shortEscapes by decide) h
  · exact .short (show (ascii 't', 9) ∈ shortEscapes by decide) h
  rename_i hquote hbackslash _ _ _ _ _
  split
  · rename_i hcontrol
    have hhigh := encode_hexDigit (c.toNat / 16) (by omega)
    have hlow := encode_hexDigit (c.toNat % 16) (by omega)
    have hunit := hexValue?_control c.toNat hcontrol
    -- a control is no half of a pair, so its four digits are a character of their own
    have hnone : isLow c.toNat = false ∧ isHigh c.toNat = false := by
      unfold isLow isHigh
      simp only [Bool.and_eq_false_iff, decide_eq_false_iff_not]
      omega
    have hencode : Utf8.encode ['\\', 'u', '0', '0', hexDigit (c.toNat / 16),
        hexDigit (c.toNat % 16)] = [ascii '\\', ascii 'u', ascii '0', ascii '0',
          (hexDigit (c.toNat / 16)).toUInt8, (hexDigit (c.toNat % 16)).toUInt8] := by
      simp only [Utf8.encode_cons, hhigh, hlow]
      rfl
    have hcode : codePoint c.toNat = String.utf8EncodeChar c := by
      unfold codePoint
      rw [Char.ofNat_toNat]
    rw [hencode, ← hcode]
    exact .unit hunit hnone.2 hnone.1 h
  · rename_i hcontrol
    rw [show Utf8.encode [c] = String.utf8EncodeChar c from List.append_nil _]
    apply h.plain_append
    intro b hb
    exact isPlain_of_mem hquote hbackslash (by omega) hb

/-! ## A whole string -/

theorem unescapes_flatMap_escaped (chars : List Char) :
    Unescapes use (Utf8.encode (chars.flatMap escaped)) (Utf8.encode chars) := by
  induction chars with
  | nil => exact .nil
  | cons c chars ih =>
    rw [List.flatMap_cons, Utf8.encode_append, Utf8.encode_cons]
    exact unescapes_escaped c ih

theorem spellsText_flatMap_escaped (chars : List Char) :
    SpellsText (Utf8.encode (chars.flatMap escaped)) (String.ofList chars) := by
  unfold SpellsText Utf8.ofString
  rw [String.toList_ofList]
  exact unescapes_flatMap_escaped chars

theorem encode_quote (chars : List Char) : Utf8.encode (quote chars) ++ rest =
    ascii '"' :: (Utf8.encode (chars.flatMap escaped) ++ ascii '"' :: rest) := by
  unfold quote
  rw [List.cons_append, Utf8.encode_cons, Utf8.encode_append, List.append_assoc, List.append_assoc]
  rfl

/-- **The text of a string** denotes the string. -/
theorem denotesText_chars (value : String) :
    DenotesText (Utf8.encode (Atom.text value).chars) value := by
  have hspells := spellsText_flatMap_escaped value.toList
  rw [String.ofList_toList] at hspells
  refine ⟨_, ?_, hspells⟩
  rw [Atom.chars, ← List.append_nil (Utf8.encode _), encode_quote]

end ChunkSizing.Json
