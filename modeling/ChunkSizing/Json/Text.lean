import ChunkSizing.Json.Reader
import ChunkSizing.Text.Utf8

/-!
# ChunkSizing.Json.Text — JSON strings.

A string is read one byte at a time by a small machine. Its mode says what an escape still needs;
each step closes the string, goes on with the bytes that the escape stood for, or refuses. A skipped
string is read by the same machine with two liberties: surrogates need not be paired, and the bytes
need not be UTF-8.
-/

namespace ChunkSizing.Json

/-! ## The machine -/

/-- What an open string expects next. -/
inductive Mode where
  /-- Any byte of the text, an escape, or the closing quote. -/
  | plain
  /-- The letter of an escape. -/
  | escape
  /-- More of the four hex digits; `high` is the high surrogate before them. -/
  | hex (high : Option Nat) (digits : List UInt8)
  /-- The backslash of the low surrogate that belongs to `high`. -/
  | pairBackslash (high : Nat)
  /-- The letter of the low surrogate that belongs to `high`. -/
  | pairLetter (high : Nat)
deriving DecidableEq

/-- What one byte does to an open string. -/
inductive Step where
  | close
  | more (mode : Mode) (decoded : List UInt8)
  /-- Refused, with the byte counted. -/
  | refuse (cause : Cause)
  /-- Refused before the byte. -/
  | refuseBefore (cause : Cause)

/-- The value of a hex digit of either case. -/
def hexDigit? (b : UInt8) : Option Nat :=
  if ascii '0' ≤ b ∧ b ≤ ascii '9' then some (b.toNat - 48)
  else if ascii 'a' ≤ b ∧ b ≤ ascii 'f' then some (b.toNat - 87)
  else if ascii 'A' ≤ b ∧ b ≤ ascii 'F' then some (b.toNat - 55)
  else none

/-- The value of a run of hex digits. -/
def hexValue? (digits : List UInt8) : Option Nat :=
  digits.foldl (fun value? b => do return 16 * (← value?) + (← hexDigit? b)) (some 0)

/-- The bytes of a code point. -/
def codePoint (n : Nat) : List UInt8 := String.utf8EncodeChar (Char.ofNat n)

/-- A code unit that opens a surrogate pair. -/
def isHigh (unit : Nat) : Bool := 0xd800 ≤ unit && unit ≤ 0xdbff

/-- A code unit that closes a surrogate pair. -/
def isLow (unit : Nat) : Bool := 0xdc00 ≤ unit && unit ≤ 0xdfff

/-- **A complete unit.** A unit outside the surrogates is a character; a high one must be followed
by a low one, and the two are a character together. -/
def Mode.unit (high : Option Nat) (unit : Nat) : Step :=
  match high with
  | none =>
    if isLow unit then .refuse .loneSurrogate
    else if isHigh unit then .more (.pairBackslash unit) []
    else .more .plain (codePoint unit)
  | some high =>
    if isLow unit then
      .more .plain (codePoint (0x10000 + (high - 0xd800) * 0x400 + (unit - 0xdc00)))
    else .refuse .loneSurrogate

/-- The letter of an escape. -/
def Mode.letter (b : UInt8) : Step :=
  if b = ascii '"' ∨ b = ascii '\\' ∨ b = ascii '/' then .more .plain [b]
  else if b = ascii 'b' then .more .plain [8]
  else if b = ascii 'f' then .more .plain [12]
  else if b = ascii 'n' then .more .plain [10]
  else if b = ascii 'r' then .more .plain [13]
  else if b = ascii 't' then .more .plain [9]
  else if b = ascii 'u' then .more (.hex none []) []
  else .refuse .invalidEscape

/-- **One byte of an open string.** -/
def Mode.step (use : Use) (mode : Mode) (b : UInt8) : Step :=
  match mode with
  | plain =>
    if b = ascii '"' then .close
    else if b = ascii '\\' then .more escape []
    else if b < 32 then
      match use with
      | .kept => .refuse .controlCharacter
      | .skipped => .refuseBefore .controlCharacter
    else .more plain [b]
  | escape => Mode.letter b
  | hex high digits =>
    if digits.length < 3 then .more (hex high (digits ++ [b])) []
    else
      match use, hexValue? (digits ++ [b]) with
      | _, none => .refuse .invalidEscape
      | .kept, some unit => Mode.unit high unit
      | .skipped, some _ => .more plain []
  | pairBackslash high =>
    if b = ascii '\\' then .more (pairLetter high) [] else .refuse .endedSurrogatePair
  | pairLetter high =>
    if b = ascii 'u' then .more (hex (some high) []) [] else .refuse .endedSurrogatePair

/-! ## Reading -/

/-- Reads to the closing quote. The decoded bytes so far are held in reverse; a skipped string holds
none. -/
def textFrom (use : Use) (mode : Mode) (decoded : List UInt8) : Reader (List UInt8)
  | [] => stopAt (.ended .text) []
  | b :: rest =>
    match mode.step use b with
    | .close => .ok (decoded.reverse, rest)
    | .more mode more =>
      textFrom use mode (if use = .kept then more.reverse ++ decoded else []) rest
    | .refuse cause => stopAt cause rest
    | .refuseBefore cause => stopAt cause (b :: rest)

theorem textFrom_leaves (use : Use) (mode : Mode) (decoded : List UInt8) :
    (textFrom use mode decoded).Leaves := by
  intro input
  induction input generalizing mode decoded with
  | nil => intro _ _ h; simp [textFrom, stopAt] at h
  | cons b rest ih =>
    intro _ _ h
    simp only [textFrom] at h
    split at h
    · simp only [Except.ok.injEq, Prod.mk.injEq] at h
      exact h.2 ▸ List.suffix_cons b rest
    · exact (ih _ _ h).trans (List.suffix_cons b rest)
    · simp [stopAt] at h
    · simp [stopAt] at h

/-- **A string that is kept**, from behind its opening quote. The decoded bytes must be a text; if
they are not, the position counts back from the closing quote over the bytes behind the good
beginning. -/
def text : Reader String := fun input =>
  match textFrom .kept .plain [] input with
  | .error fault => .error fault
  | .ok (bytes, rest) =>
    match Utf8.decode bytes with
    | .ok chars => .ok (String.ofList chars, rest)
    | .error good => .error ⟨.invalidText, rest.length + (bytes.length - good), none⟩

theorem text_leaves : text.Leaves := by
  intro input _ _ h
  simp only [text] at h
  split at h
  · simp at h
  · rename_i hread
    split at h
    · simp only [Except.ok.injEq, Prod.mk.injEq] at h
      exact h.2 ▸ textFrom_leaves _ _ _ hread
    · simp at h

/-- A string that is skipped, from behind its opening quote. -/
def skipText (input : List UInt8) : Except Fault (List UInt8) :=
  (textFrom .skipped .plain [] input).map Prod.snd

theorem skipText_suffix {input rest : List UInt8} (h : skipText input = .ok rest) :
    rest <:+ input := by
  obtain ⟨_, hread, rfl⟩ := map_eq_ok_iff.1 h
  exact textFrom_leaves _ _ _ hread

end ChunkSizing.Json
