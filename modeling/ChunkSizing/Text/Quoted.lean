import ChunkSizing.Text.Unprintable

/-!
# ChunkSizing.Text.Quoted — text inside a message.

A message that shows a text puts it between double quotes. Quotes, backslashes and the common
controls are written with a backslash and a letter; every other character without a mark of its own
is written by its code point in braces, `\\u{7f}`; all else stands as it is.
-/

namespace ChunkSizing.Text

/-- How one character is shown. -/
def shown (c : Char) : List Char :=
  match c with
  | '\x00' => ['\\', '0']
  | '\t' => ['\\', 't']
  | '\n' => ['\\', 'n']
  | '\r' => ['\\', 'r']
  | '"' => ['\\', '"']
  | '\\' => ['\\', '\\']
  | c =>
    if isUnprintable c then ['\\', 'u', '\x7b'] ++ Nat.toDigits 16 c.toNat ++ ['\x7d'] else [c]

/-- **A text between quotes.** -/
def quoted (text : String) : String :=
  String.ofList ('"' :: text.toList.flatMap shown ++ ['"'])

example : quoted "a\x07\x7f\t'é" = "\"a\\u\x7b7\x7d\\u\x7b7f\x7d\\t'é\"" := by decide +kernel

end ChunkSizing.Text
