import ChunkSizing.Decimal.Layout

/-!
# ChunkSizing.Transfer.Basic — a file to be sent, and the advice on it.
-/

namespace ChunkSizing

/-- A file that is to be sent in chunks, and what is known of the link. The size is signed because
callers may send anything; planning is what refuses a negative one. -/
structure Transfer where
  /-- Size of the file in bytes. -/
  size : Int64
  /-- Carried along; no rule looks at it. -/
  mimeType : Option String
  /-- Megabits per second. -/
  bandwidth : Option Binary64
  /-- Milliseconds of a round trip. -/
  latency : Option Binary64
deriving DecidableEq

/-- The advice on a transfer. -/
structure Advice where
  /-- Size of a chunk in megabytes of `2 ^ 20` bytes. -/
  chunkSize : Binary64
deriving DecidableEq

/-- How many bytes make a megabyte. -/
def bytesPerMegabyte : Binary64 := 1048576

/-- **Whole bytes of a chunk**, rounded down. -/
def chunkBytes (megabytes : Binary64) : UInt64 := (megabytes * bytesPerMegabyte).toUInt64

/-! ## Usable advice -/

/-- Numbers in messages are written in full: no exponent, no `.0`, and of two equally near decimals
the one farther from zero. -/
def messageLayout : Layout := ⟨fun _ => true, false, .awayFromZero⟩

-- No exponent at either end, and no fraction on whole numbers.
example : messageLayout.text (.ofDecimal true ⟨1, 21⟩) = "-1000000000000000000000".toList ∧
    messageLayout.text (.ofDecimal true ⟨1, -7⟩) = "-0.0000001".toList := by decide +kernel

example : messageLayout.text (.zero true) = "-0".toList := by decide +kernel

/-- Advice that cannot be followed. -/
structure UnusableAdvice where
  chunkSize : Binary64
deriving DecidableEq

/-- The wording, with the offending value. -/
def UnusableAdvice.message (unusable : UnusableAdvice) : String :=
  "invalid chunk_size_mb from service: " ++ String.ofList (messageLayout.text unusable.chunkSize)

/-- **Advice is usable** if it is a finite positive size. -/
def Advice.check (advice : Advice) : Except UnusableAdvice Unit :=
  if advice.chunkSize.isFinite ∧ ¬ advice.chunkSize ≤ 0 then .ok ()
  else .error ⟨advice.chunkSize⟩

end ChunkSizing
