/-!
# Text as bytes

Files and streams hold bytes.  A text is written as its UTF-8 form; reading cuts the bytes into
the longest pieces that could begin a well-formed sequence, so that every byte sequence has a
reading, and the reading says where a piece was not well-formed.

* `encode` --- the bytes of a text;
* `scan` --- the pieces of a byte sequence: a character, or `none` where bytes are malformed;
* `decode?` --- the text, if nothing is malformed;
* `decodeLossy` --- the text with one replacement character per malformed piece.
-/

namespace LintSetup.Text

/-- A sequence of bytes. -/
abbrev Bytes := List UInt8

/-- The UTF-8 form of a text. -/
def encode (s : String) : Bytes := s.toUTF8.toList

/-- Whether a byte continues a sequence. -/
def isContinuation (b : UInt8) : Bool := 0x80 ≤ b && b ≤ 0xBF

/-- The number of continuation bytes that a first byte of a longer sequence asks for, and the range
that the first of them has to be in.  The narrower ranges leave out overlong forms, surrogates and
numbers beyond the last code point. -/
def continuations (b : UInt8) : Option (Nat × UInt8 × UInt8) :=
  if 0xC2 ≤ b && b ≤ 0xDF then some (1, 0x80, 0xBF)
  else if b == 0xE0 then some (2, 0xA0, 0xBF)
  else if b == 0xED then some (2, 0x80, 0x9F)
  else if 0xE1 ≤ b && b ≤ 0xEF then some (2, 0x80, 0xBF)
  else if b == 0xF0 then some (3, 0x90, 0xBF)
  else if b == 0xF4 then some (3, 0x80, 0x8F)
  else if 0xF1 ≤ b && b ≤ 0xF3 then some (3, 0x80, 0xBF)
  else none

/-- Where the scan stands: between sequences, or inside one, with the bits read so far, the number
of bytes still missing and the range of the next one. -/
inductive ScanState where
  | between
  | inside (bits : Nat) (missing : Nat) (low high : UInt8)

/-- The bits that a first byte of a longer sequence contributes. -/
def firstBits (b : UInt8) : Nat :=
  if b < 0xE0 then b.toNat % 32 else if b < 0xF0 then b.toNat % 16 else b.toNat % 8

/-- What a byte between two sequences means: it is a character, it begins a sequence, or it is
malformed. -/
def startSequence (b : UInt8) : List (Option Char) × ScanState :=
  if b < 0x80 then ([some (Char.ofNat b.toNat)], .between)
  else
    match continuations b with
    | some (n, low, high) => ([], .inside (firstBits b) n low high)
    | none => ([none], .between)

/-- One step of the scan: the pieces that the byte completes and the state after it. -/
def scanByte : ScanState → UInt8 → List (Option Char) × ScanState
  | .between, b => startSequence b
  | .inside bits missing low high, b =>
    if low ≤ b && b ≤ high then
      let bits := bits * 64 + b.toNat % 64
      if missing ≤ 1 then ([some (Char.ofNat bits)], .between)
      else ([], .inside bits (missing - 1) 0x80 0xBF)
    else
      let (pieces, state) := startSequence b
      (none :: pieces, state)

/-- The pieces of a byte sequence read from a state. -/
def scan : ScanState → Bytes → List (Option Char)
  | .between, [] => []
  | .inside .., [] => [none]
  | state, b :: bs =>
    let (pieces, state) := scanByte state b
    pieces ++ scan state bs

/-- The text that bytes are the UTF-8 form of. -/
def decode? (bs : Bytes) : Option String :=
  ((scan .between bs).mapM id).map String.ofList

/-- The text with the replacement character for every malformed piece. -/
def decodeLossy (bs : Bytes) : String :=
  String.ofList ((scan .between bs).map (·.getD '\uFFFD'))

end LintSetup.Text
