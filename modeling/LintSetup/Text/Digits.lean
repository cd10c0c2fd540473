/-!
# Digits

The formats that are read and written here know the ten digits of ASCII, and letters for the digits
from ten to fifteen.  A search for numbers in free text also has to see the digits of other scripts:
the characters with the Unicode property `Decimal_Number`.  They come in runs of ten; the
mathematical digits are five runs in a row.

* `isDigit`, `digitValue`, `hexValue?`, `digitsValue?` --- ASCII digits and their values;
* `isAnyDigit` --- digits of all scripts.
-/

namespace LintSetup.Text

/-- Whether a character is a decimal digit of ASCII. -/
def isDigit (c : Char) : Bool := '0' ≤ c && c ≤ '9'

/-- The value of a decimal digit. -/
def digitValue (c : Char) : Nat := c.toNat - 48

/-- The value of a digit of a base up to sixteen. -/
def hexValue? (c : Char) : Option Nat :=
  if isDigit c then some (digitValue c)
  else if 'a' ≤ c && c ≤ 'f' then some (c.toNat - 87)
  else if 'A' ≤ c && c ≤ 'F' then some (c.toNat - 55)
  else none

/-- The value of digits of a base; there is at least one, and all of them are below the base. -/
def digitsValue? (base : Nat) : List Char → Option Nat
  | [] => none
  | cs => (cs.mapM fun c => (hexValue? c).filter (· < base)).map
      (·.foldl (fun n d => n * base + d) 0)

/-- The first digit of each run of ten. -/
def digitRuns : List Nat :=
  [0x30, 0x660, 0x6F0, 0x7C0, 0x966, 0x9E6, 0xA66, 0xAE6, 0xB66, 0xBE6, 0xC66, 0xCE6, 0xD66, 0xDE6,
   0xE50, 0xED0, 0xF20, 0x1040, 0x1090, 0x17E0, 0x1810, 0x1946, 0x19D0, 0x1A80, 0x1A90, 0x1B50,
   0x1BB0, 0x1C40, 0x1C50, 0xA620, 0xA8D0, 0xA900, 0xA9D0, 0xA9F0, 0xAA50, 0xABF0, 0xFF10, 0x104A0,
   0x10D30, 0x10D40, 0x11066, 0x110F0, 0x11136, 0x111D0, 0x112F0, 0x11450, 0x114D0, 0x11650,
   0x116C0, 0x116D0, 0x116DA, 0x11730, 0x118E0, 0x11950, 0x11BF0, 0x11C50, 0x11D50, 0x11DA0,
   0x11F50, 0x16130, 0x16A60, 0x16AC0, 0x16B50, 0x16D70, 0x1CCF0, 0x1D7CE, 0x1D7D8, 0x1D7E2,
   0x1D7EC, 0x1D7F6, 0x1E140, 0x1E2F0, 0x1E4F0, 0x1E5F1, 0x1E950, 0x1FBF0]

/-- Whether a character is a decimal digit of any script. -/
def isAnyDigit (c : Char) : Bool := digitRuns.any fun first => first ≤ c.toNat && c.toNat < first + 10

end LintSetup.Text
