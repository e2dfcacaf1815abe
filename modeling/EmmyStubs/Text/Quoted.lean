import EmmyStubs.Text.Printable

/-! # Quoted text

    Messages show a text between quotes: apostrophes, unless the text holds an apostrophe and
    no double quote.  The quote in use and the backslash are escaped, line feed, carriage
    return and tab have letters, and any other unprintable character is written by its code
    point in two, four or eight hexadecimal digits.  Octets are shown alike behind a letter,
    those outside of ASCII by their number. -/

namespace EmmyStubs.Text.Quoted

/-- The digit of value `d` below sixteen. -/
def hexDigit (d : Nat) : Char :=
  if d < 10 then Char.ofNat (48 + d) else Char.ofNat (87 + d)

/-- The last `width` hexadecimal digits of `n`, most significant first. -/
def hexDigits (width n : Nat) : List Char :=
  (List.range width).reverse.map fun i => hexDigit (n / Nat.pow 16 i % 16)

/-- The quote put around a text: an apostrophe unless only that occurs in it. -/
def quoteFor (s : List Char) : Char :=
  if s.contains '\x27' && !s.contains '"' then '"' else '\x27'

/-- One character between the quotes `quote`. -/
def encodeChar (quote c : Char) : List Char :=
  if c = quote ∨ c = '\\' then ['\\', c]
  else if c = '\n' then ['\\', 'n']
  else if c = '\r' then ['\\', 'r']
  else if c = '\t' then ['\\', 't']
  else if isPrintable c then [c]
  else if c.toNat < 0x100 then '\\' :: 'x' :: hexDigits 2 c.toNat
  else if c.toNat < 0x10000 then '\\' :: 'u' :: hexDigits 4 c.toNat
  else '\\' :: 'U' :: hexDigits 8 c.toNat

/-- The text between its quotes. -/
def encode (s : String) : String :=
  let quote := quoteFor s.toList
  String.ofList (quote :: s.toList.flatMap (encodeChar quote) ++ [quote])

/-- One octet between the quotes `quote`. -/
def encodeOctet (quote : Char) (b : UInt8) : List Char :=
  if 0x7F ≤ b.toNat then '\\' :: 'x' :: hexDigits 2 b.toNat
  else encodeChar quote (Char.ofNat b.toNat)

/-- Some octets between their quotes. -/
def encodeOctets (bytes : List UInt8) : String :=
  let quote := quoteFor (bytes.map fun b => Char.ofNat b.toNat)
  String.ofList ('b' :: quote :: bytes.flatMap (encodeOctet quote) ++ [quote])

example : encode "it\x27s \"so\"\n" = "\x27it\\\x27s \"so\"\\n\x27" := by decide +kernel
example : encode "it\x27s\u200b" = "\"it\x27s\\u200b\"" := by decide +kernel
example : encodeOctets [0x41, 0x27, 0x00, 0xFF] = "b\"A\x27\\x00\\xff\"" := by decide +kernel

end EmmyStubs.Text.Quoted
