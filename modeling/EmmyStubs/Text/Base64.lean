/-! # Octets in base 64

    Four characters of an alphabet of sixty-four stand for three octets, and equals signs fill
    up the last four.  The reader is lenient: a character outside the alphabet is passed over,
    and so is an equals sign that comes too early.  The first fill that is complete ends the
    text. -/

namespace EmmyStubs.Text.Base64

/-- The six bits that a character of the alphabet stands for. -/
def bitsOf? (c : Char) : Option Nat :=
  if 'A' ≤ c ∧ c ≤ 'Z' then some (c.toNat - 65)
  else if 'a' ≤ c ∧ c ≤ 'z' then some (c.toNat - 71)
  else if '0' ≤ c ∧ c ≤ '9' then some (c.toNat + 4)
  else if c = '+' then some 62
  else if c = '/' then some 63
  else none

/-- What is known inside a group of four: how many of its characters were read, the bits that
    form no octet yet, and how many equals signs stand right before. -/
structure Group where
  read : Nat := 0
  left : Nat := 0
  fills : Nat := 0

/-- The group after one more character of the alphabet, and the octet it completes. -/
def Group.add (g : Group) (bits : Nat) : Group × List UInt8 :=
  match g.read with
  | 0 => (⟨1, bits, 0⟩, [])
  | 1 => (⟨2, bits % 16, 0⟩, [UInt8.ofNat (g.left * 4 + bits / 16)])
  | 2 => (⟨3, bits % 4, 0⟩, [UInt8.ofNat (g.left * 16 + bits / 4)])
  | _ => (⟨0, 0, 0⟩, [UInt8.ofNat (g.left * 64 + bits)])

/-- The octets of a text inside a group; `none` when the text ends inside one. -/
def decodeFrom (g : Group) : List Char → Option (List UInt8)
  | [] => if g.read = 0 then some [] else none
  | c :: cs =>
    if c = '=' then
      if 2 ≤ g.read then
        if 4 ≤ g.read + g.fills + 1 then some []
        else decodeFrom { g with fills := g.fills + 1 } cs
      else decodeFrom g cs
    else
      match bitsOf? c with
      | none => decodeFrom g cs
      | some bits =>
        let (g, octets) := g.add bits
        (decodeFrom g cs).map (octets ++ ·)

/-- The octets that a text stands for. -/
def decode? (s : List Char) : Option (List UInt8) :=
  decodeFrom {} s

example : decode? "QUI=".toList = some [65, 66] ∧ decode? "QQ\n= =x".toList = some [65] := by
  decide +kernel
example : decode? "QUI".toList = none ∧ decode? "=".toList = some [] := by decide +kernel

end EmmyStubs.Text.Base64
