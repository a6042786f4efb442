/-!
Reading bytes as UTF-8 text. Bytes that are not UTF-8 throughout have no text of their own; where
a text is wanted all the same, each longest run of bytes that starts a character and breaks off,
and each byte that starts none, becomes one replacement character.
-/
namespace RoleChart.Text

/-- The character shown for bytes that are not UTF-8. -/
def replacement : Char := '\ufffd'

/-- The bounds of the second byte of a character that starts with `b`, and the number of bytes
that follow `b`; none where `b` starts no character of two or more bytes. -/
def leadRange (b : Nat) : Option (Nat × Nat × Nat) :=
  if 0xC2 ≤ b ∧ b ≤ 0xDF then some (0x80, 0xBF, 1)
  else if b = 0xE0 then some (0xA0, 0xBF, 2)
  else if b = 0xED then some (0x80, 0x9F, 2)
  else if 0xE1 ≤ b ∧ b ≤ 0xEF then some (0x80, 0xBF, 2)
  else if b = 0xF0 then some (0x90, 0xBF, 3)
  else if 0xF1 ≤ b ∧ b ≤ 0xF3 then some (0x80, 0xBF, 3)
  else if b = 0xF4 then some (0x80, 0x8F, 3)
  else none

/-- The payload of the first byte of a character of `more + 1` bytes. -/
def leadBits (more b : Nat) : Nat :=
  if more = 1 then b - 0xC0 else if more = 2 then b - 0xE0 else b - 0xF0

/-- A character that has begun: the bounds of its next byte, the number of bytes still owed, and
the value of those seen. -/
structure Partial where
  low : Nat
  high : Nat
  owed : Nat
  value : Nat

/-- The characters of `bytes`, where `open?` is the character begun before them. -/
def decodeLossyFrom (open? : Option Partial) : List UInt8 → List Char
  | [] => match open? with
    | none => []
    | some _ => [replacement]
  | byte :: rest =>
    let b := byte.toNat
    let start (before : List Char) : List Char :=
      if b < 0x80 then before ++ Char.ofNat b :: decodeLossyFrom none rest
      else match leadRange b with
        | none => before ++ replacement :: decodeLossyFrom none rest
        | some (low, high, more) =>
          before ++ decodeLossyFrom (some ⟨low, high, more, leadBits more b⟩) rest
    match open? with
    | none => start []
    | some p =>
      if p.low ≤ b ∧ b ≤ p.high then
        let value := p.value * 64 + (b - 0x80)
        if p.owed = 1 then Char.ofNat value :: decodeLossyFrom none rest
        else decodeLossyFrom (some ⟨0x80, 0xBF, p.owed - 1, value⟩) rest
      else start [replacement]

/-- The text of `bytes`, with a replacement character for what is not UTF-8. -/
def decodeLossy (bytes : ByteArray) : String :=
  match String.fromUTF8? bytes with
  | some s => s
  | none => String.ofList (decodeLossyFrom none bytes.toList)

end RoleChart.Text
