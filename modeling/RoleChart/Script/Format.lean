/-!
Formatted text, as a script writes it: escapes stand for single bytes, and directives for the
arguments, which are taken one after another. A format that takes arguments is applied again while
any are left.
-/
namespace RoleChart.Script

/-- Bytes that a command reads or writes. -/
abbrev Bytes := List UInt8

/-- The bytes of a text. -/
def bytesOf (s : String) : Bytes := s.toUTF8.toList

/-- The value of up to three digits in base eight, and what follows them. -/
def readOctal : Nat → Nat → List Char → Nat × List Char
  | 0, n, cs => (n, cs)
  | limit + 1, n, cs =>
    match cs with
    | c :: rest =>
      if '0' ≤ c ∧ c ≤ '7' then readOctal limit (8 * n + (c.toNat - '0'.toNat)) rest else (n, cs)
    | [] => (n, cs)

/-- The bytes of an escape, and what follows it; the backslash lies before. -/
def escapeBytes (cs : List Char) : Bytes × List Char :=
  match cs with
  | [] => (bytesOf "\\", [])
  | c :: rest =>
    match c with
    | 'n' => ([10], rest)
    | 't' => ([9], rest)
    | 'r' => ([13], rest)
    | 'a' => ([7], rest)
    | 'b' => ([8], rest)
    | 'f' => ([12], rest)
    | 'v' => ([11], rest)
    | '\\' => (bytesOf "\\", rest)
    | c =>
      if '0' ≤ c ∧ c ≤ '7' then
        let (n, rest) := readOctal 3 0 (c :: rest)
        ([UInt8.ofNat n], rest)
      else (bytesOf ("\\" ++ c.toString), rest)

/-- One pass over a format: the bytes it gives, the arguments it leaves, and whether it took any. -/
def formatOnce : Nat → List Char → List String → Bytes × List String × Bool
  | 0, _, args => ([], args, false)
  | limit + 1, cs, args =>
    match cs with
    | [] => ([], args, false)
    | '\\' :: rest =>
      let (bytes, rest) := escapeBytes rest
      let (more, args, took) := formatOnce limit rest args
      (bytes ++ more, args, took)
    | '%' :: '%' :: rest =>
      let (more, args, took) := formatOnce limit rest args
      (bytesOf "%" ++ more, args, took)
    | '%' :: 's' :: rest =>
      let (more, others, _) := formatOnce limit rest (args.drop 1)
      (bytesOf (args.head?.getD "") ++ more, others, true)
    | '%' :: 'd' :: rest =>
      let (more, others, _) := formatOnce limit rest (args.drop 1)
      (bytesOf (args.head?.getD "0") ++ more, others, true)
    | c :: rest =>
      let (more, args, took) := formatOnce limit rest args
      (bytesOf c.toString ++ more, args, took)

/-- A format applied again and again until no argument is left. -/
def formatAll : Nat → List Char → List String → Bytes
  | 0, _, _ => []
  | limit + 1, cs, args =>
    let (bytes, left, took) := formatOnce (cs.length + 1) cs args
    if took && !left.isEmpty then bytes ++ formatAll limit cs left else bytes

end RoleChart.Script
