import TensorGraph.Json.Layer
/-!
# Reading JSON text

The reader follows the grammar.  Each function takes the characters that are left and
answers with a value and the characters after it, or with nothing if the text is at fault.
`Json.parse?` reads one value with nothing but blanks around it.

Nesting is bounded by fuel, one unit for each value, item and field; a text has fewer of
these than characters.
-/
namespace TensorGraph
namespace Json

/-- The four characters that may stand between tokens. -/
def isGap (c : Char) : Bool := c = ' ' || c = '\t' || c = '\n' || c = '\r'

def skipGaps (cs : List Char) : List Char := cs.dropWhile isGap

/-! ## Numbers -/

/-- Drop a run of digits that must not be empty. -/
def someDigits? (cs : List Char) : Option (List Char) :=
  match cs with
  | c :: rest => if c.isDigit then some (rest.dropWhile Char.isDigit) else none
  | [] => none

/-- Drop a point with its digits, if one follows; the flag says so. -/
def fraction? (cs : List Char) : Option (Bool × List Char) :=
  match cs with
  | '.' :: rest => (someDigits? rest).map (fun r => (true, r))
  | _ => some (false, cs)

/-- Drop an exponent, if one follows; the flag says so. -/
def exponent? (cs : List Char) : Option (Bool × List Char) :=
  match cs with
  | c :: rest =>
    if c = 'e' || c = 'E' then
      let digits := match rest with
        | sign :: more => if sign = '+' || sign = '-' then more else rest
        | [] => rest
      (someDigits? digits).map (fun r => (true, r))
    else some (false, cs)
  | [] => some (false, cs)

/-- The digits before the point: a zero, or digits that do not start with one. -/
def whole? (cs : List Char) : Option (Nat × List Char) :=
  match cs with
  | '0' :: rest => some (0, rest)
  | c :: rest =>
    if c.isDigit then some (Nat.ofDigitChars 10 (c :: rest.takeWhile Char.isDigit) 0, rest.dropWhile Char.isDigit)
    else none
  | [] => none

def number? (negative : Bool) (cs : List Char) : Option (Json × List Char) := do
  let (n, rest) ← whole? cs
  let (point, rest) ← fraction? rest
  let (power, rest) ← exponent? rest
  return (if point || power then decimal else integer negative n, rest)

/-! ## Strings -/

/-- A character of a string, or a unit given by its number. -/
inductive Piece where
  | char (c : Char)
  | unit (n : Nat)

def hexDigit? (c : Char) : Option Nat :=
  if c.isDigit then some (c.toNat - '0'.toNat)
  else if 'a' ≤ c ∧ c ≤ 'f' then some (c.toNat - 'a'.toNat + 10)
  else if 'A' ≤ c ∧ c ≤ 'F' then some (c.toNat - 'A'.toNat + 10)
  else none

def hexDigits? (a b c d : Char) : Option Nat := do
  let a ← hexDigit? a
  let b ← hexDigit? b
  let c ← hexDigit? c
  let d ← hexDigit? d
  return ((a * 16 + b) * 16 + c) * 16 + d

/-- The character that an escape of one letter stands for. -/
def escaped? (letter : Char) : Option Char :=
  if letter = '"' || letter = '\\' || letter = '/' then some letter
  else if letter = 'b' then some '\x08'
  else if letter = 'f' then some '\x0c'
  else if letter = 'n' then some '\n'
  else if letter = 'r' then some '\r'
  else if letter = 't' then some '\t'
  else none

/-- The pieces of a string up to the closing quote. -/
def pieces? : List Char → Option (List Piece × List Char)
  | '"' :: rest => some ([], rest)
  | '\\' :: 'u' :: a :: b :: c :: d :: rest => do
    let n ← hexDigits? a b c d
    let (ps, rest) ← pieces? rest
    return (.unit n :: ps, rest)
  | '\\' :: letter :: rest => do
    let c ← escaped? letter
    let (ps, rest) ← pieces? rest
    return (.char c :: ps, rest)
  | c :: rest => do
    if c.toNat < 0x20 then none
    let (ps, rest) ← pieces? rest
    return (.char c :: ps, rest)
  | [] => none

def isHighSurrogate (n : Nat) : Bool := 0xD800 ≤ n && n ≤ 0xDBFF
def isLowSurrogate (n : Nat) : Bool := 0xDC00 ≤ n && n ≤ 0xDFFF

/-- Join the halves of surrogate pairs; nothing, if one half is missing. -/
def joinPieces? : List Piece → Option (List Char)
  | [] => some []
  | .char c :: rest => (joinPieces? rest).map (c :: ·)
  | .unit n :: rest =>
    if isLowSurrogate n then none
    else if isHighSurrogate n then
      match rest with
      | .unit low :: rest =>
        if isLowSurrogate low then
          (joinPieces? rest).map (Char.ofNat (0x10000 + (n - 0xD800) * 0x400 + (low - 0xDC00)) :: ·)
        else none
      | _ => none
    else (joinPieces? rest).map (Char.ofNat n :: ·)

def string? (cs : List Char) : Option (Option String × List Char) := do
  let (ps, rest) ← pieces? cs
  return ((joinPieces? ps).map String.ofList, rest)

/-! ## Values -/

mutual

/-- A value, after blanks. -/
def value? : Nat → List Char → Option (Json × List Char)
  | 0, _ => none
  | fuel + 1, cs =>
    match skipGaps cs with
    | 'n' :: 'u' :: 'l' :: 'l' :: rest => some (null, rest)
    | 't' :: 'r' :: 'u' :: 'e' :: rest => some (bool true, rest)
    | 'f' :: 'a' :: 'l' :: 's' :: 'e' :: rest => some (bool false, rest)
    | '"' :: rest => (string? rest).map (fun (s, rest) => (string s, rest))
    | '[' :: rest =>
      match skipGaps rest with
      | ']' :: rest => some (array [], rest)
      | rest => (items? fuel rest).map (fun (xs, rest) => (array xs, rest))
    | '\x7b' :: rest =>
      match skipGaps rest with
      | '\x7d' :: rest => some (object [], rest)
      | rest => (fields? fuel rest).map (fun (xs, rest) => (object xs, rest))
    | '-' :: rest => number? true rest
    | rest => number? false rest

/-- The items of an array that is not empty, with the closing bracket. -/
def items? : Nat → List Char → Option (List Json × List Char)
  | 0, _ => none
  | fuel + 1, cs => do
    let (x, rest) ← value? fuel cs
    match skipGaps rest with
    | ']' :: rest => return ([x], rest)
    | ',' :: rest => do
      let (xs, rest) ← items? fuel rest
      return (x :: xs, rest)
    | _ => none

/-- The fields of an object that is not empty, with the closing brace. -/
def fields? : Nat → List Char → Option (List (Option String × Json) × List Char)
  | 0, _ => none
  | fuel + 1, cs =>
    match skipGaps cs with
    | '"' :: rest => do
      let (name, rest) ← string? rest
      match skipGaps rest with
      | ':' :: rest => do
        let (x, rest) ← value? fuel rest
        match skipGaps rest with
        | '\x7d' :: rest => return ([(name, x)], rest)
        | ',' :: rest => do
          let (xs, rest) ← fields? fuel rest
          return ((name, x) :: xs, rest)
        | _ => none
      | _ => none
    | _ => none

end

/-- The value that a text holds. -/
def parse? (cs : List Char) : Option Json := do
  let (x, rest) ← value? (cs.length + 1) cs
  if (skipGaps rest).isEmpty then some x else none

end Json
end TensorGraph
