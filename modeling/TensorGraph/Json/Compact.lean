import TensorGraph.Json.Reader
/-!
# The compact layer

Values are written without blanks, and any JSON text is read.

Coders take a little more than is written: an alternative without contents may be an object
with the value `null`, and a structure an array of its one field; a field that is missing is
taken for `null`, and fields of other names are skipped.  A field may not come twice.
-/
namespace TensorGraph
namespace Json

def writeNull : List Char := ['n', 'u', 'l', 'l']

def writeNumber (n : Nat) : List Char := Nat.toDigits 10 n

def writeString (s : String) : List Char := '"' :: s.toList ++ ['"']

def writeField (s : String) (contents : List Char) : List Char :=
  '\x7b' :: writeString s ++ ':' :: contents ++ ['\x7d']

def commaSeparated : List (List Char) → List Char
  | [] => []
  | [x] => x
  | x :: xs => x ++ ',' :: commaSeparated xs

mutual

def Plain.write : Plain → List Char
  | .null => writeNull
  | .number n => writeNumber n
  | .string s => writeString s
  | .array items => '[' :: commaSeparated (writeAll items) ++ [']']
  | .field s p => writeField s p.write

def Plain.writeAll : List Plain → List (List Char)
  | [] => []
  | p :: ps => p.write :: writeAll ps

end

theorem Plain.writeAll_eq : ∀ ps : List Plain, writeAll ps = ps.map write
  | [] => rfl
  | p :: ps => by rw [writeAll, writeAll_eq ps, List.map_cons]

end Json

open Json (Plain)

namespace Coder

variable {α : Type}

/-- A number without sign, point and exponent. -/
def word (bound : Nat) : Coder Nat where
  toPlain := .number
  ofJson?
    | .integer false n => if n < bound then some n else none
    | _ => none

def option (c : Coder α) : Coder (Option α) where
  toPlain
    | none => .null
    | some a => c.toPlain a
  ofJson?
    | .null => some none
    | j => (c.ofJson? j).map some

def list (c : Coder α) : Coder (List α) where
  toPlain as := .array (as.map c.toPlain)
  ofJson?
    | .array items => items.mapM c.ofJson?
    | _ => none

def record (s : String) (c : Coder α) : Coder α where
  toPlain a := .field s (c.toPlain a)
  ofJson?
    | .array [j] => c.ofJson? j
    | .object fields =>
      if fields.all (fun f => f.1.isSome) then
        match fields.filter (fun f => f.1 = some s) with
        | [] => c.ofJson? .null
        | [(_, j)] => c.ofJson? j
        | _ => none
      else none
    | _ => none

/-- An alternative without contents is its name; one with contents is the field of an object. -/
def choice (units payloads : List String) (c : Coder α) : Coder (String × Option α) where
  toPlain
    | (s, none) => .string s
    | (s, some a) => .field s (c.toPlain a)
  ofJson?
    | .string (some s) => if s ∈ units then some (s, none) else none
    | .object [(some s, j)] =>
      if s ∈ payloads then (c.ofJson? j).map (fun a => (s, some a))
      else match j with
        | .null => if s ∈ units then some (s, none) else none
        | _ => none
    | _ => none

end Coder

def JsonLayer.compact : JsonLayer where
  write p := String.ofList p.write
  read? text := Json.parse? text.toList
  word := Coder.word
  option := Coder.option
  list := Coder.list
  record := Coder.record
  newtype c := c
  choice := Coder.choice

end TensorGraph
