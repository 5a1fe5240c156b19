/-!
# JSON values, and layers that write and read them

`Json` is what a text is read as.  The tree keeps what decides whether a text is a shape, a
dimension, an element type or a number: integers are kept exactly, every other number only
as being one.  The fields of an object stay in order and may repeat.  A string is absent if
its escapes name half of a surrogate pair.  Such a string may stand where nobody reads it,
but it is no text.

`Json.Plain` is what is written: integers without sign, strings, arrays, nulls, and objects
with a single field.

How types are serialised follows from their declarations: a declaration is put together from
words, options, lists, structures and choices, and a `JsonLayer` says of each of these how
it is coded.  Which texts a layer writes for plain values, and what else it reads, is its
own affair.
-/
namespace TensorGraph

inductive Json where
  | null
  | bool (b : Bool)
  /-- A number without point and exponent. -/
  | integer (negative : Bool) (magnitude : Nat)
  /-- A number with a point or an exponent. -/
  | decimal
  | string (text : Option String)
  | array (items : List Json)
  | object (fields : List (Option String × Json))

namespace Json

inductive Plain where
  | null
  | number (n : Nat)
  | string (text : String)
  | array (items : List Plain)
  /-- An object with a single field. -/
  | field (name : String) (contents : Plain)

mutual

/-- The value as a reader sees it. -/
def Plain.toJson : Plain → Json
  | .null => .null
  | .number n => .integer false n
  | .string s => .string (some s)
  | .array items => .array (toJsons items)
  | .field s p => .object [(some s, p.toJson)]

def Plain.toJsons : List Plain → List Json
  | [] => []
  | p :: ps => p.toJson :: toJsons ps

end

theorem Plain.toJsons_eq : ∀ ps : List Plain, toJsons ps = ps.map toJson
  | [] => rfl
  | p :: ps => by rw [toJsons, toJsons_eq ps, List.map_cons]

end Json

/-- How the things of a type are put into JSON values and taken out of them. -/
structure Coder (α : Type) where
  toPlain : α → Json.Plain
  ofJson? : Json → Option α

/-- Code things as what they are made of. -/
def Coder.via {α β : Type} (c : Coder β) (parts : α → β) (ofParts? : β → Option α) : Coder α where
  toPlain a := c.toPlain (parts a)
  ofJson? j := (c.ofJson? j).bind ofParts?

/-- What writes and reads JSON text, and codes what declarations are put together from. -/
structure JsonLayer where
  write : Json.Plain → String
  read? : String → Option Json
  /-- Unsigned integers below a bound. -/
  word : Nat → Coder Nat
  option : {α : Type} → Coder α → Coder (Option α)
  list : {α : Type} → Coder α → Coder (List α)
  /-- A structure with a single field, which has a name. -/
  record : {α : Type} → String → Coder α → Coder α
  /-- A structure with a single field, which has no name. -/
  newtype : {α : Type} → Coder α → Coder α
  /-- A choice: the names of the alternatives without contents, then those of the alternatives
  with contents, and a coder of these.  What is chosen is named, with its contents if it has
  any. -/
  choice : {α : Type} → List String → List String → Coder α → Coder (String × Option α)

namespace JsonLayer

variable {α : Type}

/-- The text of a thing. -/
def textOf (L : JsonLayer) (c : Coder α) (a : α) : String := L.write (c.toPlain a)

/-- Read a text that holds one thing of some kind. -/
def valueOf? (L : JsonLayer) (c : Coder α) (text : String) : Option α := (L.read? text).bind c.ofJson?

end JsonLayer
end TensorGraph
