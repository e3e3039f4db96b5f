import TagFilter.NameMap

/-!
# JSON

JSON values, whose objects have their names in ascending order.  How a value is printed is left to a
printer.
-/

namespace TagFilter

/-- A JSON value. -/
inductive Json where
  /-- The value of nothing. -/
  | null
  /-- A truth value. -/
  | bool (b : Bool)
  /-- A whole number. -/
  | number (n : Int)
  /-- A text. -/
  | text (s : String)
  /-- Several values in order. -/
  | array (items : List Json)
  /-- A map from names to values. -/
  | object (fields : NameMap Json)

namespace Json

/-- The object with the given fields. -/
def ofFields (fields : List (String × Json)) : Json :=
  .object (NameMap.ofList fields)

/-- The array of texts. -/
def texts (items : List String) : Json :=
  .array (items.map .text)

/-- The text, or nothing. -/
def text? : Option String → Json
  | some s => .text s
  | none => .null

end Json

end TagFilter
