import TagFilter.Calendar.Date
import TagFilter.Calendar.TimeOfDay
import TagFilter.Name
import TagFilter.NameMap
import TagFilter.Number.Basic

/-!
# Values and records

A value is what a tag holds and what a literal writes.  A record is a map from tag names to values,
and is a value itself.  Values are the same when they are equal up to what does not count: the
display name of a ref, and the sign of zero.
-/

namespace TagFilter

/-- A typed value. -/
inductive Value where
  /-- The value that only marks a record. -/
  | marker
  /-- A truth value. -/
  | bool (b : Bool)
  /-- A number with an optional unit. -/
  | number (n : Number)
  /-- A text. -/
  | str (text : String)
  /-- A day. -/
  | date (d : Date)
  /-- A time of day. -/
  | time (t : TimeOfDay)
  /-- A reference to a record. -/
  | ref (r : Ref)
  /-- The name of a def. -/
  | symbol (s : Symbol)
  /-- A uniform resource identifier. -/
  | uri (u : Uri)
  /-- Several values in order. -/
  | list (items : List Value)
  /-- A record. -/
  | dict (record : NameMap Value)

/-- A map from tag names to values. -/
abbrev Record := NameMap Value

/-- The type of a value. -/
inductive Kind where
  | marker | bool | number | str | date | time | ref | symbol | uri | list | dict
  deriving DecidableEq, Repr

namespace Kind

/-- The name of a kind. -/
def name : Kind → String
  | .marker => "marker"
  | .bool => "bool"
  | .number => "number"
  | .str => "str"
  | .date => "date"
  | .time => "time"
  | .ref => "ref"
  | .symbol => "symbol"
  | .uri => "uri"
  | .list => "list"
  | .dict => "dict"

/-- The place of a kind in the order of kinds. -/
def place : Kind → Nat
  | .marker => 0
  | .bool => 1
  | .number => 2
  | .str => 3
  | .date => 4
  | .time => 5
  | .ref => 6
  | .symbol => 7
  | .uri => 8
  | .list => 9
  | .dict => 10

end Kind

namespace Value

/-- The kind of a value. -/
def kind : Value → Kind
  | .marker => .marker
  | .bool _ => .bool
  | .number _ => .number
  | .str _ => .str
  | .date _ => .date
  | .time _ => .time
  | .ref _ => .ref
  | .symbol _ => .symbol
  | .uri _ => .uri
  | .list _ => .list
  | .dict _ => .dict

/-- The ref that a value is. -/
def ref? : Value → Option Ref
  | .ref r => some r
  | _ => none

/-- The symbol that a value is. -/
def symbol? : Value → Option Symbol
  | .symbol s => some s
  | _ => none

/-- The refs that a value holds: itself, or those among its items. -/
def refs : Value → List Ref
  | .ref r => [r]
  | .list items => items.filterMap ref?
  | _ => []

/-- The symbols that a value holds: itself, or those among its items. -/
def symbols : Value → List Symbol
  | .symbol s => [s]
  | .list items => items.filterMap symbol?
  | _ => []

end Value

/-- The ref under which a record is known. -/
def Record.id? (record : Record) : Option Ref :=
  (record.find? "id").bind Value.ref?

end TagFilter
