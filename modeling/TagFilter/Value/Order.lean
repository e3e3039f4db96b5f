import TagFilter.Value.Basic

/-!
# Sameness and order of values

`Value.same` is equality of values up to what does not count: the display name of a ref and the
sign of zero.  `Value.compare` orders values of one scalar kind naturally and all others by their
kind, so that two lists, or two records, stand at the same place.  `Comparison` holds the six
comparison operators.
-/

namespace TagFilter

/-- Whether two numbers have the same place in the order of numbers. -/
def Number.same (a b : Number) : Bool :=
  a.compare b == .eq

mutual

/-- Whether two values are equal up to display names and the sign of zero. -/
def Value.same : Value → Value → Bool
  | .marker, .marker => true
  | .bool a, .bool b => a == b
  | .number a, .number b => a.same b
  | .str a, .str b => a == b
  | .date a, .date b => a == b
  | .time a, .time b => a == b
  | .ref a, .ref b => a.id == b.id
  | .symbol a, .symbol b => a == b
  | .uri a, .uri b => a == b
  | .list a, .list b => sameItems a b
  | .dict a, .dict b => sameRecord a b
  | _, _ => false
termination_by structural a => a

/-- Whether two lists hold the same values in the same order. -/
def sameItems : List Value → List Value → Bool
  | [], [] => true
  | a :: as, b :: bs => a.same b && sameItems as bs
  | _, _ => false
termination_by structural a => a

/-- Whether two records have the same tags with the same values. -/
def sameRecord : NameMap Value → NameMap Value → Bool
  | ⟨a⟩, ⟨b⟩ => sameEntries a b
termination_by structural a => a

/-- Whether two lists of tags are the same, entry by entry. -/
def sameEntries : List (String × Value) → List (String × Value) → Bool
  | [], [] => true
  | a :: as, b :: bs => sameEntry a b && sameEntries as bs
  | _, _ => false
termination_by structural a => a

/-- Whether two tags have the same name and the same value. -/
def sameEntry : String × Value → String × Value → Bool
  | (m, a), (n, b) => m == n && a.same b
termination_by structural a => a

end

/-- The order of two values: natural within a scalar kind, and by kind otherwise. -/
protected def Value.compare : Value → Value → Ordering
  | .bool a, .bool b => compare a.toNat b.toNat
  | .number a, .number b => a.compare b
  | .str a, .str b => compareText a b
  | .date a, .date b => a.compare b
  | .time a, .time b => a.compare b
  | .ref a, .ref b => compareText a.id b.id
  | .symbol a, .symbol b => compareText a.name b.name
  | .uri a, .uri b => compareText a.text b.text
  | a, b => compare a.kind.place b.kind.place

/-- A comparison operator. -/
inductive Comparison where
  | equal | notEqual | less | atMost | greater | atLeast
  deriving DecidableEq, Repr

namespace Comparison

/-- The operators, in the order in which they are listed. -/
def all : List Comparison :=
  [.equal, .notEqual, .less, .atMost, .greater, .atLeast]

/-- The text of an operator. -/
def toText : Comparison → String
  | .equal => "=="
  | .notEqual => "!="
  | .less => "<"
  | .atMost => "<="
  | .greater => ">"
  | .atLeast => ">="

/-- Whether two values stand in the relation of an operator.  The two operators of equality ask
for sameness, the others for the order. -/
def holds : Comparison → Value → Value → Bool
  | .equal, a, b => a.same b
  | .notEqual, a, b => !a.same b
  | .less, a, b => a.compare b == .lt
  | .atMost, a, b => a.compare b != .gt
  | .greater, a, b => a.compare b == .gt
  | .atLeast, a, b => a.compare b != .lt

end Comparison

end TagFilter
