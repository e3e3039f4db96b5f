import TagFilter.Text.Quoted
import TagFilter.Value.Basic

/-!
# Text of values

The written form of a value in a filter.  Marker, list and record have no literal; their written
form is only for display.
-/

namespace TagFilter

mutual

/-- The written form of a value. -/
def Value.toText : Value → String
  | .marker => "M"
  | .bool b => if b then "true" else "false"
  | .number n => n.toText
  | .str text => quoteString text
  | .date d => d.toText
  | .time t => t.toText
  | .ref r => r.toText
  | .symbol s => s.toText
  | .uri u => quoteUri u.text
  | .list items => "[" ++ String.intercalate ", " (itemTexts items) ++ "]"
  | .dict record => "\x7b" ++ toString record.size ++ " tags\x7d"
termination_by structural v => v

/-- The written forms of the items of a list. -/
def itemTexts : List Value → List String
  | [] => []
  | item :: items => item.toText :: itemTexts items
termination_by structural items => items

end

end TagFilter
