import TagFilter.Config.Basic
import TagFilter.Json

/-!
# Reports on configurations

A configuration as JSON and as lines of text, and the text of the configuration to begin with.
-/

namespace TagFilter

/-- A field of an object, unless its value is left out. -/
def fieldUnless (leftOut : Bool) (name : String) (value : Json) : List (String × Json) :=
  if leftOut then [] else [(name, value)]

/-- A field with a truth value, if there is one. -/
def boolField? (name : String) (value : Option Bool) : List (String × Json) :=
  value.toList.map fun b => (name, .bool b)

namespace DefConfig

/-- A def as JSON, without what is empty. -/
def toJson (d : DefConfig) : Json :=
  .ofFields (fieldUnless d.supertypes.isEmpty "is" (.texts d.supertypes)
    ++ fieldUnless d.impliedBy.isEmpty "implied_by" (.texts d.impliedBy)
    ++ fieldUnless (!d.transitive) "transitive" (.bool d.transitive)
    ++ fieldUnless d.relationships.isEmpty "relationships" (.object (d.relationships.map .text)))

/-- The parts of a def that are not empty, as text. -/
def parts (d : DefConfig) : List String :=
  (if d.supertypes.isEmpty then [] else ["is " ++ ", ".intercalate d.supertypes])
    ++ (if d.impliedBy.isEmpty then [] else ["implied by " ++ ", ".intercalate d.impliedBy])
    ++ (if d.transitive then ["transitive"] else [])
    ++ d.relationships.entries.map fun entry => entry.1 ++ "? ^" ++ entry.2

/-- The text of a def after its name. -/
def describe (d : DefConfig) : String :=
  match d.parts with
  | [] => ""
  | parts => ": " ++ "; ".intercalate parts

end DefConfig

namespace Config

/-- The text of a truth value. -/
def boolText (b : Bool) : String :=
  if b then "true" else "false"

/-- A configuration as JSON. -/
def toJson (c : Config) : Json :=
  .ofFields ([("version", .number c.version),
      ("output", .ofFields (boolField? "color" c.color ++ boolField? "json" c.json))]
    ++ fieldUnless c.defs.isEmpty "defs" (.object (c.defs.map DefConfig.toJson)))

/-- A configuration as lines of text. -/
def lines (c : Config) : List String :=
  ["[output]"]
    ++ c.color.toList.map (fun b => "  color: " ++ boolText b)
    ++ c.json.toList.map (fun b => "  json: " ++ boolText b)
    ++ ["", "[defs]"]
    ++ c.defs.entries.map fun entry => "  " ++ entry.1 ++ entry.2.describe

/-- The lines of the configuration to begin with. -/
def initialLines : List String := [
  "# hfilter - Haystack filter tool configuration",
  "",
  "# Config schema version (do not modify)",
  "version = 1",
  "",
  "# Output preferences",
  "[output]",
  "# color = true   # Enable colors (respects NO_COLOR env)",
  "# json = false   # Always print JSON",
  "",
  "# Defs used by `hfilter v3` and `hfilter implied`.",
  "#",
  "# is            - supertypes",
  "# implied_by    - tags that stand in for this def when it is absent",
  "# transitive    - relationship that chains through refs",
  "# relationships - on ref tags, the relationships they implement",
  "",
  "[defs.equip]",
  "",
  "[defs.ahu]",
  "is = [\x22equip\x22]",
  "",
  "[defs.rtu]",
  "is = [\x22ahu\x22]",
  "",
  "[defs.inputs]",
  "transitive = true",
  "",
  "[defs.elec]",
  "",
  "[defs.elecRef]",
  "relationships = \x7b inputs = \x22elec\x22 \x7d"]

/-- The text of the configuration to begin with. -/
def initialText : String :=
  "\n".intercalate (initialLines ++ [""])

end Config

end TagFilter
