import TagFilter.Implied

/-!
# Logging

What is logged when a filter is read, lowered and expanded.  Each message has a level and names the
part of the program that it comes from.  Whether a message is shown, and how, is left to a logger.
-/

namespace TagFilter

/-- The weight of a message. -/
inductive LogLevel where
  /-- Something failed. -/
  | error
  /-- Something is amiss. -/
  | warn
  /-- Something helps to follow what happens. -/
  | debug
  deriving DecidableEq, Repr

/-- A message that is logged. -/
structure LogMessage where
  /-- Its weight. -/
  level : LogLevel
  /-- The part of the program that it comes from. -/
  target : String
  /-- Its wording. -/
  text : String
  deriving DecidableEq, Repr

/-- What is logged when a text is read as a filter. -/
def readingLog (text : String) : List LogMessage :=
  [⟨.debug, "haystack_filter_rs::filter::parser", "parsing filter: " ++ text⟩]

/-! ### Lowering -/

/-- A message about lowering. -/
def loweringMessage (level : LogLevel) (text : String) : LogMessage :=
  ⟨level, "haystack_filter_rs::filter::legacy", text⟩

/-- What is logged when a test is lowered. -/
def Test.loweringLog (ns : Taxonomy) : Test → List LogMessage
  | .related r target =>
    if ns.refTags r = [] then
      [loweringMessage .warn ("no ref tags implement '" ++ relatedText r target
        ++ "'; lowering to a plain tag test")]
    else []
  | _ => []

/-- What is logged when a node is lowered. -/
def Node.loweringLog (ns : Taxonomy) (n : Node) : List LogMessage :=
  n.tests.flatMap (Test.loweringLog ns)
    ++ [loweringMessage .debug ("v3 lowering: " ++ n.toText ++ " => " ++ (n.lower ns).text)]

/-! ### Implied tags -/

/-- A message about the expansion of implied tags. -/
def expansionMessage (level : LogLevel) (text : String) : LogMessage :=
  ⟨level, "haystack_filter_rs::filter::implied", text⟩

/-- What is logged when a type test is lowered and its lowered text is read. -/
def typeLog (ns : Taxonomy) (type : Symbol) : List LogMessage :=
  (Node.term (.test (.isA type))).loweringLog ns ++ readingLog (lowerType ns type)

/-- What is logged when the implied tags of a test are expanded, if the expansion ends.  It follows
the type tests in the lowered text of a type test. -/
def Test.expansionLog (ns : Taxonomy) : Test → Option (List LogMessage)
  | .isA type =>
    match Filter.ofText? (lowerType ns type) with
    | .ok f => do
      let inner ← (Filter.tests f).mapM fun test => test |>.expansionLog ns
      return typeLog ns type ++ inner.flatten
    | .error e =>
      some (typeLog ns type ++ [expansionMessage .warn
        ("cannot expand lowered type test '" ++ lowerType ns type ++ "': " ++ e.message)])
  | _ => some []
partial_fixpoint

/-- What is logged when the implied tags of a node are expanded, if the expansion ends. -/
def Node.expansionLog (ns : Taxonomy) (n : Node) : Option (List LogMessage) := do
  let log ← n.tests.mapM (Test.expansionLog ns)
  let text ← n.expand ns
  return log.flatten ++ [expansionMessage .debug
    ("implied expansion: " ++ n.toText ++ " => " ++ text)]

end TagFilter
