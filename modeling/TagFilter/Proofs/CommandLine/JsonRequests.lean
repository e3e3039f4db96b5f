import TagFilter.CommandLine.Run
import TagFilter.Proofs.Grammar.Streaming

/-!
# Asking for JSON

JSON is asked for by an option, and by a configuration.  Both lead to the same display
(`configured_json`), and a command on a filter takes nothing else from the configuration but the
defs (`FilterCommand.run_congr`).  So both runs log the same and come to the same result or failure.

They differ in what is reported of a failure: whether it is shown as JSON depends on the option
alone, and the two reports of a failure are never the same (`Libraries.report_ne`).
-/

namespace TagFilter

namespace CommandLine

/-- The request with JSON asked for by an option. -/
def Request.withJson (r : Request) : Request :=
  { r with options := { r.options with json := true } }

/-- JSON objects can be printed, and their texts begin with a brace. -/
def Libraries.PrintsObjects (libs : Libraries) : Prop :=
  ∀ fields, ∃ rest, libs.printJson (.ofFields fields) = .ok ("\x7b" ++ rest)

section Runs

variable {libs : Libraries} {env : Environment} {files : FileSystem} {r : Request}
  {command : FilterCommand} {arguments : List String} {text path : String} {c : Config}
  {d : Display}

/-! ### The runs -/

/-- A command on a filter takes the defs of a configuration only, apart from the display. -/
theorem FilterCommand.run_congr {other : Config} (h : c.defs = other.defs) :
    command.run libs d c text = command.run libs d other text := by
  have htypes : readTypes c = readTypes other := by
    unfold readTypes Config.toNamespace
    rw [h]
  cases command with
  | check => rfl
  | format => rfl
  | outline => rfl
  | lower => simp only [FilterCommand.run, htypes]
  | expand => simp only [FilterCommand.run, htypes]

/-- A configuration that asks for JSON leads to the display of the option. -/
theorem configured_json (env : Environment) (r : Request) (c : Config) :
    (Display.ofOptions env r.options).configured { c with json := some true } =
      (Display.ofOptions env r.withJson.options).configured c := by
  simp [Display.configured, Display.ofOptions, Request.withJson]

/-- A command on a filter runs with the configuration that is there and changes nothing. -/
theorem outcome_filter (hread : libs.readArguments env arguments = .ok r)
    (hcommand : r.command = .filter command text) (hpath : env.configPath r.options = .ok path)
    (hpresent : (files.stateAt path).isPresent = true)
    (hc : libs.configOf (files.stateAt path) = .ok c) :
    outcome libs env files arguments =
      ((command.run libs ((Display.ofOptions env r.options).configured c) c text).run.run []).map
        (r.outcomeOf libs []) := by
  have hload : libs.loadConfig path files = pure c := by
    unfold Libraries.loadConfig
    simp only [hpresent, hc]
    rfl
  have hrun : r.run libs env files =
      command.run libs ((Display.ofOptions env r.options).configured c) c text := by
    unfold Request.run
    rw [hcommand, hpath]
    change (libs.loadConfig path files >>= fun c =>
      command.run libs ((Display.ofOptions env r.options).configured c) c text) = _
    rw [hload, pure_bind]
  have hchanges : r.changes env files = [] := by
    unfold Request.changes
    rw [hcommand]
  unfold outcome
  rw [hread]
  dsimp only
  unfold Request.outcome
  rw [hrun, hchanges]

/-! ### The reports -/

/-- The two reports of a failure begin with different characters. -/
theorem Libraries.report_ne (hprint : libs.PrintsObjects) (e : Failure) :
    libs.report false e ≠ libs.report true e := by
  intro h
  have htext : (libs.report false e).toList.head? = some 'E' := by
    rw [show libs.report false e = "Error: " ++ e.message from rfl, String.toList_append]
    rfl
  have hjson : (libs.report true e).toList.head? = some '\x7b' := by
    obtain ⟨rest, hrest⟩ : ∃ rest, libs.printJson e.describe = .ok ("\x7b" ++ rest) := hprint _
    rw [show libs.report true e = "\x7b" ++ rest by simp [report, hrest], String.toList_append]
    rfl
  rw [h, hjson] at htext
  cases htext

theorem unlines_concat (lines : List String) (line : String) :
    unlines (lines ++ [line]) = unlines lines ++ (line ++ "\n") := by
  simp [unlines, String.join]

theorem Failure.status_ne_zero (e : Failure) : e.status ≠ 0 := by
  cases e with
  | filter cause => exact Nat.one_ne_zero
  | config cause => exact Nat.succ_ne_zero 4
  | io reason => exact Nat.succ_ne_zero 2
  | json reason => exact Nat.one_ne_zero

/-- A failure that is reported as a line of text is told apart from the same failure reported as
JSON, whatever was logged before. -/
theorem Request.outcomeOf_withJson_ne (hprint : libs.PrintsObjects)
    (hjson : r.options.json = false) (changes : List FileChange) (e : Failure)
    (log : List LogMessage) :
    r.outcomeOf libs changes (.error e, log) ≠ r.withJson.outcomeOf libs changes (.error e, log) := by
  intro h
  have hlines : unlines (log.filterMap (libs.logLine r.options.logLevel)
        ++ [libs.report r.options.json e]) =
      unlines (log.filterMap (libs.logLine r.options.logLevel) ++ [libs.report true e]) :=
    congrArg Outcome.errors h
  rw [hjson, unlines_concat, unlines_concat, String.append_right_inj,
    String.append_left_inj] at hlines
  exact libs.report_ne hprint e hlines

/-! ### Both ways to ask -/

/-- A configuration that asks for JSON and the option lead to runs that end or do not end together.
They leave the same status, print the same and change the same.  A success is the same altogether; a
failure is reported, after the same lines of the log, as a line of text where the configuration asks
for JSON, and as JSON where the option does. -/
theorem outcome_json {files' : FileSystem} {arguments' : List String}
    (hprint : libs.PrintsObjects) (hread : libs.readArguments env arguments = .ok r)
    (hjson : r.options.json = false) (hread' : libs.readArguments env arguments' = .ok r.withJson)
    (hcommand : r.command = .filter command text) (hpath : env.configPath r.options = .ok path)
    (hpresent : (files.stateAt path).isPresent = true)
    (hasked : libs.configOf (files.stateAt path) = .ok { c with json := some true })
    (hpresent' : (files'.stateAt path).isPresent = true)
    (hplain : libs.configOf (files'.stateAt path) = .ok c) :
    (outcome libs env files arguments = none ∧ outcome libs env files' arguments' = none) ∨
    ∃ asked flagged, outcome libs env files arguments = some asked ∧
      outcome libs env files' arguments' = some flagged ∧
      asked.status = flagged.status ∧ asked.output = flagged.output ∧
      asked.changes = flagged.changes ∧
      (asked = flagged ↔ asked.status = 0) ∧
      (asked.status ≠ 0 → ∃ (lines : List String) (e : Failure),
        asked.errors = unlines (lines ++ [libs.report false e]) ∧
        flagged.errors = unlines (lines ++ [libs.report true e])) := by
  -- the displays agree, and both configurations have the defs of `c`
  have hrun : command.run libs
      ((Display.ofOptions env r.options).configured { c with json := some true })
      { c with json := some true } text =
        command.run libs ((Display.ofOptions env r.withJson.options).configured c) c text := by
    rw [configured_json]
    exact FilterCommand.run_congr rfl
  rw [outcome_filter hread hcommand hpath hpresent hasked, hrun,
    outcome_filter (r := r.withJson) hread' hcommand hpath hpresent' hplain]
  generalize (command.run libs _ c text).run.run [] = result
  cases result with
  | none => exact Or.inl ⟨rfl, rfl⟩
  | some result =>
    refine Or.inr ⟨_, _, rfl, rfl, ?_⟩
    obtain ⟨told, log⟩ := result
    cases told with
    | ok told => exact ⟨rfl, rfl, rfl, iff_of_true rfl rfl, fun h => absurd rfl h⟩
    | error e =>
      have hne := Request.outcomeOf_withJson_ne hprint hjson [] e log
      refine ⟨rfl, rfl, rfl, iff_of_false hne e.status_ne_zero, fun _ => ?_⟩
      refine ⟨log.filterMap (libs.logLine r.options.logLevel), e, ?_, rfl⟩
      rw [← hjson]
      rfl

end Runs

/-! ### One file and two ways to ask -/

/-- An environment with a path of the configuration. -/
def givenPath : Environment where
  config := some "hfilter.toml"

/-- The files with a configuration of a text at the path. -/
def configuredBy (content : String) : FileSystem where
  start := []
  tree := .ofEntries [(["hfilter.toml"], .text content)]

/-- Objects of texts on lines with indentation, down to a depth.  Nothing in the texts is
escaped. -/
def indented (indent : String) : Nat → Json → String
  | depth + 1, .object fields =>
    let lines := fields.entries.map fun field =>
      "\n" ++ indent ++ "  \x22" ++ field.1 ++ "\x22: " ++ indented (indent ++ "  ") depth field.2
    "\x7b" ++ (",".intercalate lines ++ "\n" ++ indent ++ "\x7d")
  | _, .text s => "\x22" ++ s ++ "\x22"
  | _, _ => "null"

/-- Libraries that read a few lists of arguments and two texts of configurations, with a logger that
is switched off. -/
def fewRequests : Libraries where
  readArguments env arguments :=
    match arguments with
    | ["fmt", "^site"] => .ok ⟨{ config := env.config }, .filter .format "^site"⟩
    | ["fmt", "^site", "--json"] =>
      .ok ⟨{ json := true, config := env.config }, .filter .format "^site"⟩
    | ["check", ""] => .ok ⟨{ config := env.config }, .filter .check ""⟩
    | ["--json", "check", ""] => .ok ⟨{ json := true, config := env.config }, .filter .check ""⟩
    | _ => .error ⟨2, "", "error: invalid arguments\n", []⟩
  readConfig content :=
    if content = "[output]\njson = true" then
      .ok { json := some true, sorted := NameMap.sorted_empty }
    else if content = "" then .ok { sorted := NameMap.sorted_empty }
    else .error "invalid configuration"
  printJson j := .ok (indented "" 2 j)
  logLine _ _ := none
  completions _ := ""

theorem printsObjects_fewRequests : fewRequests.PrintsObjects :=
  fun _ => ⟨_, rfl⟩

/-- The canonical text of a type test is printed as JSON, whichever way this is asked for. -/
theorem outcome_json_site :
    fewRequests.configOf ((configuredBy "[output]\njson = true").stateAt "hfilter.toml") =
      .ok { json := some true } ∧
    fewRequests.configOf ((configuredBy "").stateAt "hfilter.toml") = .ok {} ∧
    ∃ o, outcome fewRequests givenPath (configuredBy "[output]\njson = true") ["fmt", "^site"] =
        some o ∧
      outcome fewRequests givenPath (configuredBy "") ["fmt", "^site", "--json"] = some o ∧
      o.status = 0 ∧ o.output = "\x7b\n  \x22filter\x22: \x22^site\x22\n\x7d\n" := by
  have hasked :
      fewRequests.configOf ((configuredBy "[output]\njson = true").stateAt "hfilter.toml") =
        .ok { json := some true } := rfl
  have hplain : fewRequests.configOf ((configuredBy "").stateAt "hfilter.toml") = .ok {} := rfl
  have hscan : scan "^site".toList = .token (.value (.symbol ⟨"site"⟩)) [] := rfl
  have hsite : Filter.ofText? "^site" = .ok [[.test (.isA ⟨"site"⟩)]] := by
    rw [Filter.ofText?_eq_readAll, readTokens, readChars_token hscan, readChars_finished rfl]
    rfl
  let r : Request := ⟨{ config := some "hfilter.toml" }, .filter .format "^site"⟩
  have hread : fewRequests.readArguments givenPath ["fmt", "^site"] = .ok r := rfl
  have hread' : fewRequests.readArguments givenPath ["fmt", "^site", "--json"] =
      .ok r.withJson := rfl
  have hfirst :
      outcome fewRequests givenPath (configuredBy "[output]\njson = true") ["fmt", "^site"] =
        some ⟨0, "\x7b\n  \x22filter\x22: \x22^site\x22\n\x7d\n", "", []⟩ := by
    rw [outcome_filter hread rfl rfl rfl hasked]
    unfold FilterCommand.run readFilter
    rw [hsite]
    rfl
  rcases outcome_json printsObjects_fewRequests hread rfl hread' rfl rfl rfl hasked rfl hplain with
    ⟨hnone, -⟩ | ⟨asked, flagged, h, h', -, -, -, hsame, -⟩
  · rw [hfirst] at hnone
    cases hnone
  · cases hfirst.symm.trans h
    rw [← hsame.mpr rfl] at h'
    exact ⟨hasked, hplain, _, h, h', rfl, rfl⟩

/-- The report of an empty filter is a line of text where the configuration asks for JSON, and JSON
where the option does. -/
theorem outcome_json_empty :
    (outcome fewRequests givenPath (configuredBy "[output]\njson = true") ["check", ""]).map
        Outcome.errors =
      some "Error: filter error: filter expression is empty\n" ∧
    (outcome fewRequests givenPath (configuredBy "") ["--json", "check", ""]).map Outcome.errors =
      some ("\x7b\n  \x22error\x22: \x7b\n    \x22code\x22: \x22FILTER_ERROR\x22,\n    " ++
        "\x22message\x22: \x22filter error: filter expression is empty\x22\n  \x7d\n\x7d\n") := by
  have hempty : Filter.ofText? "" = .error .emptyFilter := by
    rw [Filter.ofText?_eq_readAll, readTokens, readChars_finished rfl]
    rfl
  have hread : fewRequests.readArguments givenPath ["check", ""] =
      .ok ⟨{ config := some "hfilter.toml" }, .filter .check ""⟩ := rfl
  have hread' : fewRequests.readArguments givenPath ["--json", "check", ""] =
      .ok ⟨{ json := true, config := some "hfilter.toml" }, .filter .check ""⟩ := rfl
  constructor
  · rw [outcome_filter (c := { json := some true }) hread rfl rfl rfl rfl]
    unfold FilterCommand.run readFilter
    rw [hempty]
    decide
  · rw [outcome_filter (c := {}) hread' rfl rfl rfl rfl]
    unfold FilterCommand.run readFilter
    rw [hempty]
    decide

end CommandLine

end TagFilter
