import ZeroRun.Settings.Basic

/-!
Settings written out as a document that reads back as the same settings.
-/
namespace ZeroRun.Settings

/-- A limit, or null if it is open. -/
def writeLimit {α : Type} (write : α → Except Error String) : Option α → Except Error String
  | none => .ok "null"
  | some value => write value

/-- The lines of the written settings. -/
def lines (settings : Settings) : Except Error (List String) := do
  let budget := settings.budget
  let precheck := settings.precheck
  return ["# .vass-reach.yml: vass-reach solver configuration",
    "",
    "budget:",
    "  max-iterations: " ++ (← writeLimit Text.int budget.maxIterations),
    "  max-modulus: " ++ (← writeLimit Text.int budget.maxModulus),
    "  max-path-length: " ++ (← writeLimit Text.int budget.maxPathLength),
    "  max-time: " ++ (← writeLimit Text.number budget.maxTime),
    "",
    "modulo:",
    "  initial: " ++ (← Text.int settings.initialModulus),
    "  policy: " ++ settings.policy.name,
    "",
    "search:",
    "  workers: " ++ (← Text.int settings.workers),
    "",
    "z-reach:",
    "  enabled: " ++ (if precheck.enabled then "true" else "false"),
    "  max-steps: " ++ (← writeLimit Text.int precheck.maxSteps),
    "  timeout-ms: " ++ (← writeLimit Text.int precheck.timeoutMs),
    ""]

/-- The settings as a document. None of its numbers may be too long to be written. -/
def toText (settings : Settings) : Except Error String := do
  return "\n".intercalate (← settings.lines)

end ZeroRun.Settings
