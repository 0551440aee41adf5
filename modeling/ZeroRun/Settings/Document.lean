import ZeroRun.Document.Basic
import ZeroRun.Settings.Basic
import ZeroRun.Settings.Conversion
import ZeroRun.Text.Lowercase

/-!
Settings out of a document. The document is a mapping with a section for the budget, the modulus,
the search and the integer check; what it leaves out has a default. A name of several words may be
written with hyphens or with underscores, and the hyphens win.
-/
namespace ZeroRun.Settings

/-- The entries of a section. -/
abbrev Section := List (Datum × Datum)

/-- The value under a name, with hyphens or else with underscores. -/
def valueOf? (hyphened underscored : String) (entries : Section) : Option Datum :=
  match Datum.lookup? hyphened entries with
  | some value => some value
  | none => Datum.lookup? underscored entries

variable (document : Document)

/-- A blank value counts as an empty section; otherwise it has to be a mapping. -/
def sectionOf (name : String) (value : Option Datum) : Except Error Section :=
  let value := document.resolve (value.getD .null)
  if value.isBlank then .ok []
  else
    match value with
    | .map entries => .ok entries
    | _ => .error (.sectionKind name)

/-- A whole number out of a value. -/
def whole (value : Datum) : Except Error Int :=
  (document.resolve value).toWhole.mapError .conversion

/-- A floating-point number out of a value. -/
def decimal (value : Datum) : Except Error Number :=
  ((document.resolve value).toDecimal.mapError .conversion).map .float

/-- A limit out of a value; null and nothing at all leave it open. -/
def limit {α : Type} (convert : Datum → Except Error α) (value : Option Datum) :
    Except Error (Option α) :=
  match value with
  | none | some .null => .ok none
  | some value => (convert value).map some

/-- The budget of its section. -/
def budgetOf (entries : Section) : Except Error Budget := do
  let maxIterations ← limit (whole document) (valueOf? "max-iterations" "max_iterations" entries)
  let maxModulus ← limit (whole document) (valueOf? "max-modulus" "max_modulus" entries)
  let maxPathLength ← limit (whole document) (valueOf? "max-path-length" "max_path_length" entries)
  let maxTime ← limit (decimal document) (valueOf? "max-time" "max_time" entries)
  Budget.checked { maxIterations, maxModulus, maxPathLength, maxTime }

/-- The policy of the modulus section; its name may be in capitals. -/
def policyOf (entries : Section) : Except Error ModulusPolicy :=
  match valueOf? "policy" "policy" entries with
  | none => .ok .double
  | some value =>
    match (document.expand value).plain? with
    | none => .error (.conversion .unwritable)
    | some text =>
      match ModulusPolicy.ofName? (Text.lower text) with
      | some policy => .ok policy
      | none => .error (.unknownPolicy (Text.lower text))

/-- The first modulus of the modulus section. -/
def initialModulusOf (entries : Section) : Except Error Int := do
  let initial ← whole document ((valueOf? "initial" "initial" entries).getD (.int 2))
  if initial < 2 then .error (.smallModulus initial) else .ok initial

/-- The number of workers of the search section. -/
def workersOf (entries : Section) : Except Error Int := do
  let workers ← whole document ((valueOf? "workers" "workers" entries).getD (.int 1))
  if workers < 1 then .error (.fewWorkers workers) else .ok workers

/-- A value that has to be a truth value. -/
def flag (value : Datum) : Except Error Bool :=
  match value with
  | .bool b => .ok b
  | other => .error (.notFlag (document.expand other))

/-- A limit that has to be at least one. -/
def positive (fault : Int → Error) : Option Int → Except Error (Option Int)
  | none => .ok none
  | some n => if n < 1 then .error (fault n) else .ok (some n)

/-- The integer check of its section. Numbers are read before anything is checked. -/
def precheckOf (entries : Section) : Except Error Precheck := do
  let maxSteps ←
    limit (whole document) (some ((valueOf? "max-steps" "max_steps" entries).getD (.int 64)))
  let timeoutMs ← limit (whole document) (valueOf? "timeout-ms" "timeout_ms" entries)
  let enabled ← flag document ((valueOf? "enabled" "enabled" entries).getD (.bool false))
  let maxSteps ← positive .fewSteps maxSteps
  let timeoutMs ← positive .shortTimeout timeoutMs
  return { enabled, maxSteps, timeoutMs }

/-- The settings of four sections. -/
def ofSections (budget modulus search precheck : Section) : Except Error Settings := do
  let budget ← budgetOf document budget
  let policy ← policyOf document modulus
  let initialModulus ← initialModulusOf document modulus
  let workers ← workersOf document search
  let precheck ← precheckOf document precheck
  return { budget, initialModulus, policy, workers, precheck }

/-- A fault of a value, unless it holds a number that is too long to be written. -/
def writtenFault (fault : Error) : Error :=
  if fault.isWritable then fault else .conversion .unwritable

/-- The settings of a document. All sections are looked at before the first value is. -/
def ofDocument : Except Error Settings :=
  match document.resolve document.root with
  | .map entries => do
    let budget ← sectionOf document "budget" (Datum.lookup? "budget" entries)
    let modulus ← sectionOf document "modulo" (Datum.lookup? "modulo" entries)
    let search ← sectionOf document "search" (Datum.lookup? "search" entries)
    let precheck ← sectionOf document "z-reach" (valueOf? "z-reach" "z_reach" entries)
    (ofSections document budget modulus search precheck).mapError writtenFault
  | other => .error (.documentKind other.kindName)

/-- The settings of a value. -/
def ofDatum (value : Datum) : Except Error Settings :=
  ofDocument ⟨value, #[]⟩

end ZeroRun.Settings
