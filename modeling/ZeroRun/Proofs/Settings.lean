import Mathlib
import ZeroRun.Settings.Document
import ZeroRun.Proofs.Binary64

/-! How reading settings out of a document value can end. Every value gives settings within their
bounds or a configuration error, apart from two kinds of numbers that are out of range: an infinite
number where a whole one is wanted, and a whole number without a nearest floating-point number as
the limit on time. Those two never give settings, and each has a fault of its own. -/
namespace ZeroRun

/-- A value that comes out has `P`, and a fault has `Q`. -/
def Ensures {ε α : Type} (P : α → Prop) (Q : ε → Prop) : Except ε α → Prop
  | .ok a => P a
  | .error e => Q e

namespace Ensures

variable {ε ε' α β : Type} {P : α → Prop} {P' : β → Prop} {Q : ε → Prop} {Q' : ε' → Prop}

theorem mono {R : α → Prop} {S : ε → Prop} {x : Except ε α} (ensures : Ensures P Q x)
    (values : ∀ a, P a → R a) (faults : ∀ e, Q e → S e) : Ensures R S x := by
  cases x with
  | ok a => exact values a ensures
  | error e => exact faults e ensures

theorem bind {x : Except ε α} {f : α → Except ε β} (ensures : Ensures P Q x)
    (next : ∀ a, P a → Ensures P' Q (f a)) : Ensures P' Q (x >>= f) := by
  cases x with
  | ok a => exact next a ensures
  | error e => exact ensures

theorem ite {c : Prop} [Decidable c] {x y : Except ε α} (whenTrue : c → Ensures P Q x)
    (whenFalse : ¬c → Ensures P Q y) : Ensures P Q (if c then x else y) := by
  split
  · next holds => exact whenTrue holds
  · next fails => exact whenFalse fails

theorem map {x : Except ε α} {f : α → β} (ensures : Ensures P Q x) (values : ∀ a, P a → P' (f a)) :
    Ensures P' Q (x.map f) := by
  cases x with
  | ok a => exact values a ensures
  | error e => exact ensures

theorem mapError {x : Except ε α} {f : ε → ε'} (ensures : Ensures P Q x)
    (faults : ∀ e, Q e → Q' (f e)) : Ensures P Q' (x.mapError f) := by
  cases x with
  | ok a => exact ensures
  | error e => exact faults e ensures

end Ensures

namespace Budget

theorem firstNegative?_eq_none_iff {limits : List (String × Option Number)} :
    firstNegative? limits = none ↔ ∀ limit ∈ limits, isAdmissible limit.2 := by
  fun_induction firstNegative? limits with
  | case1 => simp
  | case2 name value limits negative => simp [isAdmissible, negative]
  | case3 name value limits admissible ih => simp [isAdmissible, admissible, ih]
  | case4 name limits ih => simp [isAdmissible, ih]

theorem checked_ensures (budget : Budget) :
    Ensures Budget.Valid (·.family = .configuration) budget.checked := by
  unfold checked
  split
  · rfl
  · next absent => exact firstNegative?_eq_none_iff.1 absent

theorem checked_of_valid {budget : Budget} (valid : budget.Valid) :
    budget.checked = .ok budget := by
  unfold checked
  rw [firstNegative?_eq_none_iff.2 valid]

end Budget

namespace Settings

/-- The fields of a section; a value that is no mapping has none. -/
def fieldsOf : Option Datum → Section
  | some (.map fields) => fields
  | _ => []

/-- Where a number of the settings stands: its section and its name, with hyphens and with
underscores. -/
structure Place where
  group : String × String
  name : String × String
deriving DecidableEq

/-- The value at a place of a document. -/
def Place.valueIn? (place : Place) (value : Datum) : Option Datum :=
  valueOf? place.name.1 place.name.2
    (fieldsOf (valueOf? place.group.1 place.group.2 (fieldsOf (some value))))

/-- The places of whole numbers. -/
def wholePlaces : List Place :=
  [⟨("budget", "budget"), ("max-iterations", "max_iterations")⟩,
    ⟨("budget", "budget"), ("max-modulus", "max_modulus")⟩,
    ⟨("budget", "budget"), ("max-path-length", "max_path_length")⟩,
    ⟨("modulo", "modulo"), ("initial", "initial")⟩,
    ⟨("search", "search"), ("workers", "workers")⟩,
    ⟨("z-reach", "z_reach"), ("max-steps", "max_steps")⟩,
    ⟨("z-reach", "z_reach"), ("timeout-ms", "timeout_ms")⟩]

/-- The place of the limit on time. -/
def timePlace : Place :=
  ⟨("budget", "budget"), ("max-time", "max_time")⟩

/-- The value is an infinite number. -/
def IsInfinite (value : Option Datum) : Prop :=
  ∃ x negative, value = some (.float x) ∧ Binary64.view x = .infinite negative

/-- The value is a whole number without a nearest floating-point number. -/
def IsOversized (value : Option Datum) : Prop :=
  ∃ n : Int, value = some (.int n) ∧ Binary64.overflowBound ≤ n.natAbs

/-- An infinite number stands where a whole one is wanted. -/
def HasInfinite (value : Datum) : Prop :=
  ∃ place ∈ wholePlaces, IsInfinite (place.valueIn? value)

/-- The limit on time is a whole number without a nearest floating-point number. -/
def HasOversized (value : Datum) : Prop :=
  IsOversized (timePlace.valueIn? value)

/-- The faults of the numbers that are out of range. -/
def OutOfRange (value : Datum) (e : Error) : Prop :=
  e = .conversion .wholeFromInfinity ∧ HasInfinite value ∨
    e = .conversion .decimalTooLarge ∧ HasOversized value

/-- The faults of the fields, before anything is put into words. -/
def Fault (value : Datum) (e : Error) : Prop :=
  e.family = .configuration ∨ OutOfRange value e

/-- The faults that reading a document value can end with. -/
def Refusal (value : Datum) (e : Error) : Prop :=
  e.kind = .configuration ∨ OutOfRange value e

@[simp]
theorem valueOf?_self (name : String) (entries : Section) :
    valueOf? name name entries = Datum.lookup? name entries := by
  unfold valueOf?
  cases Datum.lookup? name entries <;> rfl

theorem wholeFrom_ensures (base : Nat) (cs : List Char) (written : String) :
    Ensures (fun _ => True) (·.outOfRange = false) (wholeFrom base cs written) := by
  unfold wholeFrom
  split
  · trivial
  · rfl
  · rfl

theorem decimalFrom_ensures (cs : List Char) (written : String) :
    Ensures (fun _ => True) (·.outOfRange = false) (decimalFrom cs written) := by
  unfold decimalFrom
  split
  · trivial
  · rfl

/-- Only an infinite number is out of the range of the whole numbers. -/
theorem toWhole_ensures (value : Datum) :
    Ensures (fun _ => ¬IsInfinite (some value))
      (fun cause => cause.outOfRange = false ∨
        cause = .wholeFromInfinity ∧ IsInfinite (some value)) value.toWhole := by
  cases value with
  | float x =>
    cases seen : Binary64.view x <;>
      simp [Datum.toWhole, seen, Ensures, IsInfinite, ConversionError.outOfRange]
  | text s => exact (wholeFrom_ensures 10 _ _).mono (by simp [IsInfinite]) (fun _ => .inl)
  | bytes value => exact (wholeFrom_ensures 10 _ _).mono (by simp [IsInfinite]) (fun _ => .inl)
  | _ => simp [Datum.toWhole, Ensures, IsInfinite, ConversionError.outOfRange]

/-- Only a whole number can be out of the range of the floating-point numbers. -/
theorem toDecimal_ensures (value : Datum) :
    Ensures (fun _ => ¬IsOversized (some value))
      (fun cause => cause.outOfRange = false ∨
        cause = .decimalTooLarge ∧ IsOversized (some value)) value.toDecimal := by
  cases value with
  | int n =>
    have oversized : IsOversized (some (.int n)) ↔ Binary64.ofInt? n = none := by
      simp [IsOversized, Binary64.ofInt?_eq_none_iff]
    cases found : Binary64.ofInt? n <;> simp [Datum.toDecimal, found, Ensures, oversized]
  | text s => exact (decimalFrom_ensures _ _).mono (by simp [IsOversized]) (fun _ => .inl)
  | bytes value => exact (decimalFrom_ensures _ _).mono (by simp [IsOversized]) (fun _ => .inl)
  | _ => simp [Datum.toDecimal, Ensures, IsOversized, ConversionError.outOfRange]

theorem isInfinite_getD (field : Option Datum) (n : Int) :
    IsInfinite (some (field.getD (.int n))) ↔ IsInfinite field := by
  cases field <;> simp [IsInfinite]

section Fields

variable (value : Datum)

/-- The sections of a document of one value. -/
theorem sectionOf_ensures (name : String) (group : Option Datum) :
    Ensures (· = fieldsOf group) (Refusal value) (sectionOf ⟨value, #[]⟩ name group) := by
  have refused : Refusal value (.sectionKind name) := .inl rfl
  rcases group with _ | group
  · rfl
  cases group with
  | map entries =>
    cases entries with
    | nil => rfl
    | cons entry entries => rfl
  | shared number => simp [sectionOf, Document.resolve, Datum.isBlank, Ensures, fieldsOf]
  | _ =>
    simp only [sectionOf, Document.resolve, Option.getD_some]
    exact .ite (fun _ => rfl) fun _ => refused

theorem fault_conversion {cause : ConversionError} (inRange : cause.outOfRange = false) :
    Fault value (.conversion cause) :=
  .inl (by simp [Error.family, inRange])

theorem whole_ensures {place : Place} (mem : place ∈ wholePlaces) {field : Datum}
    (same : IsInfinite (some field) ↔ IsInfinite (place.valueIn? value)) :
    Ensures (fun _ => ¬IsInfinite (place.valueIn? value)) (Fault value)
      (whole ⟨value, #[]⟩ field) := by
  have resolved : IsInfinite (some (Document.resolve ⟨value, #[]⟩ field)) ↔
      IsInfinite (place.valueIn? value) := by
    rw [← same]
    cases field <;> simp [Document.resolve, IsInfinite]
  refine ((toWhole_ensures _).mono (fun _ => mt resolved.2) fun _ => id).mapError ?_
  rintro cause (inRange | ⟨rfl, infinite⟩)
  · exact fault_conversion value inRange
  · exact .inr (.inl ⟨rfl, place, mem, resolved.1 infinite⟩)

theorem decimal_ensures {field : Datum} (found : timePlace.valueIn? value = some field) :
    Ensures (fun _ => ¬HasOversized value) (Fault value) (decimal ⟨value, #[]⟩ field) := by
  have resolved : IsOversized (some (Document.resolve ⟨value, #[]⟩ field)) ↔
      HasOversized value := by
    rw [HasOversized, found]
    cases field <;> simp [Document.resolve, IsOversized]
  refine (((toDecimal_ensures _).mono (fun _ => mt resolved.2)
    fun _ => id).mapError ?_).map fun _ => id
  rintro cause (inRange | ⟨rfl, oversized⟩)
  · exact fault_conversion value inRange
  · exact .inr (.inr ⟨rfl, resolved.1 oversized⟩)

/-- A limit that is a whole number. -/
theorem limit_whole_ensures {place : Place} (mem : place ∈ wholePlaces) {field : Option Datum}
    (same : IsInfinite field ↔ IsInfinite (place.valueIn? value)) :
    Ensures (fun _ => ¬IsInfinite (place.valueIn? value)) (Fault value)
      (limit (whole ⟨value, #[]⟩) field) := by
  unfold limit
  split
  · rw [← same]
    simp [Ensures, IsInfinite]
  · rw [← same]
    simp [Ensures, IsInfinite]
  · exact (whole_ensures value mem same).map fun _ => id

/-- The limit on time. -/
theorem limit_decimal_ensures :
    Ensures (fun _ => ¬HasOversized value) (Fault value)
      (limit (decimal ⟨value, #[]⟩) (timePlace.valueIn? value)) := by
  unfold limit
  split
  · next absent => simp [HasOversized, absent, Ensures, IsOversized]
  · next null => simp [HasOversized, null, Ensures, IsOversized]
  · next field _ found => exact (decimal_ensures value found).map fun _ => id

/-- The fields of a section of the document. -/
def groupFields (group : String × String) : Section :=
  fieldsOf (valueOf? group.1 group.2 (fieldsOf (some value)))

/-- No whole number of a section is infinite. -/
def AllFinite (group : String × String) : Prop :=
  ∀ place ∈ wholePlaces, place.group = group → ¬IsInfinite (place.valueIn? value)

theorem budgetOf_ensures :
    Ensures (fun budget => budget.Valid ∧ AllFinite value ("budget", "budget") ∧
        ¬HasOversized value)
      (Fault value) (budgetOf ⟨value, #[]⟩ (groupFields value ("budget", "budget"))) := by
  have inPlace (name : String × String) (mem : ⟨("budget", "budget"), name⟩ ∈ wholePlaces) :=
    limit_whole_ensures value mem Iff.rfl
  refine (inPlace ("max-iterations", "max_iterations") (by decide)).bind fun _ iterations => ?_
  refine (inPlace ("max-modulus", "max_modulus") (by decide)).bind fun _ modulus => ?_
  refine (inPlace ("max-path-length", "max_path_length") (by decide)).bind fun _ path => ?_
  refine (limit_decimal_ensures value).bind fun _ time => ?_
  refine (Budget.checked_ensures _).mono (fun budget valid => ⟨valid, ?_, time⟩) (fun _ => .inl)
  simp [AllFinite, wholePlaces, iterations, modulus, path]

theorem policyOf_ensures (fields : Section) :
    Ensures (fun _ => True) (Fault value) (policyOf ⟨value, #[]⟩ fields) := by
  unfold policyOf
  split
  · trivial
  · split
    · exact fault_conversion value rfl
    · split
      · trivial
      · exact .inl rfl

/-- A whole number with a default and a least value. -/
theorem atLeast_ensures {place : Place} (mem : place ∈ wholePlaces) (default least : Int)
    {fault : Int → Error} (refused : ∀ n, (fault n).family = .configuration) :
    Ensures (fun n => least ≤ n ∧ ¬IsInfinite (place.valueIn? value)) (Fault value)
      (whole ⟨value, #[]⟩ ((place.valueIn? value).getD (.int default)) >>= fun n =>
        if n < least then .error (fault n) else .ok n) := by
  refine (whole_ensures value mem (isInfinite_getD _ default)).bind fun n finite => ?_
  exact .ite (fun _ => .inl (refused n)) fun large => ⟨Int.not_lt.1 large, finite⟩

theorem initialModulusOf_ensures :
    Ensures (fun initial => 2 ≤ initial ∧ AllFinite value ("modulo", "modulo")) (Fault value)
      (initialModulusOf ⟨value, #[]⟩ (groupFields value ("modulo", "modulo"))) := by
  have place : ⟨("modulo", "modulo"), ("initial", "initial")⟩ ∈ wholePlaces := by decide
  refine (atLeast_ensures value place 2 2 fun _ => rfl).mono (fun initial bounds => ?_) fun _ => id
  exact ⟨bounds.1, by simpa [AllFinite, wholePlaces] using bounds.2⟩

theorem workersOf_ensures :
    Ensures (fun workers => 1 ≤ workers ∧ AllFinite value ("search", "search")) (Fault value)
      (workersOf ⟨value, #[]⟩ (groupFields value ("search", "search"))) := by
  have place : ⟨("search", "search"), ("workers", "workers")⟩ ∈ wholePlaces := by decide
  refine (atLeast_ensures value place 1 1 fun _ => rfl).mono (fun workers bounds => ?_) fun _ => id
  exact ⟨bounds.1, by simpa [AllFinite, wholePlaces] using bounds.2⟩

theorem positive_ensures {fault : Int → Error} (refused : ∀ n, (fault n).family = .configuration)
    (bound : Option Int) :
    Ensures (fun checked => atLeastOne checked) (Fault value) (positive fault bound) := by
  cases bound with
  | none => rfl
  | some n =>
    refine .ite (fun _ => .inl (refused n)) fun large => ?_
    simpa [Ensures, atLeastOne] using large

theorem flag_ensures (field : Datum) :
    Ensures (fun _ => True) (Fault value) (flag ⟨value, #[]⟩ field) := by
  unfold flag
  split
  · trivial
  · exact .inl rfl

theorem precheckOf_ensures :
    Ensures (fun precheck => (atLeastOne precheck.maxSteps ∧ atLeastOne precheck.timeoutMs) ∧
        AllFinite value ("z-reach", "z_reach"))
      (Fault value) (precheckOf ⟨value, #[]⟩ (groupFields value ("z-reach", "z_reach"))) := by
  have steps : ⟨("z-reach", "z_reach"), ("max-steps", "max_steps")⟩ ∈ wholePlaces := by decide
  have timeout : ⟨("z-reach", "z_reach"), ("timeout-ms", "timeout_ms")⟩ ∈ wholePlaces := by decide
  refine (limit_whole_ensures value steps (isInfinite_getD _ 64)).bind fun _ stepsFinite => ?_
  refine (limit_whole_ensures value timeout Iff.rfl).bind fun _ timeoutFinite => ?_
  refine (flag_ensures value _).bind fun _ _ => ?_
  refine (positive_ensures value (fun _ => rfl) _).bind fun _ stepsLarge => ?_
  refine (positive_ensures value (fun _ => rfl) _).bind fun _ timeoutLarge => ?_
  refine ⟨⟨stepsLarge, timeoutLarge⟩, ?_⟩
  simp [AllFinite, wholePlaces, stepsFinite, timeoutFinite]

end Fields

/-- A fault with a number that is too long to be written is a configuration error. -/
theorem refusal_writtenFault {value : Datum} {e : Error} (fault : Fault value e) :
    Refusal value (writtenFault e) := by
  unfold writtenFault
  by_cases writable : e.isWritable = true
  · rw [if_pos writable]
    refine fault.imp_left fun family => ?_
    rw [Error.kind, if_pos writable, family]
  · rw [if_neg writable]
    exact .inl rfl

/-- Reading ends with settings within their bounds and without a number out of range, or with one of
the faults. -/
theorem ofDatum_ensures (value : Datum) :
    Ensures (fun settings => settings.Valid ∧ ¬HasInfinite value ∧ ¬HasOversized value)
      (Refusal value) (ofDatum value) := by
  cases value with
  | map entries =>
    have fieldsOf_lookup (name : String) :
        fieldsOf (Datum.lookup? name entries) = groupFields (.map entries) (name, name) := by
      rw [groupFields, valueOf?_self]
      rfl
    refine (sectionOf_ensures _ "budget" _).bind fun budget budgetFields => ?_
    refine (sectionOf_ensures _ "modulo" _).bind fun modulo moduloFields => ?_
    refine (sectionOf_ensures _ "search" _).bind fun search searchFields => ?_
    refine (sectionOf_ensures _ "z-reach" _).bind fun precheck precheckFields => ?_
    rw [budgetFields, moduloFields, searchFields, precheckFields]
    simp only [fieldsOf_lookup]
    refine Ensures.mapError ?_ fun _ => refusal_writtenFault
    refine (budgetOf_ensures _).bind fun budget budgetEnsures => ?_
    refine (policyOf_ensures _ _).bind fun policy _ => ?_
    refine (initialModulusOf_ensures _).bind fun initial initialEnsures => ?_
    refine (workersOf_ensures _).bind fun workers workersEnsures => ?_
    refine (precheckOf_ensures _).bind fun precheck precheckEnsures => ?_
    obtain ⟨budgetValid, budgetFinite, time⟩ := budgetEnsures
    obtain ⟨initialLarge, initialFinite⟩ := initialEnsures
    obtain ⟨workersLarge, workersFinite⟩ := workersEnsures
    obtain ⟨⟨stepsLarge, timeoutLarge⟩, precheckFinite⟩ := precheckEnsures
    refine ⟨⟨budgetValid, initialLarge, workersLarge, stepsLarge, timeoutLarge⟩, ?_, time⟩
    rintro ⟨place, mem, infinite⟩
    have groups : ∀ place ∈ wholePlaces, place.group ∈ [("budget", "budget"),
        ("modulo", "modulo"), ("search", "search"), ("z-reach", "z_reach")] := by decide
    have group := groups place mem
    simp only [List.mem_cons, List.not_mem_nil, or_false] at group
    rcases group with group | group | group | group
    · exact budgetFinite place mem group infinite
    · exact initialFinite place mem group infinite
    · exact workersFinite place mem group infinite
    · exact precheckFinite place mem group infinite
  | _ => exact .inl rfl

/-- A limit as a document value; an open one is null. -/
def limitDatum {α : Type} (write : α → Datum) : Option α → Datum
  | none => .null
  | some bound => write bound

/-- A number as a document value. -/
def numberDatum : Number → Datum
  | .int n => .int n
  | .float x => .float x

/-- The fields that say a budget. -/
def budgetFields (budget : Budget) : Section :=
  [(.text "max-iterations", limitDatum .int budget.maxIterations),
    (.text "max-modulus", limitDatum .int budget.maxModulus),
    (.text "max-path-length", limitDatum .int budget.maxPathLength),
    (.text "max-time", limitDatum numberDatum budget.maxTime)]

/-- The fields that say the modulus and how it grows. -/
def moduloFields (initial : Int) (policy : ModulusPolicy) : Section :=
  [(.text "initial", .int initial), (.text "policy", .text policy.name)]

/-- The field that says the number of workers. -/
def searchFields (workers : Int) : Section :=
  [(.text "workers", .int workers)]

/-- The fields that say the integer check. -/
def precheckFields (precheck : Precheck) : Section :=
  [(.text "enabled", .bool precheck.enabled),
    (.text "max-steps", limitDatum .int precheck.maxSteps),
    (.text "timeout-ms", limitDatum .int precheck.timeoutMs)]

/-- The document value that says all settings. -/
def toDatum (settings : Settings) : Datum :=
  .map [(.text "budget", .map (budgetFields settings.budget)),
    (.text "modulo", .map (moduloFields settings.initialModulus settings.policy)),
    (.text "search", .map (searchFields settings.workers)),
    (.text "z-reach", .map (precheckFields settings.precheck))]

section ReadsBack

variable (document : Document)

theorem limit_whole_limitDatum (bound : Option Int) :
    limit (whole document) (some (limitDatum .int bound)) = .ok bound := by
  cases bound <;> rfl

theorem limit_decimal_limitDatum {bound : Option Number} (time : ∀ n, bound ≠ some (.int n)) :
    limit (decimal document) (some (limitDatum numberDatum bound)) = .ok bound := by
  rcases bound with _ | bound
  · rfl
  cases bound with
  | int n => exact absurd rfl (time n)
  | float x => rfl

theorem budgetOf_budgetFields {budget : Budget} (valid : budget.Valid)
    (time : ∀ n, budget.maxTime ≠ some (.int n)) :
    budgetOf document (budgetFields budget) = .ok budget := by
  simp only [budgetOf, budgetFields, valueOf?, Datum.lookup?, List.foldl_cons, List.foldl_nil]
  simp [limit_whole_limitDatum, limit_decimal_limitDatum document time,
    Budget.checked_of_valid valid, bind, Except.bind]

theorem policyOf_moduloFields (initial : Int) (policy : ModulusPolicy) :
    policyOf document (moduloFields initial policy) = .ok policy := by
  have lower : Text.lower policy.name = policy.name := by cases policy <;> decide +kernel
  simp [policyOf, moduloFields, valueOf?, Datum.lookup?, Document.expand, Document.expandWithin,
    Datum.plain?, lower]

theorem initialModulusOf_moduloFields {initial : Int} (large : 2 ≤ initial)
    (policy : ModulusPolicy) :
    initialModulusOf document (moduloFields initial policy) = .ok initial := by
  simp [initialModulusOf, moduloFields, Datum.lookup?, whole, Document.resolve, Datum.toWhole,
    Except.mapError, bind, Except.bind, Int.not_lt.2 large]

theorem workersOf_searchFields {workers : Int} (large : 1 ≤ workers) :
    workersOf document (searchFields workers) = .ok workers := by
  simp [workersOf, searchFields, Datum.lookup?, whole, Document.resolve, Datum.toWhole,
    Except.mapError, bind, Except.bind, Int.not_lt.2 large]

theorem positive_of_atLeastOne {fault : Int → Error} {bound : Option Int}
    (large : atLeastOne bound) : positive fault bound = .ok bound := by
  cases bound with
  | none => rfl
  | some n =>
    have large : 1 ≤ n := by simpa [atLeastOne] using large
    exact if_neg (by omega)

theorem precheckOf_precheckFields {precheck : Precheck} (steps : atLeastOne precheck.maxSteps)
    (timeout : atLeastOne precheck.timeoutMs) :
    precheckOf document (precheckFields precheck) = .ok precheck := by
  simp [precheckOf, precheckFields, valueOf?, Datum.lookup?, limit_whole_limitDatum, flag,
    positive_of_atLeastOne steps, positive_of_atLeastOne timeout, bind, Except.bind, pure,
    Except.pure]

theorem sectionOf_map (name : String) (fields : Section) :
    sectionOf document name (some (.map fields)) = .ok fields := by
  cases fields <;> rfl

end ReadsBack

/-- Settings within their bounds are read back from the document value that says them. -/
theorem ofDatum_toDatum {settings : Settings} (valid : settings.Valid)
    (time : ∀ n, settings.budget.maxTime ≠ some (.int n)) :
    ofDatum settings.toDatum = .ok settings := by
  simp only [ofDatum, ofDocument, toDatum, Document.resolve]
  simp [valueOf?, Datum.lookup?, sectionOf_map, ofSections,
    budgetOf_budgetFields _ valid.budget time, policyOf_moduloFields,
    initialModulusOf_moduloFields _ valid.modulus, workersOf_searchFields _ valid.workers,
    precheckOf_precheckFields _ valid.maxSteps valid.timeoutMs, bind, Except.bind, pure,
    Except.pure, Except.mapError]

/-- What reading settings can end with: settings within their bounds, and then no number is out of
range; a configuration error; or one of two other faults, each with the number that is out of range.
All settings within their bounds can be read. -/
theorem ofDatum_valid_or_refused (value : Datum) :
    ((∃ settings, ofDatum value = .ok settings ∧ settings.Valid ∧ ¬HasInfinite value ∧
        ¬HasOversized value) ∨
      (∃ e, ofDatum value = .error e ∧ e.kind = .configuration) ∨
      (ofDatum value = .error (.conversion .wholeFromInfinity) ∧ HasInfinite value) ∨
      (ofDatum value = .error (.conversion .decimalTooLarge) ∧ HasOversized value)) ∧
    ∀ settings : Settings, settings.Valid → (∀ n, settings.budget.maxTime ≠ some (.int n)) →
      ofDatum settings.toDatum = .ok settings := by
  refine ⟨?_, fun settings => ofDatum_toDatum⟩
  have ensures := ofDatum_ensures value
  cases read : ofDatum value with
  | ok settings =>
    rw [read] at ensures
    exact .inl ⟨settings, rfl, ensures⟩
  | error e =>
    rw [read] at ensures
    rcases ensures with refused | ⟨rfl, infinite⟩ | ⟨rfl, oversized⟩
    · exact .inr (.inl ⟨e, rfl, refused⟩)
    · exact .inr (.inr (.inl ⟨rfl, infinite⟩))
    · exact .inr (.inr (.inr ⟨rfl, oversized⟩))

/-- An infinite first modulus is refused, but not as a configuration error. -/
theorem ofDatum_infinite_modulus :
    ∃ e, ofDatum (.map [(.text "modulo",
        .map [(.text "initial", .float (Binary64.infinity false))])]) = .error e ∧
      e.kind = .overflow ∧ e.message = "cannot convert float infinity to integer" :=
  ⟨.conversion .wholeFromInfinity, rfl, rfl, rfl⟩

end Settings
end ZeroRun
