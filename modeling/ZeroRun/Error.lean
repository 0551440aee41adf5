import ZeroRun.Datum
import ZeroRun.Ident

/-!
Everything that can go wrong, as causes. `Error.kind` says which family a cause belongs to and
`Error.message` words it. A cause whose wording would hold a number with too many digits cannot be
worded, and that is what goes wrong then.
-/
namespace ZeroRun

/-- The families of errors. -/
inductive ErrorKind where
  | malformedInstance
  | internalInconsistency
  | configuration
  | badValue
  | badIndex
  | divisionByZero
  | overflow
  | unknownKey
  | unknownAttribute
  | badType
deriving DecidableEq, Repr

/-- The structural cases of a grammar production. -/
inductive ProductionKind where
  | edge
  | excursion
  | concat
  | epsilon
deriving DecidableEq, Repr

/-- The name of a structural case. -/
def ProductionKind.name : ProductionKind → String
  | .edge => "EDGE"
  | .excursion => "EXCURSION"
  | .concat => "CONCAT"
  | .epsilon => "EPSILON"

/-- Why a document value cannot be read as a number, or a number not be written. -/
inductive ConversionError where
  | notWhole (base : Nat) (written : String)
  | tooManyDigits (count : Nat)
  | unwritable
  | notDecimal (written : String)
  | wholeFrom (kind : String)
  | decimalFrom (kind : String)
  | wholeFromNaN
  | wholeFromInfinity
  | decimalTooLarge
deriving DecidableEq, Repr

/-- The greatest number of characters that are shown of a text that is no whole number. -/
def shownCharacters : Nat := 200

/-- The wording of a failed conversion. -/
def ConversionError.message : ConversionError → String
  | .notWhole base written =>
    "invalid literal for int() with base " ++ toString base ++ ": "
      ++ String.ofList (written.toList.take shownCharacters)
  | .tooManyDigits count =>
    "Exceeds the limit (" ++ toString Decimal.maxDigits
      ++ " digits) for integer string conversion: value has " ++ toString count
      ++ " digits; use sys.set_int_max_str_digits() to increase the limit"
  | .unwritable =>
    "Exceeds the limit (" ++ toString Decimal.maxDigits
      ++ " digits) for integer string conversion; use sys.set_int_max_str_digits()"
      ++ " to increase the limit"
  | .notDecimal written => "could not convert string to float: " ++ written
  | .wholeFrom kind =>
    "int() argument must be a string, a bytes-like object or a real number, not '" ++ kind ++ "'"
  | .decimalFrom kind =>
    "float() argument must be a string or a real number, not '" ++ kind ++ "'"
  | .wholeFromNaN => "cannot convert float NaN to integer"
  | .wholeFromInfinity => "cannot convert float infinity to integer"
  | .decimalTooLarge => "int too large to convert to float"

/-- Is the number out of the range of its target, rather than of the wrong form? -/
def ConversionError.outOfRange : ConversionError → Bool
  | .wholeFromInfinity | .decimalTooLarge => true
  | _ => false

/-- Why a scalar of a readable document has no value. -/
inductive ScalarError where
  | number (cause : ConversionError)
  | calendar (cause : CalendarFault)
  /-- Nothing stands where a sign or digit is looked for. -/
  | missingDigit
  | notTruth (text : String)
  | notMoment
  | momentFromList
  | beyondUnicode
  | beyondWord
deriving DecidableEq, Repr

namespace ScalarError

/-- The family of a scalar's fault. -/
def kind : ScalarError → ErrorKind
  | .number cause => if cause.outOfRange then .overflow else .badValue
  | .calendar _ | .beyondUnicode => .badValue
  | .missingDigit => .badIndex
  | .notTruth _ => .unknownKey
  | .notMoment => .unknownAttribute
  | .momentFromList => .badType
  | .beyondWord => .overflow

/-- The wording of a scalar's fault. -/
def message : ScalarError → String
  | .number cause => cause.message
  | .calendar cause => cause.message
  | .missingDigit => "string index out of range"
  | .notTruth text => Text.quoted text
  | .notMoment => "'NoneType' object has no attribute 'groupdict'"
  | .momentFromList => "expected string or bytes-like object, got 'list'"
  | .beyondUnicode => "chr() arg not in range(0x110000)"
  | .beyondWord => "Python int too large to convert to C int"

end ScalarError

/-- A cause of failure. -/
inductive Error where
  -- descriptions of counter systems
  | badDimension (found : Datum)
  | undeclaredInitial (state : Ident)
  | undeclaredFinal (state : Ident)
  | undeclaredSource (index : Nat) (state : Ident)
  | undeclaredTarget (index : Nat) (state : Ident)
  | effectNotSequence (index : Nat) (found : Datum)
  | effectEntry (index : Nat) (entry : Datum)
  | effectLength (index length : Nat) (dimension : Datum)
  | guardLength (index length : Nat) (dimension : Datum)
  -- guards
  | counterOutOfRange (counter dimension : Int)
  | unknownComparison (symbol : String)
  -- walks and look-ups
  | unknownTransition (index : Int) (position : Nat)
  | brokenWalk (index : Int) (position : Nat) (leaves walkIn : Ident)
  | indexOutOfRange
  | nodeOutOfRange
  -- grammars
  | arity (kind : ProductionKind) (lhs : Ident) (terminals nonterminals : Nat)
  | unknownNonterminal (name : Ident)
  | leftRecursive (grammar nonterminal : Ident)
  -- residues
  | modulusTooSmall (modulus : Int)
  | negativeDimension (dimension : Int)
  | residueOutside (value modulus : Int)
  | moduloZero
  -- exclusions
  | emptyStem
  | emptyCycle
  -- refinement
  | unbalancedCandidate (word net : List Int) (modulus : Int)
  | stemCovered (word stem : List Int)
  | loopRecorded (word stem cycle tail : List Int)
  | unhandled (classification : String)
  | notPolicy (name : String)
  -- configuration
  | documentKind (kind : String)
  | sectionKind (name : String)
  | negativeLimit (name : String) (value : Number)
  | unknownPolicy (name : String)
  | smallModulus (value : Int)
  | fewWorkers (value : Int)
  | notFlag (found : Datum)
  | fewSteps (value : Int)
  | shortTimeout (value : Int)
  | conversion (cause : ConversionError)
  | unreadable
  | scalar (cause : ScalarError)
  /-- A number with too many digits stands in a text. -/
  | unwritable
deriving Inhabited

namespace Error

/-- The family that a cause belongs to if it can be worded. A conversion out of range is no
configuration error. -/
def family : Error → ErrorKind
  | .badDimension _ | .undeclaredInitial _ | .undeclaredFinal _ | .undeclaredSource _ _
  | .undeclaredTarget _ _ | .effectNotSequence _ _ | .effectEntry _ _ | .effectLength _ _ _
  | .guardLength _ _ _ => .malformedInstance
  | .counterOutOfRange _ _ | .unknownComparison _ | .unknownTransition _ _ | .brokenWalk _ _ _ _
  | .arity _ _ _ _ | .unknownNonterminal _ | .leftRecursive _ _ | .modulusTooSmall _
  | .negativeDimension _ | .residueOutside _ _ | .emptyStem | .emptyCycle
  | .notPolicy _ | .unwritable => .badValue
  | .indexOutOfRange | .nodeOutOfRange => .badIndex
  | .moduloZero => .divisionByZero
  | .unbalancedCandidate _ _ _ | .stemCovered _ _ | .loopRecorded _ _ _ _
  | .unhandled _ => .internalInconsistency
  | .documentKind _ | .sectionKind _ | .negativeLimit _ _ | .unknownPolicy _ | .smallModulus _
  | .fewWorkers _ | .notFlag _ | .fewSteps _ | .shortTimeout _ | .unreadable => .configuration
  | .conversion cause => if cause.outOfRange then .overflow else .configuration
  | .scalar cause => cause.kind

private def count (n : Nat) : String :=
  toString n

/-- The wording of a cause, if no number in it has too many digits. -/
def text? : Error → Option String
  | .badDimension found => do
    return "Counter dimension must be a non-negative integer, got " ++ (← found.quoted?)
  | .undeclaredInitial state => do
    return "Initial state " ++ (← state.quoted?) ++ " is not a declared state"
  | .undeclaredFinal state => do
    return "Final state " ++ (← state.quoted?) ++ " is not a declared state"
  | .undeclaredSource index state => do
    return "Transition " ++ count index ++ " references undeclared source " ++ (← state.quoted?)
  | .undeclaredTarget index state => do
    return "Transition " ++ count index ++ " references undeclared target " ++ (← state.quoted?)
  | .effectNotSequence index found => do
    return "Transition " ++ count index ++ " has a non-sequence effect " ++ (← found.quoted?)
  | .effectEntry index entry => do
    return "Transition " ++ count index ++ " has a non-integer effect entry " ++ (← entry.quoted?)
  | .effectLength index length dimension => do
    return "Transition " ++ count index ++ " has effect of length " ++ count length
      ++ ", expected dimension " ++ (← dimension.plain?)
  | .guardLength index length dimension => do
    return "Guard of transition " ++ count index ++ " has a constraint of dimension "
      ++ count length ++ ", expected " ++ (← dimension.plain?)
  | .counterOutOfRange counter dimension => do
    return "Counter " ++ (← Text.int? counter) ++ " out of range for dimension "
      ++ (← Text.int? dimension)
  | .unknownComparison symbol => some (Text.quoted symbol ++ " is not a valid Comparison")
  | .unknownTransition index position => do
    return "Unknown transition index " ++ (← Text.int? index) ++ " at position " ++ count position
  | .brokenWalk index position leaves walkIn => do
    return "Transition " ++ (← Text.int? index) ++ " at position " ++ count position ++ " leaves "
      ++ (← leaves.quoted?) ++ ", but the walk is in " ++ (← walkIn.quoted?)
  | .indexOutOfRange => some "tuple index out of range"
  | .nodeOutOfRange => some "list index out of range"
  | .arity kind lhs terminals nonterminals => do
    return kind.name ++ " production for " ++ (← lhs.quoted?) ++ " has " ++ count terminals
      ++ " terminals and " ++ count nonterminals ++ " nonterminals"
  | .unknownNonterminal name => do return "Unknown nonterminal: " ++ (← name.quoted?)
  | .leftRecursive grammar nonterminal => do
    return "Grammar " ++ (← grammar.quoted?) ++ " is left-recursive at " ++ (← nonterminal.quoted?)
  | .modulusTooSmall modulus => do
    return "Modulus must be at least 2, got " ++ (← Text.int? modulus)
  | .negativeDimension dimension => do
    return "Dimension must be non-negative, got " ++ (← Text.int? dimension)
  | .residueOutside value modulus => do
    return "Residue " ++ (← Text.int? value) ++ " outside [0, " ++ (← Text.int? modulus) ++ ")"
  | .moduloZero => some "integer modulo by zero"
  | .emptyStem => some "Cannot block the empty prefix"
  | .emptyCycle => some "Loop pattern needs a non-empty cycle"
  | .unbalancedCandidate word net modulus => do
    return "Candidate " ++ (← Text.ints? word) ++ " has net effect "
      ++ Text.parenthesized (← net.mapM Text.int?) ++ ", which is not zero modulo "
      ++ (← Text.int? modulus)
  | .stemCovered word stem => do
    return "Candidate " ++ (← Text.ints? word) ++ " starts with prefix " ++ (← Text.ints? stem)
      ++ " that was already excluded"
  | .loopRecorded word stem cycle tail => do
    return "Candidate " ++ (← Text.ints? word) ++ " matches loop pattern "
      ++ (← Text.loop? stem cycle tail) ++ " that was already excluded"
  | .unhandled classification => some ("Unhandled classification " ++ classification)
  | .notPolicy name => some (Text.quoted name ++ " is not a valid ModulusPolicy")
  | .documentKind kind => some ("Config document must be a mapping, got " ++ kind)
  | .sectionKind name => some ("Config section '" ++ name ++ "' must be a mapping")
  | .negativeLimit name value => do return name ++ " must be non-negative, got " ++ (← value.plain?)
  | .unknownPolicy name => some ("Unknown modulus policy '" ++ name ++ "'")
  | .smallModulus value => do
    return "Initial modulus must be at least 2, got " ++ (← Text.int? value)
  | .fewWorkers value => do return "workers must be at least 1, got " ++ (← Text.int? value)
  | .notFlag found => do return "z-reach enabled must be true or false, got " ++ (← found.quoted?)
  | .fewSteps value => do return "z-reach max_steps must be at least 1, got " ++ (← Text.int? value)
  | .shortTimeout value => do
    return "z-reach timeout_ms must be positive, got " ++ (← Text.int? value)
  | .conversion cause =>
    some (if cause.outOfRange then cause.message else "Invalid config value: " ++ cause.message)
  | .unreadable => some "Cannot read config file"
  | .scalar cause => some cause.message
  | .unwritable => some ConversionError.unwritable.message

/-- Can the cause be worded? -/
def isWritable (e : Error) : Bool :=
  e.text?.isSome

/-- The family of a cause, or of what goes wrong when it is worded. -/
def kind (e : Error) : ErrorKind :=
  if e.isWritable then e.family else .badValue

/-- The wording of a cause, or of what goes wrong when it is worded. -/
def message (e : Error) : String :=
  e.text?.getD ConversionError.unwritable.message

/-- A text, or the error that it holds a number with too many digits. -/
def written {α : Type} : Option α → Except Error α
  | some text => .ok text
  | none => .error .unwritable

end Error

/-- A whole number in a text. -/
def Text.int (n : Int) : Except Error String :=
  Error.written (Text.int? n)

/-- A figure in a text. -/
def Text.number (a : Number) : Except Error String :=
  Error.written a.plain?

/-- A list of whole numbers in a text. -/
def Text.ints (ns : List Int) : Except Error String :=
  Error.written (Text.ints? ns)

namespace Ident

/-- The quoted form of an identifier in a text. -/
def quoted (name : Ident) : Except Error String :=
  Error.written name.quoted?

/-- The form of an identifier in running text. -/
def plain (name : Ident) : Except Error String :=
  Error.written name.plain?

/-- Identifiers in the order of their quoted forms, which all have to be written for it. -/
def sorted (names : List Ident) : Except Error (List Ident) :=
  if names.all (·.quoted?.isSome) then .ok (inOrder names) else .error .unwritable

end Ident
end ZeroRun
