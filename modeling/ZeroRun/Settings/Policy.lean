import ZeroRun.Error

/-!
How the modulus grows. After a candidate that certifies nothing, the next modulus has to tell
apart more counter values than the last one.
-/
namespace ZeroRun

/-- How the modulus grows after an inconclusive candidate. -/
inductive ModulusPolicy where
  | double
  | increment
  | lcm
deriving DecidableEq, Repr

namespace ModulusPolicy

/-- The name of a policy. -/
def name : ModulusPolicy → String
  | .double => "double"
  | .increment => "increment"
  | .lcm => "lcm"

/-- The policy with a name. -/
def ofName? : String → Option ModulusPolicy
  | "double" => some .double
  | "increment" => some .increment
  | "lcm" => some .lcm
  | _ => none

/-- The policy with a name, or the error that there is none. -/
def ofName (name : String) : Except Error ModulusPolicy :=
  match ofName? name with
  | some policy => .ok policy
  | none => .error (.notPolicy name)

/-- The next modulus. The least common multiple with `peak + 1` tells apart all values up to the
peak; where it is no larger than the modulus, the modulus is doubled. -/
def next (policy : ModulusPolicy) (modulus peak : Int) : Int :=
  match policy with
  | .double => modulus * 2
  | .increment => modulus + 1
  | .lcm =>
    let grown : Int := Int.lcm modulus (peak + 1)
    if modulus < grown then grown else modulus * 2

@[simp]
theorem ofName?_name (policy : ModulusPolicy) : ofName? policy.name = some policy := by
  cases policy <;> rfl

end ModulusPolicy
end ZeroRun
