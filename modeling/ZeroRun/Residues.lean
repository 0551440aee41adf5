import ZeroRun.Counters
import ZeroRun.Error

/-!
Counters modulo a fixed number. The residues of a sum of effects can be computed effect by
effect. A sum that is zero has zero residues at every modulus, so non-zero residues certify that
the counters do not balance.
-/
namespace ZeroRun

/-- A modulus of at least two and a number of counters. -/
structure ResidueSpace where
  modulus : Int
  dimension : Nat
  two_le : 2 ≤ modulus

namespace ResidueSpace

/-- Checks modulus and dimension. -/
def make (modulus dimension : Int) : Except Error ResidueSpace :=
  if h : 2 ≤ modulus then
    if 0 ≤ dimension then .ok ⟨modulus, dimension.toNat, h⟩
    else .error (.negativeDimension dimension)
  else .error (.modulusTooSmall modulus)

variable (space : ResidueSpace)

/-- All residues zero. -/
def start : Counters :=
  Counters.zero space.dimension

/-- The number of residue vectors. -/
def stateCount : Int :=
  Int.pow space.modulus space.dimension

/-- The residues of a vector, each between zero and the modulus. -/
def residue (v : Counters) : Counters :=
  v.map (·.fmod space.modulus)

/-- The residues after an effect. -/
def step (state effect : Counters) : Counters :=
  space.residue (state.add effect)

/-- The residues after several effects. -/
def run (effects : List Counters) : Counters :=
  effects.foldl space.step space.start

/-- Do the residues certify that the counters do not balance? -/
def isUnbalanced (state : Counters) : Bool :=
  state ≠ space.start

/-- Do the residues after several effects certify that they do not balance? -/
def rejects (effects : List Counters) : Bool :=
  space.isUnbalanced (space.run effects)

/-- Packs residues into one number, the first residue in the lowest place. The last residue is
looked at first. -/
def encode (state : Counters) : Except Error Int :=
  state.reverse.foldlM (fun packed value =>
    if 0 ≤ value ∧ value < space.modulus then .ok (packed * space.modulus + value)
    else .error (.residueOutside value space.modulus)) 0

/-- Unpacks `count` residues. -/
def unpack : (count : Nat) → (packed : Int) → Counters
  | 0, _ => []
  | count + 1, packed =>
    packed.fmod space.modulus :: unpack count (packed.fdiv space.modulus)

/-- Unpacks a residue vector. -/
def decode (packed : Int) : Counters :=
  space.unpack space.dimension packed

/-- A line that names modulus and dimension. -/
def toText : Except Error String := do
  return "ModuloAbstraction(modulus=" ++ (← Text.int space.modulus) ++ ", dimension="
    ++ toString space.dimension ++ ")"

end ResidueSpace
end ZeroRun
