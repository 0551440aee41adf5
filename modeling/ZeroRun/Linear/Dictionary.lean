import ZeroRun.Linear.Constraint

/-!
Dictionaries of linear forms. A form is a quantity that has to be non-negative: an unknown, or
what a constraint leaves over. Some forms are free, and every other one is written as a line in
the free ones. Where all free forms are zero, the constants of the lines are the values of the
other forms.

Free forms and lines are exchanged until no constant is negative, or until a line shows that its
form is negative wherever the free ones are not. Nothing here is trusted: what a dictionary shows
is checked by those who use it. The fuel is far more than is needed.
-/
namespace ZeroRun.Linear

/-- A form in terms of the free ones: `scale` times the form is the constant plus the entries
times the free forms. -/
structure Line where
  form : Nat := 0
  scale : Int := 1
  constant : Int := 0
  entries : Array Int := #[]
deriving Inhabited

namespace Line

/-- The entry for the free form in a column. -/
def entry (l : Line) (column : Nat) : Int :=
  l.entries.getD column 0

/-- The line divided by the greatest common divisor of its numbers. -/
def reduced (l : Line) : Line :=
  let g : Nat := l.entries.foldl (fun g x => if g = 1 then g else Nat.gcd g x.natAbs)
    (Nat.gcd l.scale.natAbs l.constant.natAbs)
  if g ≤ 1 then l
  else
    { l with
      scale := l.scale / g
      constant := l.constant / g
      entries := l.entries.map (· / g) }

/-- The line solved for the free form in a column; its own form takes the place of that one. -/
def solvedFor (l : Line) (column : Nat) (form : Nat) : Line :=
  let sign := (l.entry column).sign
  { form := form
    scale := (l.entry column).natAbs
    constant := -sign * l.constant
    entries := (l.entries.map (-sign * ·)).setIfInBounds column (sign * l.scale) }

/-- Replaces the free form in a column by what another line says of it. -/
def substitute (l : Line) (column : Nat) (other : Line) : Line :=
  let e := l.entry column
  if e = 0 then l
  else
    reduced
      { form := l.form
        scale := other.scale * l.scale
        constant := other.scale * l.constant + e * other.constant
        entries := Array.zipWith (fun a b => other.scale * a + e * b)
          (l.entries.setIfInBounds column 0) other.entries }

/-- Adds the `k`-fold of the form of another line. -/
def plus (l : Line) (k : Int) (other : Line) : Line :=
  reduced
    { form := l.form
      scale := l.scale * other.scale
      constant := other.scale * l.constant + l.scale * k * other.constant
      entries := Array.zipWith (fun a b => other.scale * a + l.scale * k * b)
        l.entries other.entries }

/-- The line of the negated form. -/
def negated (l : Line) : Line :=
  { l with constant := -l.constant, entries := l.entries.map (-·) }

end Line

/-- The free forms, one a column, and the lines of the other forms. A pinned free form is zero. -/
structure Dictionary where
  free : Array Nat
  pinned : Array Bool
  lines : Array Line

namespace Dictionary

/-- The dictionary in which `n` unknowns are free and there is no other form. -/
def ofUnknowns (n : Nat) : Dictionary :=
  ⟨Array.range n, Array.replicate n false, #[]⟩

/-- The line of a constant plus a weighted sum of the unknowns. -/
def express (d : Dictionary) (form : Nat) (constant : Int) (weights : Array Int) : Line :=
  d.lines.foldl (fun total line =>
      let w := weights.getD line.form 0
      if w = 0 then total else total.plus w line)
    { form := form
      constant := constant
      entries := d.free.map fun u => weights.getD u 0 }

/-- Exchanges the form of a line with the free form in a column. Also returns what the line has
become. -/
def exchange (d : Dictionary) (place column : Nat) : Dictionary × Line :=
  let line := d.lines.getD place {}
  let solved := line.solvedFor column (d.free.getD column 0)
  ({ d with
     free := d.free.setIfInBounds column line.form
     lines := d.lines.mapIdx fun k l => if k = place then solved else l.substitute column solved },
   solved)

/-- The column of the first free form, in the order of forms, that is not pinned and whose entry
passes the test. -/
def column? (d : Dictionary) (l : Line) (test : Int → Bool) : Option Nat :=
  (l.entries.foldl (fun (best, c) e =>
    if test e && !d.pinned.getD c true
        && best.all (fun b => d.free.getD c 0 < d.free.getD b 0) then (some c, c + 1)
    else (best, c + 1)) ((none : Option Nat), 0)).1

/-- The place of the first line, in the order of forms, with a negative constant. -/
def negative? (d : Dictionary) : Option Nat :=
  (d.lines.foldl (fun (best, k) line =>
    if line.constant < 0
        && best.all (fun b => line.form < (d.lines.getD b {}).form) then (some k, k + 1)
    else (best, k + 1)) ((none : Option Nat), 0)).1

/-- Exchanges forms until no constant is negative, or until a line of the dictionary shows that
this is not possible. -/
def repair : (fuel : Nat) → Dictionary → Except (Dictionary × Line) Dictionary
  | 0, d => .error (d, {})
  | fuel + 1, d =>
    match d.negative? with
    | none => .ok d
    | some place =>
      let line := d.lines.getD place {}
      match d.column? line (0 < ·) with
      | none => .error (d, line)
      | some column => repair fuel (d.exchange place column).1

/-- The place of the line that limits the growth of the free form in a column. -/
def limiting? (d : Dictionary) (column : Nat) : Option Nat :=
  (d.lines.foldl (fun (best, k) line =>
    if line.entry column < 0 && best.all (fun b =>
        let other := d.lines.getD b {}
        let left := line.constant * other.entry column
        let right := other.constant * line.entry column
        right < left || (left = right && line.form < other.form)) then (some k, k + 1)
    else (best, k + 1)) ((none : Option Nat), 0)).1

/-- Exchanges forms until the form of the goal is as large as it gets, or until it is seen to grow
with a free form without end; the column of that one is returned then. -/
def maximize : (fuel : Nat) → Dictionary → (goal : Line) → Dictionary × Line × Option Nat
  | 0, d, goal => (d, goal, none)
  | fuel + 1, d, goal =>
    match d.column? goal (0 < ·) with
    | none => (d, goal, none)
    | some column =>
      match d.limiting? column with
      | none => (d, goal, some column)
      | some place =>
        let (d', solved) := d.exchange place column
        maximize fuel d' (goal.substitute column solved)

/-- Makes the form of a line zero for good, unless the line shows that this is not possible. -/
def pin (d : Dictionary) (line : Line) : Except (Dictionary × Line) Dictionary :=
  let best := (line.entries.foldl (fun (best, c) e =>
    if e ≠ 0 && !d.pinned.getD c true
        && best.all (fun b => e.natAbs < (line.entry b).natAbs) then (some c, c + 1)
    else (best, c + 1)) ((none : Option Nat), 0)).1
  match best with
  | some column =>
    let d' := ({ d with lines := d.lines.push line }.exchange d.lines.size column).1
    .ok { d' with pinned := d'.pinned.setIfInBounds column true }
  | none =>
    if line.constant = 0 then .ok d
    else .error (d, if line.constant < 0 then line else { line.negated with scale := -line.scale })

end Dictionary
end ZeroRun.Linear
