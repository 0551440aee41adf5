import ZeroRun.Text.Quoted

/-!
Identifiers name the control states and labels of a counter system and the symbols of a
grammar. An identifier is a text, a whole number, a tuple of identifiers, or the absent one.
Two written forms exist: the quoted form tells every two identifiers apart, and the plain form
shows a text as it is.
-/
namespace ZeroRun

/-- The name of a state, a label or a grammar symbol. -/
inductive Ident where
  | absent
  | int (value : Int)
  | text (value : String)
  | tuple (items : List Ident)
deriving Inhabited, Hashable

namespace Ident

mutual
private def decEqIdent : (a b : Ident) → Decidable (a = b)
  | .absent, .absent => .isTrue rfl
  | .int m, .int n =>
    if h : m = n then .isTrue (by rw [h]) else .isFalse (by simpa using h)
  | .text s, .text t =>
    if h : s = t then .isTrue (by rw [h]) else .isFalse (by simpa using h)
  | .tuple xs, .tuple ys =>
    match decEqIdents xs ys with
    | .isTrue h => .isTrue (by rw [h])
    | .isFalse h => .isFalse (by simpa using h)
  | .absent, .int _ | .absent, .text _ | .absent, .tuple _ => .isFalse (by simp)
  | .int _, .absent | .int _, .text _ | .int _, .tuple _ => .isFalse (by simp)
  | .text _, .absent | .text _, .int _ | .text _, .tuple _ => .isFalse (by simp)
  | .tuple _, .absent | .tuple _, .int _ | .tuple _, .text _ => .isFalse (by simp)
private def decEqIdents : (xs ys : List Ident) → Decidable (xs = ys)
  | [], [] => .isTrue rfl
  | [], _ :: _ | _ :: _, [] => .isFalse (by simp)
  | x :: xs, y :: ys =>
    match decEqIdent x y, decEqIdents xs ys with
    | .isTrue h, .isTrue hs => .isTrue (by rw [h, hs])
    | .isFalse h, _ => .isFalse (by simp [h])
    | _, .isFalse hs => .isFalse (by simp [hs])
end

instance : DecidableEq Ident := decEqIdent

mutual
/-- The form that shows what kind of identifier it is, if no number in it has too many digits. -/
def quoted? : Ident → Option String
  | .absent => some "None"
  | .int n => Text.int? n
  | .text s => some (Text.quoted s)
  | .tuple items => (quotedAll? items).map Text.parenthesized
/-- The quoted forms of several identifiers. -/
def quotedAll? : List Ident → Option (List String)
  | [] => some []
  | item :: items => do return (← item.quoted?) :: (← quotedAll? items)
end

/-- The form in running text: a text stands without quotes. -/
def plain? : Ident → Option String
  | .text s => some s
  | other => other.quoted?

/-- Identifiers in the order of their quoted forms. -/
def inOrder (items : List Ident) : List Ident :=
  items.mergeSort fun a b => decide (a.quoted?.getD "" ≤ b.quoted?.getD "")

end Ident
end ZeroRun
