import ZeroRun.Counters

/-! The algebra of counter vectors: sums, multiples and products of vectors of one length, and
what their entries are. -/
namespace ZeroRun.Counters

@[simp]
theorem length_zero (n : Nat) : (zero n).length = n := by
  simp [zero]

@[simp]
theorem length_add (a b : Counters) : (add a b).length = min a.length b.length := by
  simp [add]

@[simp]
theorem length_scale (k : Int) (a : Counters) : (scale k a).length = a.length := by
  simp [scale]

@[simp]
theorem add_cons (x y : Int) (a b : Counters) : add (x :: a) (y :: b) = (x + y) :: add a b := rfl

@[simp]
theorem nil_add (a : Counters) : add [] a = [] := rfl

@[simp]
theorem add_nil (a : Counters) : add a [] = [] := by
  simp [add]

@[simp]
theorem scale_cons (k x : Int) (a : Counters) : scale k (x :: a) = (k * x) :: scale k a := rfl

@[simp]
theorem scale_nil (k : Int) : scale k [] = [] := rfl

@[simp]
theorem zero_succ (n : Nat) : zero (n + 1) = 0 :: zero n := rfl

@[simp]
theorem zero_zero : zero 0 = [] := rfl

@[simp]
theorem dot_cons (x y : Int) (a b : Counters) : dot (x :: a) (y :: b) = x * y + dot a b := by
  simp [dot]

@[simp]
theorem nil_dot (a : Counters) : dot [] a = 0 := by
  simp [dot]

@[simp]
theorem dot_nil (a : Counters) : dot a [] = 0 := by
  simp [dot]

theorem add_comm (a b : Counters) : add a b = add b a := by
  induction a generalizing b with
  | nil => simp
  | cons x a ih =>
    cases b with
    | nil => simp
    | cons y b => simp [ih b, Int.add_comm]

theorem add_assoc (a b c : Counters) : add (add a b) c = add a (add b c) := by
  induction a generalizing b c with
  | nil => simp
  | cons x a ih =>
    cases b with
    | nil => simp
    | cons y b =>
      cases c with
      | nil => simp
      | cons z c => simp [ih b c, Int.add_assoc]

theorem zero_add {n : Nat} {a : Counters} (fits : a.length = n) : add (zero n) a = a := by
  subst fits
  induction a with
  | nil => rfl
  | cons x a ih => simp [ih]

theorem add_zero {n : Nat} {a : Counters} (fits : a.length = n) : add a (zero n) = a := by
  rw [add_comm, zero_add fits]

theorem dot_comm (a b : Counters) : dot a b = dot b a := by
  induction a generalizing b with
  | nil => simp
  | cons x a ih =>
    cases b with
    | nil => simp
    | cons y b => simp [ih b, Int.mul_comm]

theorem dot_add {a b : Counters} (f : Counters) (same : a.length = b.length) :
    dot f (add a b) = dot f a + dot f b := by
  induction f generalizing a b with
  | nil => simp
  | cons z f ih =>
    cases a with
    | nil => simp [List.eq_nil_of_length_eq_zero same.symm]
    | cons x a =>
      cases b with
      | nil => simp at same
      | cons y b =>
        have tail := ih (a := a) (b := b) (by simpa using same)
        simp only [add_cons, dot_cons, tail, Int.mul_add]
        omega

theorem dot_scale (f : Counters) (k : Int) (a : Counters) : dot f (scale k a) = k * dot f a := by
  induction f generalizing a with
  | nil => simp
  | cons z f ih =>
    cases a with
    | nil => simp
    | cons x a =>
      simp only [scale_cons, dot_cons, ih, Int.mul_add]
      rw [Int.mul_left_comm]

theorem dot_zero (f : Counters) (n : Nat) : dot f (zero n) = 0 := by
  induction n generalizing f with
  | zero => simp
  | succ n ih =>
    cases f with
    | nil => simp
    | cons x f => simp [ih]

theorem add_dot {a b : Counters} (f : Counters) (same : a.length = b.length) :
    dot (add a b) f = dot a f + dot b f := by
  rw [dot_comm, dot_add f same, dot_comm f a, dot_comm f b]

theorem scale_dot (k : Int) (a f : Counters) : dot (scale k a) f = k * dot a f := by
  rw [dot_comm, dot_scale, dot_comm]

theorem isNonneg_iff {a : Counters} : a.isNonneg = true ↔ ∀ x ∈ a, 0 ≤ x := by
  simp [isNonneg]

theorem isZero_iff {a : Counters} : a.isZero = true ↔ a = zero a.length := by
  simp [isZero, zero, List.eq_replicate_iff]

theorem dot_nonneg {a b : Counters} (left : a.isNonneg = true) (right : b.isNonneg = true) :
    0 ≤ dot a b := by
  induction a generalizing b with
  | nil => simp
  | cons x a ih =>
    cases b with
    | nil => simp
    | cons y b =>
      simp only [isNonneg, List.all_cons, Bool.and_eq_true, decide_eq_true_eq] at left right
      have head := Int.mul_nonneg left.1 right.1
      have tail := ih left.2 right.2
      simp only [dot_cons]
      omega

end ZeroRun.Counters
