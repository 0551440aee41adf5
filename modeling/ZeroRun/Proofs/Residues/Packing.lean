import Mathlib
import ZeroRun.Proofs.Residues

/-! Residues as the digits of a number. To the base of the modulus, with the first residue in the
lowest place, the residue vectors are the numbers below a power of the modulus. Packing and
unpacking are inverse to each other on these. A number outside of them, negative or not, is unpacked
like its remainder, and what is no residue is not packed. -/
namespace ZeroRun.ResidueSpace

variable (space : ResidueSpace) {state : Counters}

instance (x : Int) : Decidable (space.Admits x) :=
  inferInstanceAs (Decidable (_ ∧ _))

/-- One residue for each counter. -/
structure IsState (state : Counters) : Prop where
  width : state.length = space.dimension
  admitted : ∀ x ∈ state, space.Admits x

/-- The number with these digits, the first in the lowest place. -/
def numberOf : Counters → Int
  | [] => 0
  | x :: state => x + space.modulus * numberOf state

/-! ## Digits -/

/-- A digit in front can be split off again. -/
theorem divMod_of_admits {x : Int} (admitted : space.Admits x) (rest : Int) :
    (x + space.modulus * rest).fmod space.modulus = x ∧
      (x + space.modulus * rest).fdiv space.modulus = rest := by
  have positive : 0 < space.modulus := by have := space.two_le; omega
  rw [fmod_eq, Int.fdiv_eq_ediv_of_nonneg _ positive.le, and_comm, Int.ediv_emod_unique positive]
  exact ⟨rfl, admitted⟩

theorem numberOf_mem (admitted : ∀ x ∈ state, space.Admits x) :
    space.numberOf state ∈ Set.Ico 0 (space.modulus ^ state.length) := by
  have two_le := space.two_le
  induction state with
  | nil => simp [numberOf]
  | cons x state ih =>
    obtain ⟨⟨natural, small⟩, admitted⟩ := List.forall_mem_cons.1 admitted
    obtain ⟨low, high⟩ := ih admitted
    rw [numberOf, List.length_cons, pow_succ']
    constructor
    · positivity
    · calc x + space.modulus * space.numberOf state
          < space.modulus + space.modulus * space.numberOf state := by omega
        _ = space.modulus * (space.numberOf state + 1) := by ring
        _ ≤ space.modulus * space.modulus ^ state.length :=
          Int.mul_le_mul_of_nonneg_left high (by omega)

theorem unpack_numberOf (admitted : ∀ x ∈ state, space.Admits x) :
    space.unpack state.length (space.numberOf state) = state := by
  induction state with
  | nil => rfl
  | cons x state ih =>
    obtain ⟨first, admitted⟩ := List.forall_mem_cons.1 admitted
    obtain ⟨digit, rest⟩ := space.divMod_of_admits first (space.numberOf state)
    rw [numberOf, List.length_cons, unpack, digit, rest, ih admitted]

theorem length_unpack (count : Nat) (packed : Int) :
    (space.unpack count packed).length = count := by
  induction count generalizing packed with
  | zero => rfl
  | succ count ih => rw [unpack, List.length_cons, ih]

theorem admits_of_mem_unpack (count : Nat) (packed : Int) :
    ∀ x ∈ space.unpack count packed, space.Admits x := by
  induction count generalizing packed with
  | zero => simp [unpack]
  | succ count ih => exact List.forall_mem_cons.2 ⟨space.admits_fmod packed, ih _⟩

/-- Unpacking loses a multiple of a power of the modulus. -/
theorem exists_eq_numberOf_unpack_add (count : Nat) (packed : Int) :
    ∃ lost, packed = space.numberOf (space.unpack count packed) + space.modulus ^ count * lost := by
  induction count generalizing packed with
  | zero => exact ⟨packed, by simp [unpack, numberOf]⟩
  | succ count ih =>
    obtain ⟨lost, whole⟩ := ih (packed.fdiv space.modulus)
    refine ⟨lost, ?_⟩
    calc packed
        = packed.fmod space.modulus + space.modulus * packed.fdiv space.modulus :=
          (Int.fmod_add_mul_fdiv packed space.modulus).symm
      _ = packed.fmod space.modulus + space.modulus *
            (space.numberOf (space.unpack count (packed.fdiv space.modulus)) +
              space.modulus ^ count * lost) := by rw [← whole]
      _ = _ := by rw [unpack, numberOf]; ring

theorem numberOf_unpack (count : Nat) (packed : Int) :
    space.numberOf (space.unpack count packed) = packed.fmod (space.modulus ^ count) := by
  have two_le := space.two_le
  obtain ⟨low, high⟩ := space.numberOf_mem (space.admits_of_mem_unpack count packed)
  obtain ⟨lost, whole⟩ := space.exists_eq_numberOf_unpack_add count packed
  rw [length_unpack] at high
  rw [Int.fmod_eq_emod_of_nonneg _ (by positivity)]
  nth_rewrite 2 [whole]
  rw [Int.add_mul_emod_self_left, Int.emod_eq_of_lt low high]

/-! ## Packing -/

/-- A further residue moves those packed before it up by one place. -/
def place (packed value : Int) : Except Error Int :=
  if space.Admits value then .ok (packed * space.modulus + value)
  else .error (.residueOutside value space.modulus)

theorem encode_eq (state : Counters) : space.encode state = state.reverse.foldlM space.place 0 :=
  rfl

theorem encode_of_admitted (admitted : ∀ x ∈ state, space.Admits x) :
    space.encode state = .ok (space.numberOf state) := by
  induction state with
  | nil => rfl
  | cons x state ih =>
    obtain ⟨first, admitted⟩ := List.forall_mem_cons.1 admitted
    rw [encode_eq, List.reverse_cons, List.foldlM_append, ← encode_eq, ih admitted]
    simp only [List.foldlM_cons, List.foldlM_nil, place, if_pos first, numberOf]
    rw [Int.add_comm x, Int.mul_comm]
    rfl

/-- Packing fails at the last number that is no residue, and for no other reason. -/
theorem encode_eq_error_iff {cause : Error} :
    space.encode state = .error cause ↔
      ∃ x, state.reverse.find? (fun y => ¬ space.Admits y) = some x ∧
        cause = .residueOutside x space.modulus := by
  rw [encode_eq]
  -- What has been packed before does not matter for where the loop stops.
  generalize state.reverse = pending
  generalize (0 : Int) = packed
  induction pending generalizing packed with
  | nil => simp [pure, Except.pure]
  | cons y pending ih =>
    rw [List.foldlM_cons, place]
    by_cases admitted : space.Admits y
    · rw [if_pos admitted, List.find?_cons_of_neg (by simpa using admitted), ← ih]
      rfl
    · rw [if_neg admitted, List.find?_cons_of_pos (by simpa using admitted)]
      simp [bind, Except.bind, eq_comm]

theorem exists_error_iff :
    (∃ cause, space.encode state = .error cause) ↔ ∃ x ∈ state, ¬ space.Admits x := by
  simp only [encode_eq_error_iff]
  constructor
  · rintro ⟨cause, x, found, -⟩
    have outside := List.find?_some found
    exact ⟨x, List.mem_reverse.1 (List.mem_of_find?_eq_some found), by simpa using outside⟩
  · rintro ⟨x, mem, outside⟩
    have some : (state.reverse.find? fun y => ¬ space.Admits y).isSome = true :=
      List.find?_isSome.2 ⟨x, List.mem_reverse.2 mem, decide_eq_true outside⟩
    obtain ⟨last, found⟩ := Option.isSome_iff_exists.1 some
    exact ⟨_, last, found, rfl⟩

theorem stateCount_eq : space.stateCount = space.modulus ^ space.dimension := rfl

theorem isState_decode (packed : Int) : space.IsState (space.decode packed) :=
  ⟨space.length_unpack _ _, space.admits_of_mem_unpack _ _⟩

theorem decode_numberOf (valid : space.IsState state) :
    space.decode (space.numberOf state) = state := by
  rw [decode, ← valid.width]
  exact space.unpack_numberOf valid.admitted

theorem encode_decode (packed : Int) :
    space.encode (space.decode packed) =
      .ok (packed.fmod (space.modulus ^ space.dimension)) := by
  rw [space.encode_of_admitted (space.isState_decode packed).admitted, decode, numberOf_unpack]

/-- The residue vectors are packed into the numbers below their count, each into one of its own. -/
theorem bijOn_encode :
    Set.BijOn space.encode {state | space.IsState state}
      (Set.image .ok (Set.Ico 0 space.stateCount)) := by
  refine ⟨fun state valid => ?_, fun state valid other known same => ?_, ?_⟩
  · have inside := space.numberOf_mem valid.admitted
    rw [valid.width, ← stateCount_eq] at inside
    exact ⟨_, inside, (space.encode_of_admitted valid.admitted).symm⟩
  · rw [space.encode_of_admitted valid.admitted, space.encode_of_admitted known.admitted] at same
    rw [← space.decode_numberOf valid, ← space.decode_numberOf known, Except.ok.inj same]
  · rintro _ ⟨packed, ⟨low, high⟩, rfl⟩
    refine ⟨space.decode packed, space.isState_decode packed, ?_⟩
    rw [encode_decode, ← stateCount_eq, Int.fmod_eq_emod_of_nonneg _ (low.trans high.le),
      Int.emod_eq_of_lt low high]

/-- Packing is a bijection. A residue vector is packed into the number with its digits and comes
back when that is unpacked. Any number is unpacked into a residue vector, which is packed into the
remainder of the number by the count of vectors. So the vectors are packed one-to-one onto the
numbers below their count. Packing fails exactly if some entry is no residue, and then because of a
bad value. -/
theorem packing_bijective (space : ResidueSpace) :
    (∀ state, space.IsState state →
      space.encode state = .ok (space.numberOf state) ∧
        space.decode (space.numberOf state) = state) ∧
    (∀ packed, space.IsState (space.decode packed) ∧
      space.encode (space.decode packed) =
        .ok (packed.fmod (space.modulus ^ space.dimension))) ∧
    Set.BijOn space.encode {state | space.IsState state}
      (Set.image .ok (Set.Ico 0 space.stateCount)) ∧
    (∀ state, (∃ cause, space.encode state = .error cause) ↔ ∃ x ∈ state, ¬ space.Admits x) ∧
    ∀ state cause, space.encode state = .error cause → cause.kind = .badValue := by
  refine ⟨fun state valid => ?_, fun packed => ?_, space.bijOn_encode,
    fun state => space.exists_error_iff, fun state cause failed => ?_⟩
  · exact ⟨space.encode_of_admitted valid.admitted, space.decode_numberOf valid⟩
  · exact ⟨space.isState_decode packed, space.encode_decode packed⟩
  · obtain ⟨x, -, rfl⟩ := space.encode_eq_error_iff.1 failed
    exact ite_self _

/-- Two counters modulo ten. -/
def decimalPairs : ResidueSpace :=
  ⟨10, 2, by omega⟩

/-- The second residue stands in the place of the tens. A number below zero is unpacked like the one
a hundred above it, and a ten is not packed. -/
theorem packing_decimalPairs :
    decimalPairs.IsState [3, 1] ∧ decimalPairs.encode [3, 1] = .ok 13 ∧
      decimalPairs.decode 13 = [3, 1] ∧ decimalPairs.encode (decimalPairs.decode (-87)) = .ok 13 ∧
      ∃ cause, decimalPairs.encode [0, 10] = .error cause ∧ cause.kind = .badValue := by
  obtain ⟨packs, unpacks, -, fails, kind⟩ := packing_bijective decimalPairs
  have valid : decimalPairs.IsState [3, 1] := ⟨rfl, by simp [Admits, decimalPairs]⟩
  obtain ⟨packed, unpacked⟩ := packs [3, 1] valid
  obtain ⟨cause, failed⟩ := (fails [0, 10]).2 ⟨10, by simp, by simp [Admits, decimalPairs]⟩
  exact ⟨valid, packed, unpacked, (unpacks (-87)).2, cause, failed, kind _ _ failed⟩

end ZeroRun.ResidueSpace
