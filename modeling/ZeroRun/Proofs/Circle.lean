import Mathlib
import ZeroRun.Circle

/-! The search for a circle finds one if and only if there is one. A node that has been left leads
to nodes that have been left and so to no endless path. On the trail, each node has the one above it
among its successors, so a successor that stands on the trail closes a circle. -/
namespace ZeroRun.Circle
open Relation (ReflTransGen TransGen)

variable {α : Type} {next : α → List α} {nodes unseen : List α} {trail : Trail α}
  {node other : α}

/-- The second node is a successor of the first. -/
def Leads (next : α → List α) (node other : α) : Prop :=
  other ∈ next node

/-- No path from the node is endless. -/
def Ends (next : α → List α) (node : α) : Prop :=
  Acc (fun other node => Leads next node other) node

/-- Where all paths end there is no circle. -/
theorem Ends.not_circle (ends : Ends next node) : ¬ TransGen (Leads next) node node := by
  intro circle
  induction ends with
  | intro node _ ih =>
    obtain ⟨other, step, path⟩ := TransGen.head'_iff.1 circle
    exact ih other step (.tail' path step)

/-- What is known of a trail whose last node has the successor `above`, if it has gone on: the
successors of each node are still to be looked at, or have been left, or stand above it. -/
def Awaits (next : α → List α) : (above : Option α) → Trail α → Prop
  | _, [] => True
  | above, (node, rest) :: trail =>
    (∀ other ∈ next node, other ∈ rest ∨ Ends next other ∨ above = some other) ∧
      Awaits next (some node) trail

/-- When the node above has been left, nothing stands above. -/
theorem Awaits.leave (awaits : Awaits next (some node) trail) (ends : Ends next node) :
    Awaits next none trail := by
  cases trail with
  | nil => trivial
  | cons frame trail =>
    refine ⟨fun other mem => ?_, awaits.2⟩
    rcases awaits.1 other mem with here | done | above
    · exact .inl here
    · exact .inr (.inl done)
    · cases above
      exact .inr (.inl ends)

/-- What holds of the search at every moment. -/
structure Tracks (next : α → List α) (nodes unseen : List α) (trail : Trail α) : Prop where
  linked : (trail.map Prod.fst).IsChain fun above below => Leads next below above
  pending : ∀ frame ∈ trail, frame.2 ⊆ next frame.1
  inside : trail.map Prod.fst ⊆ nodes
  awaits : Awaits next none trail
  covers : ∀ node ∈ nodes, node ∈ unseen ∨ node ∈ trail.map Prod.fst ∨ Ends next node

/-- Each node of a linked trail leads to the one at its end. -/
theorem leads_of_linked {below : List α}
    (linked : (node :: below).IsChain fun above below => Leads next below above)
    (mem : other ∈ node :: below) : ReflTransGen (Leads next) other node := by
  induction below generalizing node with
  | nil => rw [List.mem_singleton.1 mem]
  | cons place below ih =>
    obtain ⟨step, linked⟩ := List.isChain_cons_cons.1 linked
    rcases List.mem_cons.1 mem with rfl | mem
    · exact .refl
    · exact (ih linked mem).tail step

namespace Tracks
variable {rest : List α}

/-- A node all of whose successors have been looked at is left. -/
theorem leave (tracks : Tracks next nodes unseen ((node, []) :: trail)) :
    Tracks next nodes unseen trail := by
  have ends : Ends next node := by
    refine .intro node fun other mem => ?_
    rcases tracks.awaits.1 other mem with here | done | above
    · cases here
    · exact done
    · cases above
  refine ⟨tracks.linked.of_cons, fun frame mem => tracks.pending frame (.tail _ mem),
    fun place mem => tracks.inside (.tail _ mem), tracks.awaits.2.leave ends, ?_⟩
  intro place mem
  rcases tracks.covers place mem with new | here | done
  · exact .inl new
  · rcases List.mem_cons.1 here with rfl | here
    · exact .inr (.inr ends)
    · exact .inr (.inl here)
  · exact .inr (.inr done)

/-- A successor that has been left is passed over. -/
theorem pass (tracks : Tracks next nodes unseen ((node, other :: rest) :: trail))
    (ends : Ends next other) : Tracks next nodes unseen ((node, rest) :: trail) := by
  refine ⟨tracks.linked, ?_, tracks.inside, ⟨?_, tracks.awaits.2⟩, tracks.covers⟩
  · rintro frame (_ | ⟨_, mem⟩)
    · exact fun place mem => tracks.pending _ List.mem_cons_self (.tail _ mem)
    · exact tracks.pending frame (.tail _ mem)
  · intro place mem
    rcases tracks.awaits.1 place mem with here | done | above
    · rcases List.mem_cons.1 here with rfl | here
      · exact .inr (.inl ends)
      · exact .inl here
    · exact .inr (.inl done)
    · exact .inr (.inr above)

theorem successor (tracks : Tracks next nodes unseen ((node, other :: rest) :: trail)) :
    Leads next node other :=
  tracks.pending _ List.mem_cons_self List.mem_cons_self

/-- A new successor prolongs the trail. -/
theorem prolong [DecidableEq α] (tracks : Tracks next nodes unseen ((node, other :: rest) :: trail))
    (closed : other ∈ nodes) :
    Tracks next nodes (without other unseen) ((other, next other) :: (node, rest) :: trail) := by
  refine ⟨?_, ?_, ?_, ⟨fun place mem => .inl mem, fun place mem => ?_, tracks.awaits.2⟩, ?_⟩
  · exact .cons_cons tracks.successor tracks.linked
  · rintro frame (_ | ⟨_, _ | ⟨_, mem⟩⟩)
    · exact fun place mem => mem
    · exact fun place mem => tracks.pending _ List.mem_cons_self (.tail _ mem)
    · exact tracks.pending frame (.tail _ mem)
  · exact List.cons_subset.2 ⟨closed, tracks.inside⟩
  · rcases tracks.awaits.1 place mem with here | done | above
    · rcases List.mem_cons.1 here with rfl | here
      · exact .inr (.inr rfl)
      · exact .inl here
    · exact .inr (.inl done)
    · cases above
  · intro place mem
    rcases tracks.covers place mem with new | here | done
    · by_cases same : place = other
      · exact .inr (.inl (by simp [same]))
      · exact .inl (List.mem_filter.2 ⟨new, by simpa using same⟩)
    · exact .inr (.inl (.tail _ here))
    · exact .inr (.inr done)

/-- A trail that is followed to its end leaves the nodes on it behind, or closes a circle. -/
theorem follow [DecidableEq α] (tracks : Tracks next nodes unseen trail)
    (closed : ∀ node ∈ nodes, next node ⊆ nodes) :
    (∀ node, Circle.follow next unseen trail = .error node → TransGen (Leads next) node node) ∧
      ∀ left, Circle.follow next unseen trail = .ok left → left ⊆ unseen ∧
        ∀ node ∈ nodes, node ∈ left ∨ Ends next node := by
  fun_induction Circle.follow next unseen trail with
  | case1 unseen =>
    refine ⟨fun node failed => (by cases failed), fun left done => ?_⟩
    cases done
    refine ⟨fun node mem => mem, fun node mem => ?_⟩
    rcases tracks.covers node mem with new | here | ends
    · exact .inl new
    · cases here
    · exact .inr ends
  | case2 unseen node trail ih => exact ih tracks.leave
  | case3 unseen node other others trail mem =>
    refine ⟨fun found failed => ?_, fun left done => (by cases done)⟩
    cases failed
    exact .tail' (leads_of_linked tracks.linked mem) tracks.successor
  | case4 unseen node other others trail off new ih =>
    have inside := closed node (tracks.inside List.mem_cons_self) tracks.successor
    obtain ⟨failed, done⟩ := ih (tracks.prolong inside)
    refine ⟨failed, fun left found => ⟨fun place mem => ?_, (done left found).2⟩⟩
    exact (List.mem_filter.1 ((done left found).1 mem)).1
  | case5 unseen node other others trail off old ih =>
    have inside := closed node (tracks.inside List.mem_cons_self) tracks.successor
    have ends : Ends next other :=
      ((tracks.covers other inside).resolve_left old).resolve_left off
    exact ih (tracks.pass ends)

end Tracks

variable [DecidableEq α]

/-- Searching from several roots leaves all of them behind, or finds a circle. -/
theorem searchFrom_cases (closed : ∀ node ∈ nodes, next node ⊆ nodes) {roots : List α}
    (inside : roots ⊆ nodes) (covers : ∀ node ∈ nodes, node ∈ unseen ∨ Ends next node) :
    (∀ node, searchFrom next roots unseen = .error node → TransGen (Leads next) node node) ∧
      ∀ left, searchFrom next roots unseen = .ok left → ∀ node ∈ roots, Ends next node := by
  induction roots generalizing unseen with
  | nil => exact ⟨fun node failed => (by cases failed), fun _ _ node mem => absurd mem (by simp)⟩
  | cons root roots ih =>
    obtain ⟨here, later⟩ := List.cons_subset.1 inside
    rw [searchFrom]
    split
    · have tracks : Tracks next nodes (without root unseen) [(root, next root)] := by
        refine ⟨.singleton _, by simp, by simpa using here,
          ⟨fun place mem => .inl mem, trivial⟩, fun place mem => ?_⟩
        rcases covers place mem with new | ends
        · by_cases same : place = root
          · exact .inr (.inl (by simp [same]))
          · exact .inl (List.mem_filter.2 ⟨new, by simpa using same⟩)
        · exact .inr (.inr ends)
      obtain ⟨failed, done⟩ := tracks.follow closed
      cases found : follow next (without root unseen) [(root, next root)] with
      | error circle =>
        refine ⟨fun node same => ?_, fun left same => (by cases same)⟩
        cases same
        exact failed _ found
      | ok rest =>
        obtain ⟨fewer, covers⟩ := done rest found
        obtain ⟨failed, done⟩ := ih later covers
        refine ⟨failed, fun left found => List.forall_mem_cons.2 ⟨?_, done left found⟩⟩
        refine (covers root here).resolve_left fun mem => ?_
        simpa [without] using fewer mem
    · rename_i old
      obtain ⟨failed, done⟩ := ih later covers
      refine ⟨failed, fun left found => List.forall_mem_cons.2 ⟨?_, done left found⟩⟩
      exact (covers root here).resolve_left old

/-- What is found is a node on a circle. -/
theorem circle_of_find? (closed : ∀ node ∈ nodes, next node ⊆ nodes)
    (found : find? next nodes = some node) : TransGen (Leads next) node node := by
  have cases := searchFrom_cases closed (List.Subset.refl nodes) fun node mem => .inl mem
  unfold find? at found
  split at found
  · cases found
  · rename_i failed
    cases found
    exact cases.1 _ failed

/-- If nothing is found there is no circle. -/
theorem not_circle_of_find? (closed : ∀ node ∈ nodes, next node ⊆ nodes)
    (found : find? next nodes = none) (mem : node ∈ nodes) : ¬ TransGen (Leads next) node node := by
  have cases := searchFrom_cases closed (List.Subset.refl nodes) fun node mem => .inl mem
  unfold find? at found
  split at found
  · rename_i left done
    exact (cases.2 left done node mem).not_circle
  · cases found

end ZeroRun.Circle
