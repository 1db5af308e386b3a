import ProcLang.Proofs.Tree.SourceOrder

/-!
# Visitors of one family

A visitor that records the nodes of one family walks through the others. If it walks on below
the recorded nodes too, it has recorded what the visitor of all families records of this family.
If it does not, then of these only the outermost ones, which have no node of the family above
them (`Outermost`). Both hold of every program and family (`visitsOf_eq`).
-/

set_option autoImplicit false

namespace ProcLang

/-- The family of a node. -/
def Node.family : Node → Family
  | .decl _ => .decl
  | .stmt _ => .stmt
  | .expr _ => .expr

/-- A node of the family is read at the place, and none at a place above it. -/
def Outermost (read : Node.Place → Option Node) (family : Family) (place : Node.Place) : Prop :=
  (read place).map Node.family = some family ∧
    ∀ above ∈ place.inits, above ≠ place → (read above).map Node.family ≠ some family

instance (read : Node.Place → Option Node) (family : Family) :
    DecidablePred (Outermost read family) := fun _ =>
  inferInstanceAs (Decidable (_ ∧ _))

/-- The outermost nodes of the family among those at some places. -/
def outermostNodes (read : Node.Place → Option Node) (family : Family)
    (places : List Node.Place) : List Node :=
  (places.filter fun place => Outermost read family place).filterMap read

variable {family : Family}

/-! ## Outermost nodes, one step down -/

section OneStep

variable {read : Node.Place → Option Node}

/-- Where no node of the family stands at the top, the ones below are outermost as for
themselves. -/
theorem outermost_cons (top : (read []).map Node.family ≠ some family) {n : Node} {i : Nat}
    (below : ∀ place, read (i :: place) = n.at? place) (place : Node.Place) :
    Outermost read family (i :: place) ↔ Outermost n.at? family place := by
  have above : (∀ above ∈ (i :: place).inits, above ≠ i :: place →
        (read above).map Node.family ≠ some family) ↔
      ∀ above ∈ place.inits, above ≠ place → (n.at? above).map Node.family ≠ some family := by
    simp only [List.mem_inits]
    constructor
    · intro h above front other
      rw [← below]
      have longer : i :: above <+: i :: place := List.cons_prefix_cons.2 ⟨rfl, front⟩
      exact h (i :: above) longer fun same => other (List.cons.inj same).2
    · intro h above front other
      rcases List.prefix_cons_iff.1 front with rfl | ⟨above, rfl, inside⟩
      · exact top
      · rw [below]
        exact h above inside fun same => other (congrArg (i :: ·) same)
  rw [Outermost, Outermost, below, above]

/-- Under a node of the family nothing is outermost. -/
theorem not_outermost_cons (top : (read []).map Node.family = some family) (i : Nat)
    (place : Node.Place) : ¬ Outermost read family (i :: place) := fun h =>
  h.2 [] ((List.mem_inits ..).2 List.nil_prefix) (List.cons_ne_nil i place).symm top

/-- The outermost nodes below some nodes are those of each of them. -/
theorem outermostNodes_placesAmong (top : (read []).map Node.family ≠ some family) {ns : List Node}
    (below : ∀ i place, read (i :: place) = nodeAmong? ns (i :: place)) :
    outermostNodes read family (placesAmong ns) =
      ns.flatMap fun n => outermostNodes n.at? family n.places := by
  have one : ∀ c ∈ ns.zipIdx, outermostNodes read family (c.1.places.map (c.2 :: ·)) =
      outermostNodes c.1.at? family c.1.places := by
    intro c number
    have reads (place : Node.Place) : read (c.2 :: place) = c.1.at? place := by
      rw [below, nodeAmong?_cons number]
    rw [outermostNodes, outermostNodes, List.filter_map, List.filterMap_map]
    simp only [Function.comp_def, outermost_cons top reads, reads]
  calc outermostNodes read family (placesAmong ns)
    _ = ns.zipIdx.flatMap fun c => outermostNodes c.1.at? family c.1.places := by
        rw [placesAmong, outermostNodes, List.filter_flatMap, List.filterMap_flatMap]
        exact List.flatMap_congr one
    _ = (ns.zipIdx.map Prod.fst).flatMap fun n => outermostNodes n.at? family n.places := by
        rw [List.flatMap_map]
    _ = _ := by rw [List.zipIdx_map_fst]

end OneStep

theorem Node.outermostNodes_of_family {n : Node} (own : n.family = family) :
    outermostNodes n.at? family n.places = [n] := by
  have top : (n.at? []).map Node.family = some family := congrArg some own
  have others : ∀ place ∈ placesAmong n.children, ¬ Outermost n.at? family place := by
    intro place mem
    cases place with
    | nil => exact absurd mem (nil_notMem_placesAmong _)
    | cons i place => exact not_outermost_cons top i place
  have first : Outermost n.at? family [] := by
    refine ⟨top, fun above mem other => ?_⟩
    exact absurd (List.prefix_nil.1 ((List.mem_inits ..).1 mem)) other
  rw [outermostNodes, places_eq, List.filter_cons, if_pos (decide_eq_true first),
    List.filter_eq_nil_iff.2 fun place mem => mt of_decide_eq_true (others place mem)]
  rfl

theorem Node.outermostNodes_of_other {n : Node} (other : n.family ≠ family) :
    outermostNodes n.at? family n.places =
      n.children.flatMap fun c => outermostNodes c.at? family c.places := by
  have top : (n.at? []).map Node.family ≠ some family := fun h => other (Option.some.inj h)
  have first : ¬ Outermost n.at? family [] := fun h => top h.1
  rw [places_eq, outermostNodes, List.filter_cons, if_neg (mt of_decide_eq_true first)]
  exact outermostNodes_placesAmong top n.at?_cons

/-! ## Recorders -/

namespace Visitor

/-- What a recorder of one family does at a node. -/
theorem call_recorder (walkOn : Bool) (n : Node) (visited : List Node) :
    (recorder (fun f => f == family) walkOn).call n visited =
      if n.family == family then (visited ++ [n], walkOn) else (visited, true) := by
  cases n <;> rfl

/-- The recorder that walks on keeps the nodes of its family. -/
theorem callAll_recorder_family (ns visited : List Node) :
    (recorder (fun f => f == family) true).callAll ns visited =
      visited ++ ns.filter fun n => n.family == family := by
  induction ns generalizing visited with
  | nil => exact (List.append_nil visited).symm
  | cons n ns ih =>
      rw [callAll, List.foldl_cons, call_recorder]
      refine (ih _).trans ?_
      rw [List.filter_cons]
      split
      · exact (List.append_cons ..).symm
      · rfl

/-- Nodes one after another, where each adds what it adds alone. -/
theorem visitAll_append_flatMap {v : Visitor (List Node)} {added : Node → List Node}
    {ns : List Node} (each : ∀ n ∈ ns, ∀ visited, v.visit n visited = visited ++ added n)
    (visited : List Node) : v.visitAll ns visited = visited ++ ns.flatMap added := by
  induction ns generalizing visited with
  | nil => exact (List.append_nil visited).symm
  | cons n ns ih =>
      rw [List.forall_mem_cons] at each
      rw [visitAll, List.foldl_cons, each.1, List.flatMap_cons, ← List.append_assoc]
      exact ih each.2 _

/-- The recorder that does not walk on adds the outermost nodes below a node. -/
theorem visit_recorder_outermost (n : Node) (visited : List Node) :
    (recorder (fun f => f == family) false).visit n visited =
      visited ++ outermostNodes n.at? family n.places := by
  induction n using Node.induction generalizing visited with
  | step n ih =>
      rw [visit_eq, call_recorder]
      by_cases own : n.family = family
      · rw [if_pos (beq_iff_eq.2 own), n.outermostNodes_of_family own]
        rfl
      · rw [if_neg (mt beq_iff_eq.1 own), n.outermostNodes_of_other own]
        exact visitAll_append_flatMap ih visited

theorem visitProgram_eq_visitAll {σ : Type} (v : Visitor σ) (p : Program) (s : σ) :
    v.visitProgram p s = v.visitAll p.roots s := by
  rw [visitAll, Program.roots, List.foldl_map]
  rfl

end Visitor

/-- Visitors of one family. If the visitor walks on, it visits the nodes of its family among all
visits, in the same order; if not, those of these visits at whose place no node of the family
stands above. -/
theorem visitsOf_eq (p : Program) (family : Family) :
    p.visitsOf family true = p.visits.filter (fun n => n.family == family) ∧
      p.places.map p.nodeAt? = p.visits.map some ∧
      p.visitsOf family false =
        (p.places.filter fun place => Outermost p.nodeAt? family place).filterMap p.nodeAt? := by
  refine ⟨?_, ?_, ?_⟩
  · rw [p.visits_eq_nodes, Program.visitsOf, (Visitor.recorder_thorough _).visitProgram_eq,
      Visitor.callAll_recorder_family, List.nil_append]
  · rw [p.visits_eq_nodes, p.enumerates.reads]
  · have top : (p.nodeAt? []).map Node.family ≠ some family := fun h => nomatch h
    rw [Program.visitsOf, Visitor.visitProgram_eq_visitAll,
      Visitor.visitAll_append_flatMap fun n _ visited => Visitor.visit_recorder_outermost n visited,
      List.nil_append]
    exact (outermostNodes_placesAmong top fun _ _ => rfl).symm

end ProcLang
