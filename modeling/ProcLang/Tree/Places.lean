import Mathlib.Data.List.Infix
import ProcLang.Tree.Nodes

/-!
# Places in a tree

A place in a program is a path from its top: the number of a declaration, and then at every
node the number of the child to go on with. Equal nodes may stand at many places, and no two
nodes stand at one. Places are ordered like words, so their order is that of the source, with
every node before what stands below it. The places of a program are listed in this order, and
the nodes at them are the nodes of the program (`Program.enumerates`).
-/

set_option autoImplicit false

namespace ProcLang

/-- A path down a tree. -/
abbrev Node.Place := List Nat

/-- The node at a place below a node. -/
def Node.at? (n : Node) : Node.Place → Option Node
  | [] => some n
  | i :: place => n.children[i]?.bind fun c => c.at? place

/-- The places of the nodes below a node, and its own. -/
def Node.places (n : Node) : List Node.Place :=
  [] :: n.children.attach.zipIdx.flatMap fun c => (places c.1.1).map (c.2 :: ·)
termination_by sizeOf n
decreasing_by exact Node.child_lt c.1.2

/-- The node at a place below one of some nodes. -/
def nodeAmong? (ns : List Node) : Node.Place → Option Node
  | [] => none
  | i :: place => ns[i]?.bind fun n => n.at? place

/-- The places below some nodes, which have numbers of their own. -/
def placesAmong (ns : List Node) : List Node.Place :=
  ns.zipIdx.flatMap fun c => c.1.places.map (c.2 :: ·)

/-- The declarations of a program as nodes. -/
def Program.roots (p : Program) : List Node :=
  p.decls.map .decl

/-- The node at a place in a program. -/
def Program.nodeAt? (p : Program) : Node.Place → Option Node :=
  nodeAmong? p.roots

/-- The places of all nodes of a program. -/
def Program.places (p : Program) : List Node.Place :=
  placesAmong p.roots

/-! ## One step down -/

theorem Node.places_eq (n : Node) : n.places = [] :: placesAmong n.children := by
  have below : n.children.zipIdx = n.children.attach.zipIdx.map (Prod.map Subtype.val id) := by
    rw [← List.zipIdx_map, List.attach_map_subtype_val]
  rw [places, placesAmong, below, List.flatMap_map]
  rfl

theorem Node.at?_cons (n : Node) (i : Nat) (place : Node.Place) :
    n.at? (i :: place) = nodeAmong? n.children (i :: place) := rfl

/-- Below one of some nodes, a place is read as below that node. -/
theorem nodeAmong?_cons {ns : List Node} {n : Node} {i : Nat} (number : (n, i) ∈ ns.zipIdx)
    (place : Node.Place) : nodeAmong? ns (i :: place) = n.at? place := by
  have found : ns[i]? = some n := List.mem_zipIdx_iff_getElem?.1 number
  rw [nodeAmong?, found, Option.bind_some]

theorem cons_mem_placesAmong {ns : List Node} {i : Nat} {place : Node.Place} :
    i :: place ∈ placesAmong ns ↔ ∃ n, (n, i) ∈ ns.zipIdx ∧ place ∈ n.places := by
  rw [placesAmong, List.mem_flatMap]
  constructor
  · rintro ⟨⟨n, i'⟩, number, mem⟩
    obtain ⟨place', below, same⟩ := List.mem_map.1 mem
    obtain ⟨rfl, rfl⟩ := List.cons.inj same
    exact ⟨n, number, below⟩
  · rintro ⟨n, number, below⟩
    exact ⟨(n, i), number, List.mem_map_of_mem below⟩

theorem nil_notMem_placesAmong (ns : List Node) : [] ∉ placesAmong ns := by
  intro mem
  obtain ⟨c, -, mem⟩ := List.mem_flatMap.1 mem
  obtain ⟨place, -, same⟩ := List.mem_map.1 mem
  cases same

/-! ## All places -/

/-- The list `places` has every place at which there is something to read, once and in order,
and what is read there is `nodes`. -/
structure Enumerates (places : List Node.Place) (read : Node.Place → Option Node)
    (nodes : List Node) : Prop where
  ordered : places.Pairwise (· < ·)
  complete : ∀ place, place ∈ places ↔ (read place).isSome = true
  reads : places.map read = nodes.map some

/-- No place comes behind one below it, nor twice. -/
theorem Enumerates.above_first {places : List Node.Place} {read : Node.Place → Option Node}
    {nodes : List Node} (h : Enumerates places read nodes) :
    places.Pairwise fun place later => ¬ later <+: place :=
  h.ordered.imp fun less above => List.not_lt.2 (List.IsPrefix.le above) less

theorem enumerates_among {ns : List Node} (each : ∀ n ∈ ns, Enumerates n.places n.at? n.nodes) :
    Enumerates (placesAmong ns) (nodeAmong? ns) (ns.flatMap Node.nodes) where
  ordered := by
    have numbers : ns.zipIdx.Pairwise fun c d => c.2 < d.2 := by
      have sorted : (ns.zipIdx.map Prod.snd).Pairwise (· < ·) := by
        rw [List.zipIdx_map_snd]
        exact List.pairwise_lt_range'
      exact List.pairwise_map.1 sorted
    refine List.pairwise_flatMap.2 ⟨fun c mem => ?_, numbers.imp fun less => ?_⟩
    · have own := (each c.1 (List.fst_mem_of_mem_zipIdx mem)).ordered
      exact List.pairwise_map.2 (own.imp fun less => List.cons_lt_cons_iff.2 (.inr ⟨rfl, less⟩))
    · refine List.forall_mem_map.2 fun place _ => List.forall_mem_map.2 fun place' _ => ?_
      exact List.cons_lt_cons_iff.2 (.inl less)
  complete := by
    intro place
    cases place with
    | nil => exact iff_of_false (nil_notMem_placesAmong ns) Bool.false_ne_true
    | cons i place =>
        rw [cons_mem_placesAmong]
        constructor
        · rintro ⟨n, number, mem⟩
          rw [nodeAmong?_cons number]
          exact ((each n (List.fst_mem_of_mem_zipIdx number)).complete place).1 mem
        · intro found
          cases hn : ns[i]? with
          | none =>
              rw [nodeAmong?, hn] at found
              cases found
          | some n =>
              have number : (n, i) ∈ ns.zipIdx := List.mem_zipIdx_iff_getElem?.2 hn
              rw [nodeAmong?_cons number] at found
              have listed := each n (List.fst_mem_of_mem_zipIdx number)
              exact ⟨n, number, (listed.complete place).2 found⟩
  reads := by
    have below : ∀ c ∈ ns.zipIdx, (c.1.places.map (c.2 :: ·)).map (nodeAmong? ns) =
        c.1.nodes.map some := by
      intro c number
      rw [← (each c.1 (List.fst_mem_of_mem_zipIdx number)).reads, List.map_map]
      exact List.map_congr_left fun place _ => nodeAmong?_cons number place
    calc (placesAmong ns).map (nodeAmong? ns)
      _ = ns.zipIdx.flatMap fun c => c.1.nodes.map some := by
          rw [placesAmong, List.map_flatMap]
          exact List.flatMap_congr below
      _ = (ns.zipIdx.map Prod.fst).flatMap fun n => n.nodes.map some := by
          rw [List.flatMap_map]
      _ = (ns.flatMap Node.nodes).map some := by
          rw [List.zipIdx_map_fst, List.map_flatMap]

theorem Node.enumerates (n : Node) : Enumerates n.places n.at? n.nodes := by
  induction n using Node.induction with
  | step n ih =>
      have below := enumerates_among ih
      rw [places_eq, nodes_eq]
      constructor
      case ordered =>
        refine List.pairwise_cons.2 ⟨fun place mem => ?_, below.ordered⟩
        cases place with
        | nil => exact absurd mem (nil_notMem_placesAmong _)
        | cons i place => exact List.nil_lt_cons i place
      case complete =>
        intro place
        cases place with
        | nil => exact iff_of_true List.mem_cons_self rfl
        | cons i place =>
            rw [List.mem_cons, or_iff_right (List.cons_ne_nil i place), below.complete]
            rfl
      case reads =>
        rw [List.map_cons, List.map_cons, ← below.reads]
        refine congrArg (some n :: ·) (List.map_congr_left fun place mem => ?_)
        cases place with
        | nil => exact absurd mem (nil_notMem_placesAmong _)
        | cons i place => rfl

/-- The places of a program are listed, with its nodes at them. -/
theorem Program.enumerates (p : Program) : Enumerates p.places p.nodeAt? p.nodes := by
  have below := enumerates_among fun n (_ : n ∈ p.roots) => n.enumerates
  rw [roots, List.flatMap_map] at below
  exact below

end ProcLang
