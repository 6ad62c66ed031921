import Mathlib.Data.List.Basic
import Waveform.Proofs.Expr.Flat

/-!
# Places in an expression

The place of a part tells the way to it from the outside: at each step, which operand is gone into.
One part can stand at many places, and a part is above another one if the way to the other goes on
from it.

The nodes of an expression are its parts with their places, a part before what it is made of, and
operands from the left to the right (`nodes`). They are what stands at some place, in the
lexicographic order of the places (`isPreorder_nodes`).

A head and links are operands as well as the one of a sign or of a call. So expressions have one
rule for all their parts, and one induction (`inductionOnOperands`).
-/

set_option autoImplicit false

namespace Waveform.Expr

/-! ## Operands -/

/-- What an expression is made of, from the left to the right. -/
def operands : Expr → List Expr
  | .number _ | .variable _ => []
  | .neg operand => [operand]
  | .run head links => head :: links.map (·.2)
  | .call _ argument => [argument]

mutual

/-- What holds of an expression if it holds of its operands holds of all expressions. -/
@[elab_as_elim]
theorem inductionOnOperands {motive : Expr → Prop}
    (step : ∀ e : Expr, (∀ operand ∈ e.operands, motive operand) → motive e) : ∀ e : Expr, motive e
  | .number _ => step _ nofun
  | .variable _ => step _ nofun
  | .neg operand => step _ (List.forall_mem_singleton.mpr (inductionOnOperands step operand))
  | .run head links =>
    step _ (List.forall_mem_cons.mpr ⟨inductionOnOperands step head, inductionOnLinks step links⟩)
  | .call _ argument => step _ (List.forall_mem_singleton.mpr (inductionOnOperands step argument))

theorem inductionOnLinks {motive : Expr → Prop}
    (step : ∀ e : Expr, (∀ operand ∈ e.operands, motive operand) → motive e) :
    ∀ links : List (BinaryOp × Expr), ∀ operand ∈ links.map (·.2), motive operand
  | [] => nofun
  | (_, operand) :: links =>
    List.forall_mem_cons.mpr ⟨inductionOnOperands step operand, inductionOnLinks step links⟩

end

/-- A part of an expression is the expression itself, or a part of an operand. -/
theorem isPart_iff {part e : Expr} :
    IsPart part e ↔ part = e ∨ ∃ operand ∈ e.operands, IsPart part operand := by
  constructor
  · intro inside
    cases inside with
    | itself => exact .inl rfl
    | operand inside => exact .inr ⟨_, List.mem_singleton_self _, inside⟩
    | head inside => exact .inr ⟨_, List.mem_cons_self, inside⟩
    | link member inside =>
      exact .inr ⟨_, List.mem_cons_of_mem _ (List.mem_map_of_mem member), inside⟩
    | argument inside => exact .inr ⟨_, List.mem_singleton_self _, inside⟩
  · rintro (rfl | ⟨operand, member, inside⟩)
    · exact .itself
    · cases e with
      | neg inner =>
        cases List.mem_singleton.mp member
        exact .operand inside
      | run head links =>
        rcases List.mem_cons.mp member with rfl | member
        · exact .head inside
        · obtain ⟨link, member', rfl⟩ := List.mem_map.mp member
          exact .link member' inside
      | call function argument =>
        cases List.mem_singleton.mp member
        exact .argument inside
      | _ => cases member

/-! ## Nodes -/

/-- A part of an expression at its place. -/
structure Node where
  /-- Which operand is gone into at each step from the outside. -/
  place : List ℕ
  part : Expr

namespace Node

/-- The node of an operand as a node of the expression that has the operand at an index. -/
def below (index : ℕ) (node : Node) : Node :=
  ⟨index :: node.place, node.part⟩

@[simp]
theorem place_below (index : ℕ) (node : Node) : (node.below index).place = index :: node.place :=
  rfl

@[simp]
theorem part_below (index : ℕ) (node : Node) : (node.below index).part = node.part := rfl

/-- Whether the way to a node leads through another one, which it goes on from. -/
def IsAbove (above node : Node) : Prop :=
  above.place <+: node.place ∧ above.place ≠ node.place

end Node

mutual

/-- The nodes of an expression: a part before what it is made of, from the left to the right. -/
def nodes : Expr → List Node
  | .number value => [⟨[], .number value⟩]
  | .variable name => [⟨[], .variable name⟩]
  | .neg operand => ⟨[], .neg operand⟩ :: (nodes operand).map (.below 0)
  | .run head links => ⟨[], .run head links⟩ :: ((nodes head).map (.below 0) ++ linksNodes 1 links)
  | .call function argument => ⟨[], .call function argument⟩ :: (nodes argument).map (.below 0)

/-- The nodes of the operands of links, of which the first has the given index. -/
def linksNodes (index : ℕ) : List (BinaryOp × Expr) → List Node
  | [] => []
  | (_, operand) :: links => (nodes operand).map (.below index) ++ linksNodes (index + 1) links

end

theorem linksNodes_eq (index : ℕ) (links : List (BinaryOp × Expr)) :
    linksNodes index links = ((links.map (·.2)).zipIdx index).flatMap fun indexed =>
      (nodes indexed.1).map (.below indexed.2) := by
  induction links generalizing index with
  | nil => rfl
  | cons link links ih =>
    rw [linksNodes, ih, List.map_cons, List.zipIdx_cons, List.flatMap_cons]

/-- **The nodes are the expression and those of its operands in turn.** -/
theorem nodes_eq (e : Expr) : nodes e = ⟨[], e⟩ :: e.operands.zipIdx.flatMap fun indexed =>
    (nodes indexed.1).map (.below indexed.2) := by
  cases e with
  | neg | call => simp [nodes, operands]
  | run => rw [nodes, linksNodes_eq, operands, List.zipIdx_cons, List.flatMap_cons]
  | _ => rfl

/-! ## Places -/

/-- The part at a place, if there is one. -/
def at? : Expr → List ℕ → Option Expr
  | e, [] => some e
  | e, index :: place => e.operands[index]?.bind (at? · place)

theorem at?_cons_eq_some_iff {e part : Expr} {index : ℕ} {place : List ℕ} :
    e.at? (index :: place) = some part ↔
      ∃ operand, e.operands[index]? = some operand ∧ operand.at? place = some part :=
  Option.bind_eq_some_iff

/-- Whether a list is that of the nodes of an expression in pre-order: what stands at some place, in
the lexicographic order of the places. -/
structure IsPreorder (e : Expr) (nodes : List Node) : Prop where
  mem_iff : ∀ node, node ∈ nodes ↔ e.at? node.place = some node.part
  ordered : nodes.Pairwise fun first second => first.place < second.place

/-- **The nodes are what stands at some place.** -/
theorem mem_nodes_iff {e : Expr} {node : Node} :
    node ∈ nodes e ↔ e.at? node.place = some node.part := by
  induction e using inductionOnOperands generalizing node with
  | step e ih =>
    obtain ⟨place, part⟩ := node
    rw [nodes_eq, List.mem_cons, List.mem_flatMap]
    cases place with
    | nil =>
      have outside : ¬ ∃ indexed ∈ e.operands.zipIdx,
          (⟨[], part⟩ : Node) ∈ (nodes indexed.1).map (.below indexed.2) := by
        rintro ⟨indexed, _, inside⟩
        obtain ⟨inner, _, same⟩ := List.mem_map.mp inside
        cases same
      rw [or_iff_left outside, at?, Option.some_inj, Node.mk.injEq, and_iff_right rfl, eq_comm]
    | cons index place =>
      rw [or_iff_right (by simp), at?_cons_eq_some_iff]
      constructor
      · rintro ⟨⟨operand, index⟩, indexed, inside⟩
        obtain ⟨inner, member, same⟩ := List.mem_map.mp inside
        cases same
        have indexed := List.mem_zipIdx_iff_getElem?.mp indexed
        exact ⟨operand, indexed, (ih operand (List.mem_of_getElem? indexed)).mp member⟩
      · rintro ⟨operand, indexed, inside⟩
        have member : ⟨place, part⟩ ∈ nodes operand :=
          (ih operand (List.mem_of_getElem? indexed)).mpr inside
        exact ⟨(operand, index), List.mem_zipIdx_iff_getElem?.mpr indexed,
          List.mem_map_of_mem member⟩

/-- The operands have increasing indices. -/
theorem ordered_zipIdx (operands : List Expr) :
    operands.zipIdx.Pairwise fun first second => first.2 < second.2 := by
  have indices := List.zipIdx_map_snd 0 operands ▸ List.pairwise_lt_range' 1
  exact List.pairwise_map.mp indices

/-- **The nodes are in the lexicographic order of their places.** -/
theorem ordered_nodes (e : Expr) :
    (nodes e).Pairwise fun first second => first.place < second.place := by
  induction e using inductionOnOperands with
  | step e ih =>
    rw [nodes_eq, List.pairwise_cons, List.pairwise_flatMap]
    refine ⟨?outermost, ?within, ?between⟩
    case outermost =>
      intro node inside
      obtain ⟨indexed, _, inside⟩ := List.mem_flatMap.mp inside
      obtain ⟨inner, _, rfl⟩ := List.mem_map.mp inside
      exact List.nil_lt_cons _ _
    case within =>
      intro indexed member
      have member := List.mem_of_getElem? (List.mem_zipIdx_iff_getElem?.mp member)
      refine List.pairwise_map.mpr ((ih indexed.1 member).imp fun less => ?_)
      exact List.cons_lt_cons_iff.mpr (.inr ⟨rfl, less⟩)
    case between =>
      refine (ordered_zipIdx e.operands).imp fun less node inside node' inside' => ?_
      obtain ⟨inner, _, rfl⟩ := List.mem_map.mp inside
      obtain ⟨inner', _, rfl⟩ := List.mem_map.mp inside'
      exact List.cons_lt_cons_iff.mpr (.inl less)

theorem isPreorder_nodes (e : Expr) : IsPreorder e (nodes e) :=
  ⟨fun _ => mem_nodes_iff, ordered_nodes e⟩

/-! ## Parts in order -/

/-- Without their places, the nodes of operands are those of each operand in turn. -/
theorem map_part_flatMap_below (operands : List Expr) (nodes : Expr → List Node) :
    (operands.zipIdx.flatMap fun indexed =>
        (nodes indexed.1).map (.below indexed.2)).map Node.part =
      operands.flatMap fun operand => (nodes operand).map Node.part := by
  rw [List.map_flatMap]
  conv_rhs => rw [← List.zipIdx_map_fst 0 operands, List.flatMap_map]
  simp only [List.map_map]
  rfl

end Waveform.Expr
