import Waveform.Expr.Walk
import Waveform.Proofs.Expr.Places

/-!
# What a walk comes past

A walk visits an expression and then, if it enters it, each operand in turn, with the state that the
one before has left (`walk_eq`). What is inside of a part that is not entered is left out, and
nothing else is: the visits are all nodes in order, without those that stand below a visited node
that was not entered (`walk_prunes_and_finds_variables`).

The walk that looks for a variable stops entering once it has found one, and still comes past what
stands beside it. Behind an expression it has found a variable exactly if it had before or if there
is one inside (`walk_seek_iff`).
-/

set_option autoImplicit false

namespace Waveform.Expr

variable {σ : Type} {enter : Expr → Bool} {e : Expr}

/-! ## Steps of a walk -/

theorem walkLinks_eq_foldl (visit : σ → Expr → σ × Bool) (state : σ)
    (links : List (BinaryOp × Expr)) :
    walkLinks visit state links = (links.map (·.2)).foldl (walk visit) state := by
  induction links generalizing state with
  | nil => rfl
  | cons link links ih => exact ih _

/-- **A walk visits an expression, and then its operands in turn if it enters it.** -/
theorem walk_eq (visit : σ → Expr → σ × Bool) (state : σ) (e : Expr) : walk visit state e =
    if (visit state e).2 = true then e.operands.foldl (walk visit) (visit state e).1
    else (visit state e).1 := by
  cases e with
  | neg operand =>
    rw [walk]
    rcases visit state (.neg operand) with ⟨next, _ | _⟩ <;> rfl
  | run head links =>
    rw [walk]
    rcases visit state (.run head links) with ⟨next, _ | _⟩
    · rfl
    · exact walkLinks_eq_foldl visit _ links
  | call function argument =>
    rw [walk]
    rcases visit state (.call function argument) with ⟨next, _ | _⟩ <;> rfl
  | _ => exact (ite_self _).symm

/-! ## Nodes that are reached -/

/-- Whether all parts that the way to a place leads through are entered. -/
def isReached (enter : Expr → Bool) : Expr → List ℕ → Bool
  | _, [] => true
  | e, index :: place => enter e && e.operands[index]?.any (isReached enter · place)

/-- The nodes that a walk comes past if it enters those parts that `enter` accepts. -/
def reached (enter : Expr → Bool) (e : Expr) : List Node :=
  (nodes e).filter fun node => isReached enter e node.place

theorem isReached_nil : isReached enter e [] = true := rfl

theorem isReached_cons_iff {index : ℕ} {place : List ℕ} :
    isReached enter e (index :: place) = true ↔ enter e = true ∧
      ∃ operand, e.operands[index]? = some operand ∧ isReached enter operand place = true := by
  rw [isReached, Bool.and_eq_true, Option.any_eq_true]

/-- All parts above a node that is reached are entered. -/
theorem enter_of_isReached {place above : List ℕ} {part : Expr}
    (arrives : isReached enter e place = true) (stands : e.at? above = some part)
    (leads : above <+: place) (strict : above ≠ place) :
    enter part = true := by
  induction place generalizing e above with
  | nil => exact absurd (List.prefix_nil.mp leads) strict
  | cons index place ih =>
    obtain ⟨entered, operand, indexed, inside⟩ := isReached_cons_iff.mp arrives
    cases above with
    | nil =>
      cases stands
      exact entered
    | cons first above =>
      obtain ⟨rfl, leads'⟩ := List.cons_prefix_cons.mp leads
      obtain ⟨operand', indexed', stands'⟩ := at?_cons_eq_some_iff.mp stands
      cases indexed.symm.trans indexed'
      exact ih inside stands' leads' fun same => strict (same ▸ rfl)

/-- A node is reached if all reached parts above it are entered: the first part on the way that is
not entered would be reached. -/
theorem isReached_of_entered {place : List ℕ} {part : Expr} (stands : e.at? place = some part)
    (entered : ∀ above part, e.at? above = some part → above <+: place → above ≠ place →
      isReached enter e above = true → enter part = true) : isReached enter e place = true := by
  induction place generalizing e with
  | nil => rfl
  | cons index place ih =>
    have outermost : enter e = true :=
      entered [] e rfl List.nil_prefix (List.cons_ne_nil _ _).symm rfl
    obtain ⟨operand, indexed, stands⟩ := at?_cons_eq_some_iff.mp stands
    refine isReached_cons_iff.mpr ⟨outermost, operand, indexed, ih stands ?_⟩
    intro above part stands leads strict arrives
    refine entered (index :: above) part (at?_cons_eq_some_iff.mpr ⟨operand, indexed, stands⟩)
      (List.cons_prefix_cons.mpr ⟨rfl, leads⟩) (fun same => strict (List.cons.inj same).2) ?_
    exact isReached_cons_iff.mpr ⟨outermost, operand, indexed, arrives⟩

/-- Whether nodes are what is visited of an expression: in their order, all nodes but those below a
visited one that is not entered. -/
structure IsPruned (enter : Expr → Bool) (e : Expr) (visited : List Node) : Prop where
  sublist : visited.Sublist (nodes e)
  mem_iff : ∀ node ∈ nodes e, node ∈ visited ↔
    ∀ above ∈ visited, above.IsAbove node → enter above.part = true

/-- **A node is passed over exactly if it stands below a reached one that is not entered.** -/
theorem mem_reached_iff {node : Node} (member : node ∈ nodes e) : node ∈ reached enter e ↔
    ∀ above ∈ reached enter e, above.IsAbove node → enter above.part = true := by
  rw [reached, List.mem_filter, and_iff_right member]
  constructor
  · intro arrives above member' isAbove
    have stands := mem_nodes_iff.mp (List.mem_filter.mp member').1
    exact enter_of_isReached arrives stands isAbove.1 isAbove.2
  · intro entered
    refine isReached_of_entered (mem_nodes_iff.mp member)
      fun above part stands leads strict arrives => ?_
    have member' : ⟨above, part⟩ ∈ reached enter e :=
      List.mem_filter.mpr ⟨mem_nodes_iff.mpr stands, arrives⟩
    exact entered ⟨above, part⟩ member' ⟨leads, strict⟩

theorem isPruned_reached (enter : Expr → Bool) (e : Expr) : IsPruned enter e (reached enter e) :=
  ⟨List.filter_sublist, fun _ => mem_reached_iff⟩

/-- If everything is entered, everything is reached. -/
theorem reached_of_all (e : Expr) : reached (fun _ => true) e = nodes e := by
  refine List.filter_eq_self.mpr fun node member => ?_
  exact isReached_of_entered (mem_nodes_iff.mp member) fun _ _ _ _ _ _ => rfl

/-- The nodes of an operand are reached as they are in it, if the expression is entered. -/
theorem filter_map_below {operand : Expr} {index : ℕ}
    (indexed : e.operands[index]? = some operand) :
    ((nodes operand).map (Node.below index)).filter (fun node => isReached enter e node.place) =
      if enter e = true then (reached enter operand).map (Node.below index) else [] := by
  have inside (node : Node) : isReached enter e (node.below index).place =
      (enter e && isReached enter operand node.place) := by
    rw [Node.place_below, isReached, indexed, Option.any_some]
  rw [List.filter_map, Function.comp_def]
  simp only [inside]
  cases enter e with
  | true => rfl
  | false => simp

/-- **The nodes that are reached** are the expression and, if it is entered, those of its operands
in turn. -/
theorem reached_eq (enter : Expr → Bool) (e : Expr) : reached enter e =
    ⟨[], e⟩ ::
      if enter e = true then
        e.operands.zipIdx.flatMap fun indexed => (reached enter indexed.1).map (.below indexed.2)
      else [] := by
  have inside : ∀ indexed ∈ e.operands.zipIdx,
      ((nodes indexed.1).map (Node.below indexed.2)).filter
          (fun node => isReached enter e node.place) =
        if enter e = true then (reached enter indexed.1).map (Node.below indexed.2) else [] :=
    fun indexed member => filter_map_below (List.mem_zipIdx_iff_getElem?.mp member)
  rw [reached, nodes_eq, List.filter_cons, if_pos isReached_nil, List.filter_flatMap,
    List.flatMap_congr inside]
  cases enter e with
  | true => rfl
  | false => simp

theorem map_part_reached (enter : Expr → Bool) (e : Expr) : (reached enter e).map Node.part =
    e :: if enter e = true then
      e.operands.flatMap fun operand => (reached enter operand).map Node.part else [] := by
  rw [reached_eq, List.map_cons, apply_ite (List.map Node.part), map_part_flatMap_below,
    List.map_nil]

/-! ## Visits -/

/-- The visitor that notes what it comes past. -/
def record (enter : Expr → Bool) (parts : Array Expr) (part : Expr) : Array Expr × Bool :=
  (parts.push part, enter part)

/-- Steps that each append something append it in turn. -/
theorem toList_foldl_of_appends {α β : Type} {step : Array α → β → Array α}
    {added : β → List α} {items : List β}
    (appends : ∀ item ∈ items, ∀ all, (step all item).toList = all.toList ++ added item)
    (all : Array α) : (items.foldl step all).toList = all.toList ++ items.flatMap added := by
  induction items generalizing all with
  | nil => simp
  | cons item items ih =>
    obtain ⟨first, others⟩ := List.forall_mem_cons.mp appends
    rw [List.foldl_cons, ih others, first, List.flatMap_cons, List.append_assoc]

/-- **A walk notes the parts of the nodes that are reached**, behind what is noted before. -/
theorem toList_walk_record (parts : Array Expr) (e : Expr) :
    (walk (record enter) parts e).toList = parts.toList ++ (reached enter e).map Node.part := by
  induction e using inductionOnOperands generalizing parts with
  | step e ih =>
    rw [walk_eq, map_part_reached]
    cases entered : enter e with
    | false => simp [record, entered]
    | true =>
      have inside := toList_foldl_of_appends ih (parts.push e)
      simpa [record, entered] using inside

theorem toList_visits (enter : Expr → Bool) (e : Expr) :
    (visits enter e).toList = (reached enter e).map Node.part :=
  toList_walk_record #[] e

/-! ## Variables -/

/-- The visitor that looks for a variable. -/
def seek (found : Bool) : Expr → Bool × Bool
  | .variable _ => (true, false)
  | _ => (found, !found)

theorem isConstant_eq (e : Expr) : e.isConstant = !walk seek false e := rfl

/-- Steps that each look for something find it somewhere. -/
theorem foldl_eq_true_iff {α : Type} {step : Bool → α → Bool} {holds : α → Prop}
    {items : List α}
    (finds : ∀ item ∈ items, ∀ found, step found item = true ↔ found = true ∨ holds item)
    (found : Bool) :
    items.foldl step found = true ↔ found = true ∨ ∃ item ∈ items, holds item := by
  induction items generalizing found with
  | nil => simp
  | cons item items ih =>
    obtain ⟨first, others⟩ := List.forall_mem_cons.mp finds
    rw [List.foldl_cons, ih others, first, or_assoc, List.exists_mem_cons_iff]

/-- What is no variable is entered as long as none was found. -/
theorem seek_of_ne (found : Bool) (other : ∀ name, e ≠ .variable name) :
    seek found e = (found, !found) := by
  cases e with
  | «variable» name => exact absurd rfl (other name)
  | _ => rfl

/-- A variable inside of what is no variable is inside of an operand. -/
theorem exists_isPart_variable_iff (other : ∀ name, e ≠ .variable name) :
    (∃ name, IsPart (.variable name) e) ↔
      ∃ operand ∈ e.operands, ∃ name, IsPart (.variable name) operand := by
  constructor
  · rintro ⟨name, part⟩
    rcases isPart_iff.mp part with same | ⟨operand, member, part⟩
    · exact absurd same.symm (other name)
    · exact ⟨operand, member, name, part⟩
  · rintro ⟨operand, member, name, part⟩
    exact ⟨name, isPart_iff.mpr (.inr ⟨operand, member, part⟩)⟩

/-- **A walk finds the variables inside**, and forgets none that was found before. -/
theorem walk_seek_iff (found : Bool) (e : Expr) :
    walk seek found e = true ↔ found = true ∨ ∃ name, IsPart (.variable name) e := by
  induction e using inductionOnOperands generalizing found with
  | step e ih =>
    rw [walk_eq]
    by_cases isVariable : ∃ name, e = .variable name
    · obtain ⟨name, rfl⟩ := isVariable
      exact iff_of_true rfl (.inr ⟨name, .itself⟩)
    · have other (name : Char) : e ≠ .variable name := fun same => isVariable ⟨name, same⟩
      rw [seek_of_ne found other, exists_isPart_variable_iff other]
      cases found with
      | true => exact iff_of_true rfl (.inl rfl)
      | false => exact foldl_eq_true_iff ih false

/-- **An expression counts as constant exactly if no variable is a part of it.** -/
theorem isConstant_iff : e.isConstant = true ↔ ∀ name, ¬ IsPart (.variable name) e := by
  rw [isConstant_eq, Bool.not_eq_true', Bool.eq_false_iff, ne_eq, walk_seek_iff,
    or_iff_right Bool.false_ne_true, not_exists]

/-- What has no variable inside has the same value everywhere. -/
theorem eval_eq_of_not_isPart (absent : ∀ name, ¬ IsPart (.variable name) e) (x y : Float) :
    e.eval x = e.eval y := by
  induction e using inductionOnOperands with
  | step e ih =>
    have inside (operand : Expr) (member : operand ∈ e.operands) :
        operand.eval x = operand.eval y :=
      ih operand member fun name part =>
        absent name (isPart_iff.mpr (.inr ⟨operand, member, part⟩))
    cases e with
    | number value => rfl
    | «variable» name => exact absurd .itself (absent name)
    | neg operand => rw [eval, eval, inside operand (List.mem_singleton_self _)]
    | run head links =>
      rw [eval, eval, inside head List.mem_cons_self, evalLinks_eq_foldl, evalLinks_eq_foldl]
      refine List.foldl_ext _ _ _ fun value link member => ?_
      rw [inside link.2 (List.mem_cons_of_mem _ (List.mem_map_of_mem member))]
    | call function argument => rw [eval, eval, inside argument (List.mem_singleton_self _)]

/-! ## Walks -/

/-- **What is not entered prunes a walk, and variables are found.** The nodes of an expression are
what stands at some place, in the lexicographic order of the places, and a walk that enters
everything comes past their parts in this order. Whatever parts are entered, such as all but the
calls of some functions, a walk comes past the same parts without those below a visited one that is
not entered. An expression counts as constant exactly if no variable is a part of it, and then it
has the same value everywhere. -/
theorem walk_prunes_and_finds_variables (e : Expr) :
    IsPreorder e (nodes e) ∧
      (visits (fun _ => true) e).toList = (nodes e).map Node.part ∧
      (∀ enter, IsPruned enter e (reached enter e) ∧
        (visits enter e).toList = (reached enter e).map Node.part) ∧
      (e.isConstant = true ↔ ∀ name, ¬ IsPart (.variable name) e) ∧
      (e.isConstant = true → ∀ x y, e.eval x = e.eval y) := by
  refine ⟨isPreorder_nodes e, ?_,
    fun enter => ⟨isPruned_reached enter e, toList_visits enter e⟩, isConstant_iff,
    fun constant => eval_eq_of_not_isPart (isConstant_iff.mp constant)⟩
  rw [toList_visits, reached_of_all]

/-- A quotient that is infinite everywhere. -/
theorem walk_prunes_and_finds_variables_quotient :
    (binary (.number 1) .div (.call .abs (.neg (.number 0)))).isConstant = true ∧
      ∀ x y, (binary (.number 1) .div (.call .abs (.neg (.number 0)))).eval x =
        (binary (.number 1) .div (.call .abs (.neg (.number 0)))).eval y := by
  have constant : (binary (.number 1) .div (.call .abs (.neg (.number 0)))).isConstant = true := by
    decide
  obtain ⟨_, _, _, _, same⟩ :=
    walk_prunes_and_finds_variables (binary (.number 1) .div (.call .abs (.neg (.number 0))))
  exact ⟨constant, same constant⟩

/-- Of `-f+abs(t)`, the variable of the call is left out if calls are not entered. -/
example : ((binary (.neg (.variable 'f')) .add (.call .abs (.variable 't'))).visits fun part =>
    match part with
    | .call .. => false
    | _ => true).size = 4 := by decide

end Waveform.Expr
