import Waveform.Proofs.Formula.Limits

/-!
# What a reading returns is bounded by the limits

However long a text is, the expression that it is read as is no higher than three times the
depth allows, has no more nodes than may be read, and leaves about two findings for each of
them (`parse_bounded`).

All three bounds come from one invariant of the readers (`IsBounded`). Nodes of the
expression are paid for by nodes that the cursor can spare. A node that is charged also pays
for two findings, since an operand leaves no more than that: that its parenthesis is not
closed, and that its name means nothing. A level adds three to the height, for a sum, a
product and a call.
-/

set_option autoImplicit false

namespace Waveform.Formula

/-! ## Findings that are paid for -/

namespace Cursor

/-- The findings that there are and those that the nodes to spare pay for. -/
def allowance (cursor : Cursor) : Nat :=
  cursor.findings.size + 2 * cursor.spare

variable (cursor : Cursor)

@[simp]
theorem spare_skip : cursor.skip.spare = cursor.spare := by
  unfold skip
  split <;> rfl

@[simp]
theorem allowance_skip : cursor.skip.allowance = cursor.allowance := by
  unfold skip
  split <;> rfl

@[simp]
theorem allowance_note (finding : Diagnostic) :
    (cursor.note finding).allowance = cursor.allowance + 1 := by
  simp only [allowance, note, Array.size_push]
  omega

@[simp]
theorem spare_close : cursor.close.spare = cursor.spare := by
  unfold close
  split
  · exact cursor.spare_skip
  · rfl

/-- Closing a parenthesis leaves at most one finding. -/
theorem allowance_close_le : cursor.close.allowance ≤ cursor.allowance + 1 := by
  unfold close
  split
  · rw [allowance_skip]
    omega
  · rw [allowance_note]

end Cursor

/-! ## Bounded outcomes -/

/-- Whether a result is good or, if the reading was abandoned, its findings are at most as
many as given. -/
def Outcome.Ends {α : Type} (good : α → Prop) (most : Nat) : Outcome α → Prop
  | .ok result => good result
  | .error findings => findings.size ≤ most

theorem Outcome.Ends.bind {α β : Type} {good : α → Prop} {good' : β → Prop} {few most : Nat}
    {outcome : Outcome α} {next : α → Outcome β} (first : Outcome.Ends good few outcome)
    (le : few ≤ most) (second : ∀ result, good result → Outcome.Ends good' most (next result)) :
    Outcome.Ends good' most (outcome >>= next) := by
  cases outcome with
  | ok result => exact second result first
  | error findings => exact Nat.le_trans first le

theorem Outcome.Ends.mono {α : Type} {good good' : α → Prop} {few most : Nat}
    {outcome : Outcome α} (ends : Outcome.Ends good few outcome) (le : few ≤ most)
    (implies : ∀ result, good result → good' result) : Outcome.Ends good' most outcome := by
  cases outcome with
  | ok result => exact implies result ends
  | error findings => exact Nat.le_trans ends le

/-- Whether an expression is low enough and its nodes are paid for, and so are the findings
at the cursor behind it. -/
structure Paid (height nodes allowance : Nat) (result : Expr × Cursor) : Prop where
  height : result.1.depth ≤ height
  nodes : result.1.nodeCount + result.2.spare ≤ nodes
  allowance : result.2.allowance ≤ allowance

/-- Whether what a reader reads is at most of the given height and paid for by the cursor. An
abandoned reading has one finding besides, the fatal one. -/
def IsBounded (height : Nat) (read : Reader) : Prop :=
  ∀ cursor, Outcome.Ends (Paid height cursor.spare cursor.allowance) (cursor.allowance + 1)
    (read cursor)

/-! ## Chains -/

section Chains

variable {limits : Limits} {operator? : Char → Option BinaryOp} {read : Reader} {height : Nat}

/-- Charging a node sets two findings free. -/
theorem ends_charge (limits : Limits) (cursor : Cursor) :
    Outcome.Ends (fun charged => charged.spare + 1 = cursor.spare ∧
      charged.allowance + 2 = cursor.allowance) (cursor.allowance + 1) (cursor.charge limits) := by
  cases left : cursor.spare with
  | zero =>
    rw [Cursor.charge_of_spare_eq_zero left]
    simp only [Outcome.Ends, Array.size_push, Cursor.allowance]
    omega
  | succ spare =>
    rw [Cursor.charge_of_spare_eq_succ left]
    simp only [Outcome.Ends, Cursor.allowance, left, true_and]
    omega

/-- Links are paid for as their operands are. -/
theorem ends_readLinks (bounded : IsBounded height read) (budget : Nat) (cursor : Cursor) :
    Outcome.Ends (fun result => Expr.linksDepth result.1 ≤ height ∧
        Expr.linksNodeCount result.1 + result.2.spare ≤ cursor.spare ∧
        result.2.allowance ≤ cursor.allowance) (cursor.allowance + 1)
      (readLinks limits operator? read budget cursor) := by
  induction budget generalizing cursor with
  | zero =>
    unfold readLinks
    split
    · simp [Outcome.Ends, Expr.linksDepth, Expr.linksNodeCount]
    · simp only [Outcome.Ends, Array.size_push, Cursor.allowance]
      omega
  | succ budget ih =>
    unfold readLinks
    split
    · simp [Outcome.Ends, Expr.linksDepth, Expr.linksNodeCount]
    · refine (ends_charge limits cursor).bind (Nat.le_refl _) ?_
      rintro charged ⟨spare, allowance⟩
      have first := bounded charged.skip
      rw [Cursor.spare_skip, Cursor.allowance_skip] at first
      refine first.bind (by omega) ?_
      rintro ⟨operand, behind⟩ ⟨low, nodes, findings⟩
      dsimp only at low nodes findings
      refine (ih behind).bind (by omega) ?_
      rintro ⟨links, last⟩ ⟨low', nodes', findings'⟩
      dsimp only at low' nodes' findings'
      refine ⟨?_, ?_, ?_⟩ <;> simp only [Expr.linksDepth, Expr.linksNodeCount] <;> omega

/-- A chain is at most one higher than its operands. -/
theorem IsBounded.readChain (bounded : IsBounded height read) :
    IsBounded (height + 1) (readChain limits operator? read) := by
  intro cursor
  refine (bounded cursor).bind (Nat.le_refl _) ?_
  rintro ⟨head, behind⟩ ⟨low, nodes, findings⟩
  dsimp only at low nodes findings
  refine (ends_readLinks bounded behind.spare behind).bind (by omega) ?_
  rintro ⟨links, last⟩ ⟨low', nodes', findings'⟩
  dsimp only at low' nodes' findings'
  have higher := Expr.depth_chain_le head links
  refine ⟨?_, ?_, ?_⟩ <;> dsimp only
  · omega
  · rw [Expr.nodeCount_chain]
    omega
  · omega

theorem IsBounded.readSum (bounded : IsBounded height read) :
    IsBounded (height + 2) (readSum limits read) :=
  bounded.readChain.readChain

/-- A group is paid for as its sum is, and leaves one finding more if it is not closed. -/
theorem IsBounded.ends_readGroup (bounded : IsBounded height read) (cursor : Cursor) :
    Outcome.Ends (Paid (height + 2) cursor.spare (cursor.allowance + 1)) (cursor.allowance + 1)
      (readGroup limits read cursor) := by
  have sum : Outcome.Ends _ _ (Formula.readSum limits read cursor.skip) :=
    bounded.readSum cursor.skip
  rw [Cursor.spare_skip, Cursor.allowance_skip] at sum
  refine sum.bind (Nat.le_refl _) ?_
  rintro ⟨inner, behind⟩ ⟨low, nodes, findings⟩
  have closed := behind.allowance_close_le
  refine ⟨low, ?_, ?_⟩ <;> dsimp only at nodes findings ⊢
  · rwa [Cursor.spare_close]
  · omega

end Chains

/-! ## Operands -/

section Operands

variable {limits : Limits} {deeper : Option Reader} {height : Nat}

/-- Whether an operand is at most of the given height when what is inside of it is read by
`deeper`, where that is not missing. A sum in a call is three lower. -/
structure Encloses (height : Nat) (deeper : Option Reader) : Prop where
  positive : 0 < height
  inside : ∀ read ∈ deeper, ∃ inner, IsBounded inner read ∧ inner + 3 ≤ height

/-- Whether an outcome is that of an operand whose node was charged before `cursor`. The node
pays for one node of the expression and for two findings. -/
def EndsCharged (height : Nat) (cursor : Cursor) (outcome : Outcome (Expr × Cursor)) : Prop :=
  Outcome.Ends (Paid height (cursor.spare + 1) (cursor.allowance + 2)) (cursor.allowance + 3)
    outcome

/-- An operand with nothing inside is paid for, if it leaves at most one finding. -/
theorem endsCharged_leaf {cursor behind : Cursor} {e : Expr} (positive : 0 < height)
    (single : e.depth = 1 ∧ e.nodeCount = 1) (spare : behind.spare = cursor.spare)
    (allowance : behind.allowance ≤ cursor.allowance + 1) :
    EndsCharged height cursor (.ok (e, behind)) := by
  obtain ⟨depth, nodes⟩ := single
  refine ⟨?_, ?_, ?_⟩ <;> dsimp only <;> omega

theorem endsCharged_tooDeep (height : Nat) (cursor : Cursor) :
    EndsCharged height cursor (.error (cursor.tooDeep limits)) := by
  simp only [EndsCharged, Outcome.Ends, Cursor.tooDeep, Array.size_push, Cursor.allowance]
  omega

section Calls

variable {cursor behind : Cursor} {argument : Expr} {inner : Nat}

/-- A call is paid for by its node and by its argument. -/
theorem endsCharged_call
    (paid : Paid (inner + 2) cursor.spare (cursor.allowance + 1) (argument, behind))
    (low : inner + 3 ≤ height) (function : Builtin) :
    EndsCharged height cursor (.ok (.call function argument, behind)) := by
  obtain ⟨depth, nodes, findings⟩ := paid
  dsimp only at depth nodes findings
  refine ⟨?_, ?_, ?_⟩ <;> simp only [Expr.depth, Expr.nodeCount] <;> omega

/-- If its name means nothing, the argument is paid for although it is not in the expression. -/
theorem endsCharged_dropped
    (paid : Paid (inner + 2) cursor.spare (cursor.allowance + 1) (argument, behind))
    (positive : 0 < height) (unknown : Diagnostic) :
    EndsCharged height cursor (.ok (.zero, behind.note unknown)) := by
  obtain ⟨_, nodes, findings⟩ := paid
  dsimp only at nodes findings
  refine ⟨positive, ?_, ?_⟩
  · change 1 + behind.spare ≤ cursor.spare + 1
    omega
  · rw [Cursor.allowance_note]
    omega

end Calls

/-- What a name stands for is paid for, the finding that it means nothing included. -/
theorem endsCharged_readName (encloses : Encloses height deeper) (cursor : Cursor) :
    EndsCharged height cursor (readName limits deeper cursor) := by
  obtain ⟨positive, inside⟩ := encloses
  have leaf {e : Expr} {behind : Cursor} (single : e.depth = 1 ∧ e.nodeCount = 1)
      (spare : behind.spare = cursor.spare) (allowance : behind.allowance ≤ cursor.allowance + 1) :
      EndsCharged height cursor (.ok (e, behind)) :=
    endsCharged_leaf positive single spare allowance
  have free : (cursor.takeWhile Char.isLower).2.allowance ≤ cursor.allowance + 1 :=
    Nat.le_add_right _ _
  have noted (finding : Diagnostic) :
      ((cursor.takeWhile Char.isLower).2.note finding).allowance ≤ cursor.allowance + 1 :=
    Nat.le_of_eq (Cursor.allowance_note _ finding)
  unfold readName
  dsimp only
  split
  · exact leaf ⟨rfl, rfl⟩ rfl free
  · exact leaf ⟨rfl, rfl⟩ rfl free
  · exact leaf ⟨rfl, rfl⟩ rfl free
  · split
    · cases deeper with
      | none => exact endsCharged_tooDeep height (cursor.takeWhile Char.isLower).2
      | some read =>
        obtain ⟨inner, bounded, low⟩ := inside read rfl
        have group : Outcome.Ends (Paid (inner + 2) cursor.spare (cursor.allowance + 1))
            (cursor.allowance + 1)
            (readGroup limits read (cursor.takeWhile Char.isLower).2) :=
          bounded.ends_readGroup _
        dsimp only
        -- the group of a function, then that behind a name that means nothing; each may be
        -- abandoned
        split
        · next outcome =>
          rw [outcome] at group
          exact endsCharged_call group low _
        · next outcome =>
          rw [outcome] at group
          exact Nat.le_trans group (Nat.le_add_right _ 2)
        · next outcome =>
          rw [outcome] at group
          exact endsCharged_dropped group positive _
        · next outcome =>
          rw [outcome] at group
          simp only [EndsCharged, Outcome.Ends, Array.size_push] at group ⊢
          omega
    · exact leaf ⟨rfl, rfl⟩ rfl (noted _)
    · exact leaf ⟨rfl, rfl⟩ rfl (noted _)

theorem endsCharged_readNegation (encloses : Encloses height deeper) (cursor : Cursor) :
    EndsCharged height cursor (readNegation limits deeper cursor) := by
  unfold readNegation
  cases deeper with
  | none => exact endsCharged_tooDeep height cursor
  | some read =>
    obtain ⟨inner, bounded, low⟩ := encloses.inside read rfl
    have operand := bounded cursor.skip
    rw [Cursor.spare_skip, Cursor.allowance_skip] at operand
    refine operand.bind (Nat.le_add_right _ 2) ?_
    rintro ⟨e, behind⟩ ⟨depth, nodes, findings⟩
    dsimp only at depth nodes findings
    refine ⟨?_, ?_, ?_⟩ <;> simp only [Expr.depth, Expr.nodeCount] <;> omega

/-- A number leaves at most the finding that it is none. -/
theorem readNumber_allowance_le (cursor : Cursor) :
    (readNumber cursor).2.allowance ≤ cursor.allowance + 1 := by
  simp only [readNumber]
  split
  · exact Nat.le_add_right _ _
  · exact Nat.le_of_eq (Cursor.allowance_note _ _)

theorem readNumber_spare (cursor : Cursor) : (readNumber cursor).2.spare = cursor.spare := by
  simp only [readNumber]
  split <;> rfl

theorem endsCharged_readPrimary (encloses : Encloses height deeper) (cursor : Cursor) :
    EndsCharged height cursor (readPrimary limits deeper cursor) := by
  have unexpected (finding : Diagnostic) :
      EndsCharged height cursor (.ok (.zero, cursor.note finding)) :=
    endsCharged_leaf encloses.positive ⟨rfl, rfl⟩ rfl (Nat.le_of_eq (cursor.allowance_note finding))
  unfold readPrimary
  split
  · exact unexpected _
  · split
    · cases deeper with
      | none => exact endsCharged_tooDeep height cursor
      | some read =>
        obtain ⟨inner, bounded, low⟩ := encloses.inside read rfl
        refine (bounded.ends_readGroup cursor).mono (by omega) ?_
        rintro result ⟨depth, nodes, findings⟩
        exact ⟨by omega, by omega, by omega⟩
    · split
      · exact endsCharged_leaf encloses.positive ⟨rfl, rfl⟩ (readNumber_spare cursor)
          (readNumber_allowance_le cursor)
      · split
        · exact endsCharged_readName encloses cursor
        · exact unexpected _

/-- An operand is paid for by the node that it is charged and by what is inside of it. -/
theorem isBounded_operandWith (encloses : Encloses height deeper) :
    IsBounded height (operandWith limits deeper) := by
  intro cursor
  refine (ends_charge limits cursor).bind (Nat.le_refl _) ?_
  rintro charged ⟨spare, allowance⟩
  have kept : EndsCharged height charged (if cursor.rest.head? = some '-'
      then readNegation limits deeper charged else readPrimary limits deeper charged) := by
    split
    · exact endsCharged_readNegation encloses charged
    · exact endsCharged_readPrimary encloses charged
  have most : charged.allowance + 3 = cursor.allowance + 1 := congrArg (· + 1) allowance
  rwa [EndsCharged, spare, allowance, most] at kept

/-- Each level adds three to the height of an operand. -/
theorem isBounded_operand (limits : Limits) (levels : Nat) :
    IsBounded (3 * levels + 1) (operand limits levels) := by
  induction levels with
  | zero =>
    exact isBounded_operandWith ⟨Nat.one_pos, fun read missing => by cases missing⟩
  | succ levels ih =>
    refine isBounded_operandWith ⟨Nat.succ_pos _, ?_⟩
    intro read given
    cases given
    exact ⟨3 * levels + 1, ih, by omega⟩

end Operands

/-! ## Formulas -/

/-- Text that is left over leaves one finding. -/
theorem Cursor.findings_finish_le (cursor : Cursor) :
    cursor.finish.findings.size ≤ cursor.findings.size + 1 := by
  unfold finish
  split
  · exact Nat.le_succ _
  · exact Nat.le_of_eq (Array.size_push _)

/-- **Whatever text is read, the height of the expression, its nodes and the findings are
bounded by the limits.** -/
theorem parse_bounded (text : String) (limits : Limits) :
    (parse text limits).expr.depth ≤ 3 * limits.depth + 3 ∧
      (parse text limits).expr.nodeCount ≤ max limits.nodes 1 ∧
      (parse text limits).diagnostics.length ≤ 2 * limits.nodes + 1 := by
  have bounded : IsBounded (3 * limits.depth + 3) (readSum limits (operand limits limits.depth)) :=
    (isBounded_operand limits limits.depth).readSum
  have sum := bounded (.start limits (Text.normalChars text.toList))
  have spare : (Cursor.start limits (Text.normalChars text.toList)).spare = limits.nodes := rfl
  have allowance : (Cursor.start limits (Text.normalChars text.toList)).allowance =
      2 * limits.nodes := Nat.zero_add _
  rw [parse_eq, readAll]
  rw [spare, allowance] at sum
  cases outcome : readSum limits (operand limits limits.depth)
      (.start limits (Text.normalChars text.toList)) with
  | ok result =>
    rw [outcome] at sum
    obtain ⟨height, nodes, findings⟩ := sum
    have last := result.2.findings_finish_le
    rw [Cursor.allowance] at findings
    refine ⟨height, ?_, ?_⟩ <;> simp only [Array.length_toList] <;> omega
  | error findings =>
    rw [outcome] at sum
    exact ⟨Nat.le_add_left 1 _, Nat.le_max_right _ _, sum⟩

end Waveform.Formula
