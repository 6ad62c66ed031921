import Waveform.Formula.Parsed

/-!
# Readings that count their levels

A reader is given the levels that are left, and yields no more than findings once a limit is
exceeded. The same formulas are read by a machine that keeps count of the levels that it has entered
and that goes on where it stands after a limit was exceeded: all productions that were begun come to
their ends. From then on no node is charged and no level is entered, so no chain goes on and nothing
else is begun. But levels are still left, closing parentheses still passed and unknown names still
noted.

`Descent` is the state of that machine. A production has no result if a level is left that was not
entered.
-/

set_option autoImplicit false

namespace Waveform.Formula

/-- The state of a reading that counts its levels: where it stands, the levels that were entered and
not left, and the byte at which it was abandoned. -/
structure Descent where
  cursor : Cursor
  level : Nat
  abandoned : Option Nat

/-- A production: what it read, and the state behind that. -/
abbrev Production (α : Type) := Descent → Option (α × Descent)

namespace Descent

/-! ## Steps -/

/-- The state with one finding more. -/
def note (descent : Descent) (finding : Diagnostic) : Descent :=
  { descent with cursor := descent.cursor.note finding }

/-- The state behind the next character. -/
def skip (descent : Descent) : Descent :=
  { descent with cursor := descent.cursor.skip }

/-- The state in which a limit is exceeded. -/
def abandon (descent : Descent) (finding : Diagnostic) : Descent :=
  { descent.note finding with abandoned := some descent.cursor.position }

/-- Charges a node, and tells whether the reading goes on. -/
def charge (limits : Limits) (descent : Descent) : Bool × Descent :=
  match descent.abandoned, descent.cursor.spare with
  | some _, _ => (false, descent)
  | none, 0 => (false, descent.abandon (.maxNodesExceeded limits.nodes))
  | none, spare + 1 => (true, { descent with cursor := { descent.cursor with spare } })

/-- Enters a level, and tells whether the reading goes on. -/
def enter (limits : Limits) (descent : Descent) : Bool × Descent :=
  match descent.abandoned with
  | some _ => (false, descent)
  | none =>
    let entered := { descent with level := descent.level + 1 }
    if limits.depth < entered.level then
      (false, entered.abandon (.maxDepthExceeded limits.depth))
    else (true, entered)

/-- Leaves a level, if one was entered. -/
def leave (descent : Descent) : Option Descent :=
  match descent.level with
  | 0 => none
  | level + 1 => some { descent with level }

/-- The state behind a closing parenthesis; one that is missing is noted unless the reading was
abandoned. -/
def close (descent : Descent) : Descent :=
  match descent.cursor.rest with
  | ')' :: _ => descent.skip
  | _ =>
    if descent.abandoned.isSome then descent
    else descent.note (.unclosedParen (.single descent.cursor.position))

section Steps

variable {limits : Limits} {descent : Descent} {place : Nat}

theorem charge_of_abandoned (abandoned : descent.abandoned = some place) :
    descent.charge limits = (false, descent) := by
  rw [charge, abandoned]

theorem charge_of_zero (going : descent.abandoned = none) (none : descent.cursor.spare = 0) :
    descent.charge limits = (false, descent.abandon (.maxNodesExceeded limits.nodes)) := by
  rw [charge, going, none]

theorem charge_of_succ {spare : Nat} (going : descent.abandoned = none)
    (some : descent.cursor.spare = spare + 1) :
    descent.charge limits = (true, { descent with cursor := { descent.cursor with spare } }) := by
  rw [charge, going, some]

theorem enter_of_full (going : descent.abandoned = none) (full : descent.level = limits.depth) :
    descent.enter limits =
      (false,
        { descent with level := descent.level + 1 }.abandon (.maxDepthExceeded limits.depth)) := by
  rw [enter, going]
  exact if_pos (by simp only [full, Nat.lt_add_one])

theorem enter_of_room (going : descent.abandoned = none) (room : descent.level < limits.depth) :
    descent.enter limits = (true, { descent with level := descent.level + 1 }) := by
  rw [enter, going]
  exact if_neg (Nat.not_lt.mpr room)

theorem close_of_going (going : descent.abandoned = none) :
    descent.close = { descent with cursor := descent.cursor.close } := by
  cases rest : descent.cursor.rest with
  | nil => simp [close, Cursor.close, note, rest, going]
  | cons c rest' =>
    by_cases closes : c = ')'
    · subst closes
      simp [close, Cursor.close, skip, rest]
    · simp [close, Cursor.close, note, rest, going, closes]

/-- An abandoned reading passes closing parentheses, and notes none that is missing. -/
theorem close_of_abandoned (abandoned : descent.abandoned = some place) :
    ∃ cursor, descent.close = { descent with cursor } ∧
      cursor.findings = descent.cursor.findings := by
  unfold close
  split
  · next rest spelled =>
    refine ⟨_, rfl, ?_⟩
    rw [Cursor.skip, spelled]
  · rw [if_pos (by rw [abandoned]; rfl)]
    exact ⟨_, rfl, rfl⟩

end Steps

/-! ## Productions -/

/-- What is read behind a step that tells whether the reading goes on, and what counts as read if it
does not. -/
def proceed {α : Type} (step : Bool × Descent) (otherwise : α) (next : Production α) :
    Option (α × Descent) :=
  if step.1 then next step.2 else some (otherwise, step.2)

/-- The links of a chain. -/
def links (limits : Limits) (operator? : Char → Option BinaryOp) (read : Production Expr) :
    Nat → Production (List (BinaryOp × Expr))
  | budget, descent =>
    match descent.cursor.rest.head?.bind operator? with
    | none => some ([], descent)
    | some op =>
      proceed (descent.charge limits) [] fun descent =>
        match budget with
        | 0 => none
        | budget + 1 => do
          let (operand, descent) ← read descent.skip
          let (links, descent) ← links limits operator? read budget descent
          return ((op, operand) :: links, descent)

/-- Once the reading was abandoned, chains end wherever they stand. -/
theorem links_of_abandoned {limits : Limits} {operator? : Char → Option BinaryOp}
    {read : Production Expr} {descent : Descent} {place : Nat} (budget : Nat)
    (abandoned : descent.abandoned = some place) :
    links limits operator? read budget descent = some ([], descent) := by
  unfold links
  split
  · rfl
  · rw [charge_of_abandoned abandoned]
    rfl

/-- Operands joined by the operators of one strength. -/
def chain (limits : Limits) (operator? : Char → Option BinaryOp) (read : Production Expr) :
    Production Expr :=
  fun descent => do
    let (head, descent) ← read descent
    let (links, descent) ← links limits operator? read descent.cursor.spare descent
    return (Expr.chain head links, descent)

/-- A sum, given how the operands of its products are read. -/
def sum (limits : Limits) (read : Production Expr) : Production Expr :=
  chain limits BinaryOp.additive? (chain limits BinaryOp.multiplicative? read)

/-- What is one level deeper, and what is made of it behind that level. Where no level can be
entered it counts as zero. -/
def inside {α : Type} (limits : Limits) (inner : Production α)
    (build : α → Descent → Expr × Descent) :
    Production Expr :=
  fun descent => proceed (descent.enter limits) .zero fun descent => do
    let (part, descent) ← inner descent
    let descent ← descent.leave
    return build part descent

section Inside

variable {α : Type} {limits : Limits} {inner : Production α} {build : α → Descent → Expr × Descent}
  {descent : Descent} (going : descent.abandoned = none)
include going

theorem inside_of_full (full : descent.level = limits.depth) :
    inside limits inner build descent = some (.zero,
      { descent with level := descent.level + 1 }.abandon (.maxDepthExceeded limits.depth)) := by
  rw [inside, enter_of_full going full]
  rfl

theorem inside_of_room (room : descent.level < limits.depth) :
    inside limits inner build descent =
      (inner { descent with level := descent.level + 1 }).bind fun result =>
        result.2.leave.bind fun last => some (build result.1 last) := by
  rw [inside, enter_of_room going room]
  rfl

end Inside

/-- A sum behind an opening parenthesis, with the closing one. -/
def enclosed (limits : Limits) (read : Production Expr) : Production Expr :=
  fun descent => do
    let (inner, descent) ← sum limits read descent.skip
    return (inner, descent.close)

/-- An operand that starts with a letter. -/
def name (limits : Limits) (read : Production Expr) : Production Expr :=
  fun descent =>
    let (chars, cursor) := descent.cursor.takeWhile Char.isLower
    let behind := { descent with cursor }
    let name := String.ofList chars
    let span : Span := ⟨descent.cursor.position, cursor.position⟩
    match chars with
    | ['f'] => some (.variable 'f', behind)
    | ['t'] => some (.variable 't', behind)
    | ['p', 'i'] => some (.number Kernel.pi, behind)
    | _ =>
      match cursor.rest.head?, Builtin.named? name with
      | some '(', some function =>
        inside limits (enclosed limits read) (fun argument last => (.call function argument, last))
          behind
      | some '(', none =>
        inside limits (enclosed limits read)
          (fun _ last => (.zero, last.note (.unknownIdentifier name span))) behind
      | _, some _ => some (.zero, behind.note (.missingArgument name span))
      | _, none => some (.zero, behind.note (.unknownIdentifier name span))

/-- A sign and the operand behind it. -/
def negation (limits : Limits) (read : Production Expr) : Production Expr :=
  inside limits (fun descent => read descent.skip) fun operand last => (.neg operand, last)

/-- An operand without a sign. -/
def primary (limits : Limits) (read : Production Expr) : Production Expr :=
  fun descent =>
    match descent.cursor.rest with
    | [] => some (.zero, descent.note (.unexpectedToken none (.single descent.cursor.position)))
    | c :: _ =>
      if c = '(' then inside limits (enclosed limits read) (fun sum last => (sum, last)) descent
      else if isNumeric c then
        let (number, cursor) := readNumber descent.cursor
        some (number, { descent with cursor })
      else if c.isLower then name limits read descent
      else
        let position := descent.cursor.position
        some (.zero, descent.note (.unexpectedToken (some c) ⟨position, position + c.utf8Size⟩))

/-- An operand, given how operands one level deeper are read. -/
def operandWith (limits : Limits) (read : Production Expr) : Production Expr :=
  fun descent => proceed (descent.charge limits) .zero fun charged =>
    if descent.cursor.rest.head? = some '-' then negation limits read charged
    else primary limits read charged

/-- An operand with at most the given number of levels inside. Nothing is deeper than the limit lets
levels be entered. -/
def operand (limits : Limits) : Nat → Production Expr
  | 0 => operandWith limits fun _ => none
  | levels + 1 => operandWith limits (operand limits levels)

/-- Reads a formula in normal form. -/
def run (limits : Limits) (text : List Char) : Option (Expr × Descent) := do
  let (expr, last) ← sum limits (operand limits limits.depth) ⟨.start limits text, 0, none⟩
  return if last.abandoned.isSome then (.zero, last)
    else (expr, { last with cursor := last.cursor.finish })

end Descent

end Waveform.Formula
