import Waveform.Formula.Number

/-!
# The grammar of formulas

Formulas are read in normal form, without white space and in lower case:

* a sum is products joined by `+` and `-`, a product operands joined by `*` and `/`,
  both read from the left;
* an operand is a sign `-` before an operand, a sum in parentheses, a number, the
  variable `f` or `t`, the constant `pi`, or a function's name followed by a sum in
  parentheses.

Nothing else is an error: it counts as zero and is noted. A number that is more than a
decimal is noted too, but keeps the value of that, and so is a parenthesis that is not
closed. Signs, groups and calls go one level deeper, and every operand, sign and
operator is charged as a node. Where a limit is exceeded the reading is abandoned.

`operandWith` reads an operand with the help of a reader for operands one level deeper,
which is missing where no deeper level is allowed. `operand` closes that circle by
recursion on the number of levels left.
-/

set_option autoImplicit false

namespace Waveform.Formula

/-- A production for expressions: it yields what it read and the cursor behind that. -/
abbrev Reader := Cursor → Outcome (Expr × Cursor)

/-- The links of a chain: while an operator follows, it is charged and an operand is
read. Since every operator takes one of the spare nodes, no more than `budget` links
can be read from a cursor that has that many to spare. -/
def readLinks (limits : Limits) (operator? : Char → Option BinaryOp) (read : Reader) :
    Nat → Cursor → Outcome (List (BinaryOp × Expr) × Cursor)
  | budget, cursor =>
    match cursor.rest.head?.bind operator? with
    | none => .ok ([], cursor)
    | some op =>
      match budget with
      | 0 => .error (cursor.findings.push (.maxNodesExceeded limits.nodes))
      | budget + 1 => do
        let charged ← cursor.charge limits
        let (operand, behind) ← read charged.skip
        let (links, behind) ← readLinks limits operator? read budget behind
        return ((op, operand) :: links, behind)

/-- Operands joined by the operators of one strength. -/
def readChain (limits : Limits) (operator? : Char → Option BinaryOp) (read : Reader) : Reader :=
  fun cursor => do
    let (head, behind) ← read cursor
    let (links, behind) ← readLinks limits operator? read behind.spare behind
    return (Expr.chain head links, behind)

/-- A product, given how its operands are read. -/
def readProduct (limits : Limits) (read : Reader) : Reader :=
  readChain limits BinaryOp.multiplicative? read

/-- A sum, given how the operands of its products are read. -/
def readSum (limits : Limits) (read : Reader) : Reader :=
  readChain limits BinaryOp.additive? (readProduct limits read)

/-- A sum behind an opening parenthesis, with the closing one. -/
def readGroup (limits : Limits) (read : Reader) : Reader :=
  fun cursor => do
    let (inner, behind) ← readSum limits read cursor.skip
    return (inner, behind.close)

/-- Reads what starts with a letter: the variable, the constant, or a call. A name that
means nothing is noted behind its argument, also if the reading was abandoned there. -/
def readName (limits : Limits) (deeper : Option Reader) : Reader :=
  fun cursor =>
    let (chars, behind) := cursor.takeWhile Char.isLower
    let name := String.ofList chars
    let span : Span := ⟨cursor.position, behind.position⟩
    match chars with
    | ['f'] => .ok (.variable 'f', behind)
    | ['t'] => .ok (.variable 't', behind)
    | ['p', 'i'] => .ok (.number Kernel.pi, behind)
    | _ =>
      match behind.rest.head?, Builtin.named? name with
      | some '(', function? =>
        match deeper with
        | none => .error (behind.tooDeep limits)
        | some read =>
          match function?, readGroup limits read behind with
          | some function, .ok (argument, behind) => .ok (.call function argument, behind)
          | some _, .error findings => .error findings
          | none, .ok (_, behind) => .ok (.zero, behind.note (.unknownIdentifier name span))
          | none, .error findings => .error (findings.push (.unknownIdentifier name span))
      | _, some _ => .ok (.zero, behind.note (.missingArgument name span))
      | _, none => .ok (.zero, behind.note (.unknownIdentifier name span))

/-- An operand behind its sign. -/
def readNegation (limits : Limits) (deeper : Option Reader) : Reader :=
  fun cursor =>
    match deeper with
    | none => .error (cursor.tooDeep limits)
    | some read => do
      let (operand, behind) ← read cursor.skip
      return (.neg operand, behind)

/-- An operand without a sign. A character that no operand starts with is left for the
surrounding chains, which end there. -/
def readPrimary (limits : Limits) (deeper : Option Reader) : Reader :=
  fun cursor =>
    match cursor.rest with
    | [] => .ok (.zero, cursor.note (.unexpectedToken none (.single cursor.position)))
    | c :: _ =>
      if c = '(' then
        match deeper with
        | none => .error (cursor.tooDeep limits)
        | some read => readGroup limits read cursor
      else if isNumeric c then .ok (readNumber cursor)
      else if c.isLower then readName limits deeper cursor
      else
        let span : Span := ⟨cursor.position, cursor.position + c.utf8Size⟩
        .ok (.zero, cursor.note (.unexpectedToken (some c) span))

/-- An operand, given how operands one level deeper are read, if they may be. -/
def operandWith (limits : Limits) (deeper : Option Reader) : Reader :=
  fun cursor => do
    let charged ← cursor.charge limits
    if cursor.rest.head? = some '-' then readNegation limits deeper charged
    else readPrimary limits deeper charged

/-- An operand with at most the given number of levels inside. -/
def operand (limits : Limits) : Nat → Reader
  | 0, cursor => operandWith limits none cursor
  | levels + 1, cursor => operandWith limits (some (operand limits levels)) cursor

end Waveform.Formula
