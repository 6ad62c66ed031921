import Mathlib.Data.List.Infix
import Waveform.Proofs.Formula.Phrase

/-!
# Readings without limits

What a formula is read as does not depend on the limits, only whether the reading goes
through to the end. This module has the reading that no limit stops, as a relation
between a place in the formula and what is read from there: an expression, findings,
the place behind, and what the reading costs. The cost is the number of nodes it is
charged and the number of levels it goes down.

The rules follow the grammar, with one rule for each recovery. There is a reading from
every place (`Reads.exists_yield`), and no reading has a fatal finding
(`Reads.not_isFatal`).
-/

set_option autoImplicit false

namespace Waveform.Formula

/-! ## Places and what is read from them -/

/-- A place in a formula: what is left of it, and the byte at which that starts. -/
structure Place where
  rest : List Char
  position : Nat

namespace Place

/-- The place behind characters that the text at a place starts with. -/
def behind (place : Place) (taken : List Char) : Place :=
  ⟨place.rest.drop taken.length, place.position + Text.byteLength taken⟩

/-- The longest piece of the text at a place in which all characters satisfy `keep`. -/
def span (place : Place) (keep : Char → Bool) : List Char :=
  place.rest.takeWhile keep

/-- The bytes of a piece of the text at a place. -/
def extent (place : Place) (taken : List Char) : Span :=
  ⟨place.position, (place.behind taken).position⟩

end Place

/-- What is read from a place, and what the reading costs. -/
structure Yield where
  expr : Expr
  findings : List Diagnostic
  charge : Nat
  nesting : Nat
  place : Place

namespace Yield

/-- What is read behind another reading, with the findings and the costs of both. -/
def after (second first : Yield) : Yield where
  expr := second.expr
  findings := first.findings ++ second.findings
  charge := first.charge + second.charge
  nesting := max first.nesting second.nesting
  place := second.place

/-- A reading of which another expression is made. -/
def map (build : Expr → Expr) (yield : Yield) : Yield :=
  { yield with expr := build yield.expr }

/-- A reading that takes a node more. -/
def charged (yield : Yield) : Yield :=
  { yield with charge := yield.charge + 1 }

/-- A reading that takes a level more. -/
def deeper (yield : Yield) : Yield :=
  { yield with nesting := yield.nesting + 1 }

/-- A reading inside a sign, a group or a call, which takes a node and a level. -/
def inside (build : Expr → Expr) (yield : Yield) : Yield :=
  (yield.map build).deeper.charged

/-- A reading with one finding more. -/
def noted (yield : Yield) (finding : Diagnostic) : Yield :=
  { yield with findings := yield.findings ++ [finding] }

/-- A reading with the closing parenthesis behind it, or the finding that there is
none. -/
def closed (yield : Yield) : Yield :=
  match yield.place.rest with
  | ')' :: _ => { yield with place := yield.place.behind [')'] }
  | _ => yield.noted (.unclosedParen (.single yield.place.position))

@[simp]
theorem closed_expr (yield : Yield) : yield.closed.expr = yield.expr := by
  unfold closed
  split <;> rfl

@[simp]
theorem closed_charge (yield : Yield) : yield.closed.charge = yield.charge := by
  unfold closed
  split <;> rfl

@[simp]
theorem closed_nesting (yield : Yield) : yield.closed.nesting = yield.nesting := by
  unfold closed
  split <;> rfl

/-- A parenthesis that follows is taken. -/
theorem closed_of_close {yield : Yield} (close : yield.place.rest.head? = some ')') :
    yield.closed = { yield with place := yield.place.behind [')'] } := by
  obtain ⟨rest, spelled⟩ := List.head?_eq_some_iff.mp close
  simp [closed, spelled]

/-- One that does not is noted. -/
theorem closed_of_open {yield : Yield} (missing : yield.place.rest.head? ≠ some ')') :
    yield.closed = yield.noted (.unclosedParen (.single yield.place.position)) := by
  unfold closed
  split
  · next rest spelled => exact absurd (congrArg List.head? spelled) missing
  · rfl

/-- Nothing more is read. -/
def stop (expr : Expr) (place : Place) : Yield :=
  ⟨expr, [], 0, 0, place⟩

/-- Reading nothing more changes nothing. -/
theorem stop_after (yield : Yield) : (stop yield.expr yield.place).after yield = yield := by
  simp [after, stop]

/-- A single node is read. -/
def leaf (expr : Expr) (findings : List Diagnostic) (place : Place) : Yield :=
  ⟨expr, findings, 1, 0, place⟩

end Yield

/-! ## The rules -/

/-- Operands with nothing inside. -/
inductive Leaf : Place → Yield → Prop where
  /-- The text ends. -/
  | none {position : Nat} :
      Leaf ⟨[], position⟩
        (.leaf .zero [.unexpectedToken none (.single position)] ⟨[], position⟩)
  /-- No operand starts with the character, which is left. -/
  | unexpected {c : Char} {rest : List Char} {position : Nat} (notMinus : c ≠ '-')
      (notOpen : c ≠ '(') (notNumeric : isNumeric c = false) (notLower : c.isLower = false) :
      Leaf ⟨c :: rest, position⟩
        (.leaf .zero [.unexpectedToken (some c) ⟨position, position + c.utf8Size⟩]
          ⟨c :: rest, position⟩)
  /-- A run of digits and points that is a number. -/
  | number {place : Place} (nonempty : place.span isNumeric ≠ [])
      (isNumber : (NumberRun.ofChars (place.span isNumeric)).isNumber = true) :
      Leaf place
        (.leaf (.number (NumberRun.ofChars (place.span isNumeric)).value) []
          (place.behind (place.span isNumeric)))
  /-- A run of digits and points that is no number. -/
  | invalid {place : Place} (nonempty : place.span isNumeric ≠ [])
      (isNoNumber : (NumberRun.ofChars (place.span isNumeric)).isNumber = false) :
      Leaf place
        (.leaf (.number (NumberRun.ofChars (place.span isNumeric)).value)
          [.invalidNumber (String.ofList (place.span isNumeric))
            (place.extent (place.span isNumeric))]
          (place.behind (place.span isNumeric)))
  /-- The variable. -/
  | letter {place : Place} {name : Char} (known : name = 'f' ∨ name = 't')
      (spelled : place.span Char.isLower = [name]) :
      Leaf place (.leaf (.variable name) [] (place.behind [name]))
  /-- The constant. -/
  | pi {place : Place} (spelled : place.span Char.isLower = ['p', 'i']) :
      Leaf place (.leaf (.number Kernel.pi) [] (place.behind ['p', 'i']))
  /-- A name that is neither the variable nor the constant, without an argument. -/
  | bare {place : Place} {name : List Char} (nonempty : name ≠ [])
      (spelled : place.span Char.isLower = name)
      (other : name ≠ ['f'] ∧ name ≠ ['t'] ∧ name ≠ ['p', 'i'])
      (noArgument : (place.behind name).rest.head? ≠ some '(') :
      Leaf place
        (.leaf .zero
          [if (Builtin.named? (String.ofList name)).isSome then
              .missingArgument (String.ofList name) (place.extent name)
            else .unknownIdentifier (String.ofList name) (place.extent name)]
          (place.behind name))

/-- The parts of a formula that are read: a chain of a level, the links of a chain
behind what is read of it so far, and an operand. -/
inductive Part where
  | chain (level : Level)
  | links (level : Level) (sofar : Expr)
  | operand

/-- What the operators of a level join. -/
def Level.part : Level → Part
  | .additive => .chain .multiplicative
  | .multiplicative => .operand

/-- What is read as a part from a place. -/
inductive Reads : Part → Place → Yield → Prop where
  /-- A chain is an operand of its level and the links behind it. -/
  | chain {level : Level} {place : Place} {head links : Yield}
      (first : Reads level.part place head)
      (more : Reads (.links level head.expr) head.place links) :
      Reads (.chain level) place (links.after head)
  /-- The links end where no operator of the level follows. -/
  | stop {level : Level} {sofar : Expr} {place : Place}
      (ends : place.rest.head?.bind level.operator? = none) :
      Reads (.links level sofar) place (.stop sofar place)
  /-- An operator, an operand, and the links behind it. -/
  | link {level : Level} {sofar : Expr} {place : Place} {op : BinaryOp} {operand links : Yield}
      (follows : place.rest.head? = some op.symbol) (fits : op.level = level)
      (first : Reads level.part (place.behind [op.symbol]) operand)
      (more : Reads (.links level (Expr.binary sofar op operand.expr)) operand.place links) :
      Reads (.links level sofar) place (links.after operand.charged)
  /-- A sign and the operand behind it. -/
  | minus {place : Place} {operand : Yield} (starts : place.rest.head? = some '-')
      (inner : Reads .operand (place.behind ['-']) operand) :
      Reads .operand place (operand.inside .neg)
  /-- A group. -/
  | group {place : Place} {sum : Yield} (starts : place.rest.head? = some '(')
      (inner : Reads (.chain .additive) (place.behind ['(']) sum) :
      Reads .operand place (sum.closed.inside id)
  /-- A call of a function. -/
  | call {place : Place} {function : Builtin} {sum : Yield}
      (spelled : place.span Char.isLower = function.name.toList)
      (starts : (place.behind function.name.toList).rest.head? = some '(')
      (inner : Reads (.chain .additive)
        ((place.behind function.name.toList).behind ['(']) sum) :
      Reads .operand place (sum.closed.inside (.call function))
  /-- A name that means nothing, with an argument: the argument is read and dropped. -/
  | unknown {place : Place} {name : List Char} {sum : Yield} (nonempty : name ≠ [])
      (spelled : place.span Char.isLower = name)
      (other : name ≠ ['f'] ∧ name ≠ ['t'] ∧ name ≠ ['p', 'i'])
      (unnamed : Builtin.named? (String.ofList name) = none)
      (starts : (place.behind name).rest.head? = some '(')
      (inner : Reads (.chain .additive) ((place.behind name).behind ['(']) sum) :
      Reads .operand place
        ((sum.closed.map fun _ => .zero).noted
          (.unknownIdentifier (String.ofList name) (place.extent name))).deeper.charged
  /-- An operand with nothing inside. -/
  | leaf {place : Place} {yield : Yield} (leaf : Leaf place yield) :
      Reads .operand place yield

/-! ## A reading goes forward -/

namespace Place

theorem behind_rest_suffix (place : Place) (taken : List Char) :
    (place.behind taken).rest <:+ place.rest :=
  List.drop_suffix _ _

/-- Behind the longest piece of characters that satisfy `keep` is what `dropWhile`
leaves. -/
theorem behind_span_rest (place : Place) (keep : Char → Bool) :
    (place.behind (place.span keep)).rest = place.rest.dropWhile keep := by
  have split := List.takeWhile_append_dropWhile (p := keep) (l := place.rest)
  calc (place.behind (place.span keep)).rest
      = (place.rest.takeWhile keep ++ place.rest.dropWhile keep).drop
          (place.rest.takeWhile keep).length := by rw [split]; rfl
    _ = place.rest.dropWhile keep := List.drop_left

/-- The first of the characters that satisfy `keep` is the next one. -/
theorem head?_of_span {place : Place} {keep : Char → Bool} {c : Char} {taken : List Char}
    (spelled : place.span keep = c :: taken) : place.rest.head? = some c ∧ keep c = true := by
  obtain ⟨rest, position⟩ := place
  cases rest with
  | nil => cases spelled
  | cons d rest =>
    simp only [span, List.takeWhile_cons] at spelled
    split at spelled
    · next kept =>
      cases spelled
      exact ⟨rfl, kept⟩
    · cases spelled

theorem behind_rest_length_lt {place : Place} {c : Char} (starts : place.rest.head? = some c) :
    (place.behind [c]).rest.length < place.rest.length := by
  obtain ⟨rest, spelled⟩ := List.head?_eq_some_iff.mp starts
  simp [behind, spelled]

end Place

theorem Yield.closed_place_suffix (yield : Yield) :
    yield.closed.place.rest <:+ yield.place.rest := by
  unfold Yield.closed
  split
  · exact yield.place.behind_rest_suffix [')']
  · exact List.suffix_refl _

theorem Leaf.place_suffix {place : Place} {yield : Yield} (leaf : Leaf place yield) :
    yield.place.rest <:+ place.rest := by
  cases leaf with
  | none => exact List.suffix_refl _
  | unexpected => exact List.suffix_refl _
  | number => exact place.behind_rest_suffix _
  | invalid => exact place.behind_rest_suffix _
  | letter => exact place.behind_rest_suffix _
  | pi => exact place.behind_rest_suffix _
  | bare => exact place.behind_rest_suffix _

theorem Leaf.cost {place : Place} {yield : Yield} (leaf : Leaf place yield) :
    yield.charge = 1 ∧ yield.nesting = 0 := by
  cases leaf <;> exact ⟨rfl, rfl⟩

theorem Leaf.head?_ne_minus {place : Place} {yield : Yield} (leaf : Leaf place yield) :
    place.rest.head? ≠ some '-' := by
  have other {keep : Char → Bool} {taken : List Char} (nonempty : taken ≠ [])
      (spelled : place.span keep = taken) (rejects : keep '-' = false) :
      place.rest.head? ≠ some '-' := by
    intro minus
    obtain ⟨c, rest, rfl⟩ := List.exists_cons_of_ne_nil nonempty
    obtain ⟨starts, kept⟩ := Place.head?_of_span spelled
    cases minus.symm.trans starts
    cases rejects.symm.trans kept
  cases leaf with
  | none => exact fun minus => by cases minus
  | unexpected notMinus => exact fun minus => notMinus (Option.some.inj minus)
  | number nonempty => exact other nonempty rfl rfl
  | invalid nonempty => exact other nonempty rfl rfl
  | letter known spelled => exact other (List.cons_ne_nil _ _) spelled rfl
  | pi spelled => exact other (List.cons_ne_nil _ _) spelled rfl
  | bare nonempty spelled => exact other nonempty spelled rfl

/-- What is left behind a reading is the end of what was there before. -/
theorem Reads.place_suffix {part : Part} {place : Place} {yield : Yield}
    (reads : Reads part place yield) : yield.place.rest <:+ place.rest := by
  induction reads with
  | chain _ _ first more => exact more.trans first
  | stop => exact List.suffix_refl _
  | link _ _ _ _ first more =>
    exact more.trans (first.trans (Place.behind_rest_suffix _ _))
  | minus _ _ inner => exact inner.trans (Place.behind_rest_suffix _ _)
  | group _ _ inner =>
    exact (Yield.closed_place_suffix _).trans (inner.trans (Place.behind_rest_suffix _ _))
  | call _ _ _ inner | unknown _ _ _ _ _ _ inner =>
    exact (Yield.closed_place_suffix _).trans
      (inner.trans ((Place.behind_rest_suffix _ _).trans (Place.behind_rest_suffix _ _)))
  | leaf leaf => exact leaf.place_suffix

/-! ## There is a reading from every place -/

section Existence

variable {place : Place}

theorem Leaf.exists_of_numeric (place : Place) {c : Char} {rest : List Char}
    (spelled : place.rest = c :: rest) (numeric : isNumeric c = true) :
    ∃ yield, Leaf place yield := by
  have nonempty : place.span isNumeric ≠ [] := by
    simp [Place.span, spelled, numeric]
  cases isNumber : (NumberRun.ofChars (place.span isNumeric)).isNumber with
  | true => exact ⟨_, .number nonempty isNumber⟩
  | false => exact ⟨_, .invalid nonempty isNumber⟩

/-- All readings from places with less text behind them, from which a reading from the
place is put together. -/
def Smaller (place : Place) : Prop :=
  ∀ later : Place, later.rest.length < place.rest.length → ∀ part, ∃ yield, Reads part later yield

theorem Reads.exists_of_lower (smaller : Smaller place) {c : Char} {rest : List Char}
    (spelled : place.rest = c :: rest) (lower : c.isLower = true) :
    ∃ yield, Reads .operand place yield := by
  obtain ⟨name, hname⟩ : ∃ name, place.span Char.isLower = name := ⟨_, rfl⟩
  have nonempty : name ≠ [] := by
    simp [← hname, Place.span, spelled, lower]
  by_cases f : name = ['f']
  · exact ⟨_, .leaf (.letter (.inl rfl) (hname.trans f))⟩
  by_cases t : name = ['t']
  · exact ⟨_, .leaf (.letter (.inr rfl) (hname.trans t))⟩
  by_cases pi : name = ['p', 'i']
  · exact ⟨_, .leaf (.pi (hname.trans pi))⟩
  by_cases starts : (place.behind name).rest.head? = some '('
  · have shorter : ((place.behind name).behind ['(']).rest.length < place.rest.length :=
      Nat.lt_of_lt_of_le (Place.behind_rest_length_lt starts)
        (place.behind_rest_suffix name).length_le
    obtain ⟨sum, inner⟩ := smaller _ shorter (.chain .additive)
    cases named : Builtin.named? (String.ofList name) with
    | none => exact ⟨_, .unknown nonempty hname ⟨f, t, pi⟩ named starts inner⟩
    | some function =>
      have same : function.name.toList = name := by
        rw [Builtin.name_eq_of_named? named, String.toList_ofList]
      subst same
      exact ⟨_, .call hname starts inner⟩
  · exact ⟨_, .leaf (.bare nonempty hname ⟨f, t, pi⟩ starts)⟩

theorem Reads.exists_operand (smaller : Smaller place) : ∃ yield, Reads .operand place yield := by
  obtain ⟨rest, position⟩ := place
  cases rest with
  | nil => exact ⟨_, .leaf .none⟩
  | cons c rest =>
    by_cases minus : c = '-'
    · subst minus
      obtain ⟨operand, inner⟩ := smaller _ (Place.behind_rest_length_lt rfl) .operand
      exact ⟨_, .minus rfl inner⟩
    by_cases group : c = '('
    · subst group
      obtain ⟨sum, inner⟩ := smaller _ (Place.behind_rest_length_lt rfl) (.chain .additive)
      exact ⟨_, .group rfl inner⟩
    cases numeric : isNumeric c with
    | true =>
      obtain ⟨yield, leaf⟩ := Leaf.exists_of_numeric ⟨c :: rest, position⟩ rfl numeric
      exact ⟨_, .leaf leaf⟩
    | false =>
      cases lower : c.isLower with
      | true => exact Reads.exists_of_lower smaller rfl lower
      | false => exact ⟨_, .leaf (.unexpected minus group numeric lower)⟩

theorem Reads.exists_links (smaller : Smaller place) (level : Level) (sofar : Expr) :
    ∃ yield, Reads (.links level sofar) place yield := by
  cases ends : place.rest.head?.bind level.operator? with
  | none => exact ⟨_, .stop ends⟩
  | some op =>
    obtain ⟨c, starts, found⟩ := Option.bind_eq_some_iff.mp ends
    obtain ⟨rfl, fits⟩ := Level.operator?_eq_some_iff.mp found
    have shorter := Place.behind_rest_length_lt starts
    obtain ⟨operand, first⟩ := smaller _ shorter level.part
    obtain ⟨links, more⟩ := smaller operand.place
      (Nat.lt_of_le_of_lt first.place_suffix.length_le shorter)
      (.links level (Expr.binary sofar op operand.expr))
    exact ⟨_, .link starts fits first more⟩

/-- A chain is read where its first operand is: the links may start at the place itself
when the operand takes nothing from it. -/
theorem Reads.exists_chain {level : Level}
    (links : ∀ later : Place, later.rest.length ≤ place.rest.length → ∀ sofar,
      ∃ yield, Reads (.links level sofar) later yield)
    (operand : ∃ yield, Reads level.part place yield) :
    ∃ yield, Reads (.chain level) place yield := by
  obtain ⟨head, first⟩ := operand
  obtain ⟨tail, more⟩ := links head.place first.place_suffix.length_le head.expr
  exact ⟨_, .chain first more⟩

end Existence

/-- **Every part is read from every place.** -/
theorem Reads.exists_yield (part : Part) (place : Place) : ∃ yield, Reads part place yield := by
  induction length : place.rest.length using Nat.strong_induction_on generalizing part place with
  | _ n ih =>
    subst length
    have smaller : Smaller place := fun later shorter part => ih _ shorter part later rfl
    have links (level : Level) (later : Place) (le : later.rest.length ≤ place.rest.length)
        (sofar : Expr) : ∃ yield, Reads (.links level sofar) later yield :=
      Reads.exists_links
        (fun last shorter part => ih _ (Nat.lt_of_lt_of_le shorter le) part last rfl) level sofar
    have operand := Reads.exists_operand smaller
    have product := Reads.exists_chain (links .multiplicative) operand
    match part with
    | .operand => exact operand
    | .links level sofar => exact links level place (Nat.le_refl _) sofar
    | .chain .multiplicative => exact product
    | .chain .additive => exact Reads.exists_chain (links .additive) product

/-! ## Findings of a reading -/

theorem Yield.closed_findings (yield : Yield) : ∀ finding ∈ yield.closed.findings,
    finding ∈ yield.findings ∨ finding = .unclosedParen (.single yield.place.position) := by
  intro finding member
  unfold Yield.closed at member
  split at member
  · exact .inl member
  · simpa [Yield.noted] using member

/-- Whether a finding is about a part of a formula, and so neither about a limit nor about what is
left over behind all parts. -/
def isOfPart (finding : Diagnostic) : Bool :=
  match finding.kind with
  | .unexpectedToken | .unknownIdentifier | .missingArgument | .invalidNumber | .unclosedParen =>
    true
  | _ => false

/-- A finding about a part of a formula is neither fatal nor about what is left over. -/
theorem of_isOfPart {finding : Diagnostic} (ofPart : isOfPart finding = true) :
    finding.isFatal = false ∧ finding.kind ≠ .trailingInput := by
  cases finding with
  | maxDepthExceeded | maxNodesExceeded | trailingInput | unrecognizedTerm | degeneratePulse =>
    cases ofPart
  | unexpectedToken | unknownIdentifier | missingArgument | invalidNumber | unclosedParen =>
    exact ⟨rfl, nofun⟩

/-- A reading without limits has findings about parts only. -/
theorem Reads.isOfPart {part : Part} {place : Place} {yield : Yield}
    (reads : Reads part place yield) : ∀ finding ∈ yield.findings, isOfPart finding = true := by
  induction reads with
  | chain _ _ first more =>
    intro finding member
    rcases List.mem_append.mp member with early | late
    · exact first finding early
    · exact more finding late
  | stop => intro finding member; cases member
  | link _ _ _ _ first more =>
    intro finding member
    rcases List.mem_append.mp member with early | late
    · exact first finding early
    · exact more finding late
  | minus _ _ inner => exact inner
  | group _ _ inner | call _ _ _ inner =>
    intro finding member
    rcases Yield.closed_findings _ finding member with inside | rfl
    · exact inner finding inside
    · rfl
  | unknown _ _ _ _ _ _ inner =>
    intro finding member
    rcases List.mem_append.mp member with inside | last
    · rcases Yield.closed_findings _ finding inside with deep | rfl
      · exact inner finding deep
      · rfl
    · rw [List.mem_singleton.mp last]
      rfl
  | leaf leaf =>
    intro finding member
    cases leaf with
    | number | letter | pi => cases member
    | none | unexpected | invalid =>
      rw [List.mem_singleton.mp member]
      rfl
    | bare =>
      rw [List.mem_singleton.mp member]
      split <;> rfl

/-- A reading without limits has no fatal finding. -/
theorem Reads.not_isFatal {part : Part} {place : Place} {yield : Yield}
    (reads : Reads part place yield) : ∀ finding ∈ yield.findings, finding.isFatal = false :=
  fun finding member => (of_isOfPart (reads.isOfPart finding member)).1

end Waveform.Formula
