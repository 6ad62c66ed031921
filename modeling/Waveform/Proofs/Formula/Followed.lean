import Waveform.Proofs.Formula.Descent
import Waveform.Proofs.Formula.Limits
import Waveform.Proofs.Formula.Passed

/-!
# Descents follow readers

Where a reader comes to its end, so does the production of a descent, on the level where it began.
Where a reader fails, the production was abandoned, and it ends with the findings of the reader
(`Follows`). Each step has one lemma that carries this from what is read inside to the whole. What
an abandoned production knows is where it was abandoned, that all levels but one that could not be
entered are left, and that what is noted behind the fatal finding are calls that are open there
(`Stops`).
-/

set_option autoImplicit false

namespace Waveform.Formula

open Text

/-! ## How a descent ends -/

open Descent

/-- Whether a descent was abandoned behind a piece of text. The level that could not be entered is
not left. Behind the fatal finding there are those of the open calls, the innermost first. -/
structure Stops (limits : Limits) (descent last : Descent) (piece : List Char)
    (noted : List Diagnostic) (fatal : Diagnostic) (calls : List Diagnostic) : Prop where
  opens : Opens piece
  starts : piece <+: descent.cursor.rest
  abandoned : last.abandoned = some (descent.cursor.position + byteLength piece)
  limit : fatal = .maxNodesExceeded limits.nodes ∧ last.level = descent.level ∨
    fatal = .maxDepthExceeded limits.depth ∧ last.level = descent.level + 1
  findings :
    last.cursor.findings.toList = descent.cursor.findings.toList ++ (noted ++ fatal :: calls)
  ofParts : ∀ finding ∈ noted, isOfPart finding = true
  areOpen : ∀ call ∈ calls, IsOpenCall descent.cursor.position piece call
  inward : calls.Pairwise fun call outer => outer.StartsBefore call

namespace Stops

variable {limits : Limits} {descent last : Descent} {cursor : Cursor} {piece front : List Char}
  {noted noted' : List Diagnostic} {fatal : Diagnostic} {calls : List Diagnostic}

/-- A descent stops where a limit is exceeded, with or without a level entered in vain. -/
theorem of_abandon {entered : Descent} (here : entered.cursor = descent.cursor)
    (limit : fatal = .maxNodesExceeded limits.nodes ∧ entered.level = descent.level ∨
      fatal = .maxDepthExceeded limits.depth ∧ entered.level = descent.level + 1) :
    Stops limits descent (entered.abandon fatal) [] [] fatal [] where
  opens := .nil
  starts := List.nil_prefix
  abandoned := by
    rw [← here]
    rfl
  limit := limit
  findings := by
    rw [← here]
    exact Array.toList_push
  ofParts := nofun
  areOpen := nofun
  inward := .nil

theorem after (opens : Opens front) (passes : Passes descent.cursor cursor front noted')
    (stops : Stops limits { descent with cursor } last piece noted fatal calls) :
    Stops limits descent last (front ++ piece) (noted' ++ noted) fatal calls where
  opens := opens.append stops.opens
  starts := by
    rw [passes.rest]
    exact (List.prefix_append_right_inj front).mpr stops.starts
  abandoned := by rw [stops.abandoned, passes.position, byteLength_append, Nat.add_assoc]
  limit := stops.limit
  findings := by rw [stops.findings, passes.findings, List.append_assoc, List.append_assoc]
  ofParts finding member := by
    rcases List.mem_append.mp member with early | late
    · exact passes.ofParts finding early
    · exact stops.ofParts finding late
  areOpen call member := by
    have isOpen := stops.areOpen call member
    rw [passes.position] at isOpen
    have apart : Apart front piece := passes.apart.of_prefix stops.starts
    exact isOpen.behind apart
  inward := stops.inward

/-- What stops a descent is fatal, and is not about text that is left over. -/
theorem isFatal_and_kind_ne (stops : Stops limits descent last piece noted fatal calls) :
    fatal.isFatal = true ∧ fatal.kind ≠ .trailingInput := by
  rcases stops.limit with ⟨rfl, _⟩ | ⟨rfl, _⟩
  · exact ⟨rfl, nofun⟩
  · exact ⟨rfl, nofun⟩

/-- What a descent does with its place once it was abandoned changes nothing else. -/
theorem moved (stops : Stops limits descent last piece noted fatal calls) {place : Cursor}
    (same : place.findings = last.cursor.findings) :
    Stops limits descent { last with cursor := place } piece noted fatal calls :=
  { stops with findings := by rw [same, stops.findings] }

/-- The level of what was abandoned inside of it can be left. -/
theorem leave (stops :
      Stops limits { descent with level := descent.level + 1 } last piece noted fatal calls) :
    ∃ level, last.leave = some { last with level } ∧
      Stops limits descent { last with level } piece noted fatal calls := by
  obtain ⟨level, entered⟩ : ∃ level, last.level = level + 1 := by
    rcases stops.limit with ⟨_, entered⟩ | ⟨_, entered⟩
    · exact ⟨_, entered⟩
    · exact ⟨_, entered⟩
  have left : last.leave = some { last with level } := by
    rw [Descent.leave, entered]
  refine ⟨level, left, { stops with limit := ?_ }⟩
  have limit := stops.limit
  rw [entered] at limit
  simpa only [Nat.add_right_cancel_iff] using limit

/-- The call of an unknown name is open where what is behind its parenthesis was abandoned. -/
theorem call {name : List Char} (nonempty : name ≠ [])
    (letters : ∀ c ∈ name, c.isLower = true)
    (unknown : Builtin.named? (String.ofList name) = none)
    (passes : Passes descent.cursor cursor (name ++ ['(']) [])
    (stops : Stops limits { descent with cursor } last piece noted fatal calls) :
    Stops limits descent (last.note (unknownName descent.cursor.position name))
      (name ++ ['('] ++ piece) noted fatal
        (calls ++ [unknownName descent.cursor.position name]) := by
  have plain : ')' ∉ name ++ ['('] := by
    intro member
    rcases List.mem_append.mp member with letter | last
    · exact absurd (letters _ letter) (by decide)
    · exact absurd (List.mem_singleton.mp last) (by decide)
  have whole := stops.after (.of_not_mem plain) passes
  have itself : IsOpenCall descent.cursor.position (name ++ ['('] ++ piece)
      (unknownName descent.cursor.position name) :=
    ⟨[], name, piece, rfl, stops.opens, nonempty, letters, nofun, unknown, rfl⟩
  refine { whole with findings := ?_, areOpen := ?_, inward := ?_ }
  · rw [Descent.note, Cursor.note, Array.toList_push, whole.findings]
    simp
  · intro call member
    rcases List.mem_append.mp member with inner | last
    · exact whole.areOpen call inner
    · rw [List.mem_singleton.mp last]
      exact itself
  · refine List.pairwise_append.mpr ⟨stops.inward, List.pairwise_singleton _ _, ?_⟩
    intro inner member outer last
    rw [List.mem_singleton.mp last]
    obtain ⟨front, name', inside, _, _, _, _, _, _, rfl⟩ := stops.areOpen inner member
    refine ⟨_, rfl, _, rfl, ?_⟩
    have behind : cursor.position = descent.cursor.position + byteLength (name ++ ['(']) :=
      passes.position
    have some : 0 < byteLength ['('] := by decide
    simp only [behind, byteLength_append]
    omega

end Stops

/-! ## Productions follow readers -/

/-- What a production makes of a state next to what a reader makes of its cursor. When the reader
comes to its end so does the production, at the same cursor and on the level where it began. When
the reader fails, the production was abandoned and has the findings of the reader. -/
inductive Follows (limits : Limits) {α : Type} (descent : Descent) :
    Outcome (α × Cursor) → Option (α × Descent) → Prop where
  | completes {result : α} {behind : Cursor} {piece : List Char} {noted : List Diagnostic}
      (opens : Opens piece) (passes : Passes descent.cursor behind piece noted) :
      Follows limits descent (.ok (result, behind))
        (some (result, { descent with cursor := behind }))
  | stops {result : α} {last : Descent} {piece : List Char} {noted : List Diagnostic}
      {fatal : Diagnostic} {calls : List Diagnostic}
      (stops : Stops limits descent last piece noted fatal calls) :
      Follows limits descent (.error last.cursor.findings) (some (result, last))

namespace Follows

variable {limits : Limits} {α β : Type} {descent : Descent}

theorem after {cursor : Cursor} {piece : List Char} {noted : List Diagnostic}
    {outcome : Outcome (α × Cursor)} {run : Option (α × Descent)} (opens : Opens piece)
    (passes : Passes descent.cursor cursor piece noted)
    (follows : Follows limits { descent with cursor } outcome run) :
    Follows limits descent outcome run := by
  cases follows with
  | completes opens' passes' => exact .completes (opens.append opens') (passes.trans passes')
  | stops stops => exact .stops (stops.after opens passes)

/-- A node is charged before what is read. -/
theorem charged {otherwise : α} {next : Cursor → Outcome (α × Cursor)} {next' : Production α}
    (going : descent.abandoned = none)
    (follows : ∀ spare, descent.cursor.spare = spare + 1 →
      Follows limits { descent with cursor := { descent.cursor with spare } }
        (next { descent.cursor with spare })
        (next' { descent with cursor := { descent.cursor with spare } })) :
    Follows limits descent (descent.cursor.charge limits >>= next)
      (proceed (descent.charge limits) otherwise next') := by
  cases left : descent.cursor.spare with
  | zero =>
    rw [Cursor.charge_of_spare_eq_zero left, charge_of_zero going left]
    exact .stops (.of_abandon rfl (.inl ⟨rfl, rfl⟩))
  | succ spare =>
    rw [Cursor.charge_of_spare_eq_succ left, charge_of_succ going left]
    exact (follows spare left).after .nil (.of_charge (by omega))

/-- Two productions in a row, of which the second has nothing to do once the first was abandoned. -/
theorem bind {first : Outcome (α × Cursor)} {first' : Option (α × Descent)}
    {next : α × Cursor → Outcome (β × Cursor)}
    {next' : α × Descent → Option (β × Descent)}
    (head : Follows limits descent first first')
    (tail : ∀ result behind, behind.spare ≤ descent.cursor.spare →
      Follows limits { descent with cursor := behind } (next (result, behind))
        (next' (result, { descent with cursor := behind })))
    (idle : ∀ result last place, last.abandoned = some place →
      ∃ result', next' (result, last) = some (result', last)) :
    Follows limits descent (first >>= next) (first' >>= next') := by
  cases head with
  | completes opens passes => exact (tail _ _ passes.spare).after opens passes
  | stops stops =>
    obtain ⟨result, ends⟩ := idle _ _ _ stops.abandoned
    have last : (some (_, _) >>= next') = some (result, _) := ends
    rw [last]
    exact .stops stops

end Follows

/-- Whether a production follows a reader from all states on a level that were not abandoned. -/
def Mirrors (limits : Limits) (level : Nat) (read : Reader) (production : Production Expr) : Prop :=
  ∀ descent, descent.abandoned = none → descent.level = level →
    Follows limits descent (read descent.cursor) (production descent)

section Chains

variable {limits : Limits} {level : Nat} {read : Reader} {production : Production Expr}
  (part : Level)

theorem follows_links (mirrors : Mirrors limits level read production) (budget : Nat)
    (descent : Descent) (going : descent.abandoned = none) (same : descent.level = level)
    (enough : descent.cursor.spare ≤ budget) :
    Follows limits descent (readLinks limits part.operator? read budget descent.cursor)
      (links limits part.operator? production budget descent) := by
  induction budget generalizing descent with
  | zero =>
    unfold readLinks links
    cases descent.cursor.rest.head?.bind part.operator? with
    | none => exact .completes .nil (.of_charge (Nat.le_refl _))
    | some op =>
      rw [charge_of_zero going (Nat.le_zero.mp enough)]
      exact .stops (.of_abandon rfl (.inl ⟨rfl, rfl⟩))
  | succ budget ih =>
    unfold readLinks links
    cases follows : descent.cursor.rest.head?.bind part.operator? with
    | none => exact .completes .nil (.of_charge (Nat.le_refl _))
    | some op =>
      obtain ⟨c, starts, found⟩ := Option.bind_eq_some_iff.mp follows
      obtain ⟨rfl, _⟩ := Level.operator?_eq_some_iff.mp found
      have plain : ')' ∉ [op.symbol] ∧ op.symbol.isLower = false := by cases op <;> decide
      refine Follows.charged going fun spare left => ?_
      have skips : Passes { descent.cursor with spare }
          ({ descent.cursor with spare } : Cursor).skip [op.symbol] [] := .skip starts plain.2
      refine Follows.after (.of_not_mem plain.1) skips ?_
      have operand := mirrors
        { descent with cursor := ({ descent.cursor with spare } : Cursor).skip } going same
      refine operand.bind ?_ ?_
      · intro operand behind fewer
        have few : behind.spare ≤ budget := by
          have spent : behind.spare ≤ spare := Nat.le_trans fewer skips.spare
          omega
        refine (ih { descent with cursor := behind } going same few).bind ?_ ?_
        · intro links behind fewer
          exact .completes .nil (.of_charge (Nat.le_refl _))
        · intro links last place abandoned
          exact ⟨_, rfl⟩
      · intro operand last place abandoned
        dsimp only
        rw [links_of_abandoned _ abandoned]
        exact ⟨_, rfl⟩

theorem Mirrors.chain (mirrors : Mirrors limits level read production) :
    Mirrors limits level (readChain limits part.operator? read)
      (chain limits part.operator? production) := by
  intro descent going same
  refine (mirrors descent going same).bind ?_ ?_
  · intro head behind fewer
    have links := follows_links part mirrors behind.spare { descent with cursor := behind }
      going same (Nat.le_refl _)
    refine links.bind ?_ ?_
    · intro links behind fewer
      exact .completes .nil (.of_charge (Nat.le_refl _))
    · intro links last place abandoned
      exact ⟨_, rfl⟩
  · intro head last place abandoned
    dsimp only
    rw [links_of_abandoned _ abandoned]
    exact ⟨_, rfl⟩

theorem Mirrors.sum (mirrors : Mirrors limits level read production) :
    Mirrors limits level (readSum limits read) (sum limits production) :=
  (mirrors.chain .multiplicative).chain .additive

end Chains

/-! ## Levels -/

section Levels

variable {limits : Limits} {level : Nat} {read : Reader} {production : Production Expr}
  (descent : Descent) (going : descent.abandoned = none)
include going

/-- A sum in parentheses is passed as a whole, or abandoned behind the opening one. -/
theorem Mirrors.enclosed_cases (mirrors : Mirrors limits level read production)
    (same : descent.level = level) (starts : descent.cursor.rest.head? = some '(') :
    (∃ sum behind piece noted, Opens piece ∧ Passes descent.cursor behind piece noted ∧
      readGroup limits read descent.cursor = .ok (sum, behind) ∧
      enclosed limits production descent = some (sum, { descent with cursor := behind })) ∨
    ∃ sum last piece noted fatal calls, Stops limits descent.skip last piece noted fatal calls ∧
      readGroup limits read descent.cursor = .error last.cursor.findings ∧
      enclosed limits production descent = some (sum, last) := by
  have sum : Follows limits descent.skip (readSum limits read descent.cursor.skip)
      (Descent.sum limits production descent.skip) := mirrors.sum descent.skip going same
  unfold readGroup enclosed
  generalize readSum limits read descent.cursor.skip = outcome,
    Descent.sum limits production descent.skip = run at sum ⊢
  cases sum with
  | @completes result behind _ _ opens passes =>
    obtain ⟨piece, noted, opens, passes⟩ := Passes.enclosed starts opens passes
    have closed : ({ descent.skip with cursor := behind } : Descent).close = _ :=
      close_of_going going
    exact .inl ⟨result, _, piece, noted, opens, passes, rfl,
      congrArg (fun last => some (result, last)) closed⟩
  | @stops result _ _ _ _ _ stops =>
    obtain ⟨cursor, closed, same⟩ := close_of_abandoned stops.abandoned
    exact .inr ⟨result, _, _, _, _, _, stops.moved same, congrArg Except.error same.symm,
      congrArg (fun last => some (result, last)) closed⟩

theorem Mirrors.enclosed (mirrors : Mirrors limits level read production)
    (same : descent.level = level) (starts : descent.cursor.rest.head? = some '(') :
    Follows limits descent (readGroup limits read descent.cursor)
      (enclosed limits production descent) := by
  rcases mirrors.enclosed_cases descent going same starts with
    ⟨_, _, _, _, opens, passes, read, run⟩ | ⟨_, _, _, _, _, _, stops, read, run⟩
  · rw [read, run]
    exact .completes opens passes
  · rw [read, run]
    exact .stops (stops.after (.of_not_mem (by decide)) (.skip starts rfl))

/-- Where no level is left a reading is abandoned. -/
theorem follows_full {inner : Production Expr} {build : Expr → Descent → Expr × Descent}
    (full : descent.level = limits.depth) :
    Follows limits descent (.error (descent.cursor.tooDeep limits))
      (Descent.inside limits inner build descent) := by
  have stops : Stops limits descent
      ({ descent with level := descent.level + 1 }.abandon (.maxDepthExceeded limits.depth)) [] []
      (.maxDepthExceeded limits.depth) [] := .of_abandon rfl (.inr ⟨rfl, rfl⟩)
  rw [inside_of_full going full]
  exact .stops stops

/-- What is read one level deeper is followed by the production that enters that level and leaves
it. -/
theorem Follows.inside {outcome : Outcome (Expr × Cursor)} {inner : Production Expr}
    (build : Expr → Expr) (room : descent.level < limits.depth)
    (follows : Follows limits { descent with level := descent.level + 1 } outcome
      (inner { descent with level := descent.level + 1 })) :
    Follows limits descent (outcome >>= fun result => .ok (build result.1, result.2))
      (inside limits inner (fun part last => (build part, last)) descent) := by
  rw [inside_of_room going room]
  generalize inner { descent with level := descent.level + 1 } = run at follows
  cases follows with
  | completes opens passes => exact .completes opens passes
  | stops stops =>
    obtain ⟨level, left, stops⟩ := stops.leave
    rw [Option.bind_some, left]
    exact .stops stops

section Calls

variable (mirrors : Mirrors limits (level + 1) read production) (same : descent.level = level)
  (room : level < limits.depth) {name : List Char} {behind : Cursor}
  (letters : ∀ c ∈ name, c.isLower = true) (passes : Passes descent.cursor behind name [])
  (starts : behind.rest.head? = some '(')
include mirrors same room letters passes starts

/-- The call of a function. -/
theorem Mirrors.follows_call (function : Builtin) :
    Follows limits descent
      (match readGroup limits read behind with
        | .ok (argument, last) => .ok (.call function argument, last)
        | .error findings => .error findings)
      (Descent.inside limits (Descent.enclosed limits production)
        (fun argument last => (.call function argument, last))
        { descent with cursor := behind }) := by
  subst same
  let start : Descent := { descent with cursor := behind }
  have plain : ')' ∉ name := fun member => absurd (letters _ member) (by decide)
  have sum := mirrors.enclosed { start with level := descent.level + 1 } going rfl starts
  have call := Follows.inside start going (.call function) room sum
  change Follows limits start (readGroup limits read behind >>= _) _ at call
  refine Follows.after (.of_not_mem plain) passes ?_
  generalize readGroup limits read behind = outcome at call ⊢
  cases outcome with
  | ok result => exact call
  | error findings => exact call

/-- The call of a name that means nothing is read and dropped, and noted also if it was abandoned.
-/
theorem Mirrors.follows_unknown (nonempty : name ≠ [])
    (unknown : Builtin.named? (String.ofList name) = none) :
    Follows limits descent
      (match readGroup limits read behind with
        | .ok (_, last) => .ok (.zero, last.note (unknownName descent.cursor.position name))
        | .error findings => .error (findings.push (unknownName descent.cursor.position name)))
      (Descent.inside limits (Descent.enclosed limits production)
        (fun _ last => (.zero, last.note (unknownName descent.cursor.position name)))
        { descent with cursor := behind }) := by
  subst same
  let start : Descent := { descent with cursor := behind }
  have plain : ')' ∉ name := fun member => absurd (letters _ member) (by decide)
  rw [inside_of_room (show start.abandoned = none from going) room]
  rcases mirrors.enclosed_cases { start with level := descent.level + 1 } going rfl starts with
    ⟨_, last, _, _, opens, passes', read, run⟩ |
    ⟨_, last, piece, noted, fatal, calls, stops, read, run⟩
  · have read : readGroup limits _ behind = _ := read
    have ofPart : isOfPart (unknownName descent.cursor.position name) = true := rfl
    rw [read, run]
    exact .completes ((Opens.of_not_mem plain).append opens) ((passes.trans passes').note ofPart)
  · have read : readGroup limits _ behind = _ := read
    have stops : Stops limits { start.skip with level := start.skip.level + 1 } last piece noted
        fatal calls := stops
    obtain ⟨level, left, stops⟩ := stops.leave
    have front : Passes descent.cursor behind.skip (name ++ ['(']) [] :=
      passes.trans (.skip starts rfl)
    have whole := stops.call nonempty letters unknown front
    rw [read, run, Option.bind_some, left]
    exact .stops whole

end Calls

end Levels

/-! ## Operands -/

theorem follows_number {limits : Limits} (descent : Descent) :
    Follows limits descent (.ok (readNumber descent.cursor))
      (some ((readNumber descent.cursor).1,
        { descent with cursor := (readNumber descent.cursor).2 })) := by
  have numeric : ∀ c ∈ descent.cursor.rest.takeWhile isNumeric, isNumeric c = true :=
    fun c member => List.mem_takeWhile_imp member
  have passes := Passes.takeWhile (Apart.of_isNumeric numeric)
  have opens : Opens (descent.cursor.takeWhile isNumeric).1 :=
    .of_not_mem fun member => absurd (numeric _ member) (by decide)
  unfold readNumber
  dsimp only
  split
  · exact .completes opens passes
  · exact .completes opens (passes.note rfl)

/-- What reads the operands one level deeper, next to the production that follows it there. Nothing
does where no level is left. -/
inductive Deepens (limits : Limits) (level : Nat) (production : Production Expr) :
    Option Reader → Prop
  | full (full : level = limits.depth) : Deepens limits level production none
  | room {read : Reader} (room : level < limits.depth)
      (mirrors : Mirrors limits (level + 1) read production) :
      Deepens limits level production (some read)

section Operands

variable {limits : Limits} {level : Nat} {deeper : Option Reader} {production : Production Expr}
  (deepens : Deepens limits level production deeper)
  {descent : Descent} (going : descent.abandoned = none) (same : descent.level = level)
include deepens going same

theorem follows_negation (starts : descent.cursor.rest.head? = some '-') :
    Follows limits descent (readNegation limits deeper descent.cursor)
      (negation limits production descent) := by
  unfold readNegation negation
  subst same
  cases deepens with
  | full full => exact follows_full descent going full
  | @room read room mirrors =>
    have operand := mirrors
      { descent with cursor := descent.cursor.skip, level := descent.level + 1 } going rfl
    refine Follows.inside descent going .neg room (operand.after (.of_not_mem ?_)
      (.skip starts rfl))
    decide

theorem follows_group (starts : descent.cursor.rest.head? = some '(') :
    Follows limits descent
      (match deeper with
        | none => .error (descent.cursor.tooDeep limits)
        | some read => readGroup limits read descent.cursor)
      (inside limits (enclosed limits production) (fun sum last => (sum, last)) descent) := by
  subst same
  cases deepens with
  | full full => exact follows_full descent going full
  | @room read room mirrors =>
    have sum := mirrors.enclosed { descent with level := descent.level + 1 } going rfl starts
    have group := Follows.inside descent going id room sum
    have same (outcome : Outcome (Expr × Cursor)) :
      (outcome >>= fun sum => .ok (id sum.1, sum.2)) = outcome := bind_pure outcome
    rw [same] at group
    exact group

theorem follows_name {c : Char} {rest : List Char} (starts : descent.cursor.rest = c :: rest)
    (lower : c.isLower = true) :
    Follows limits descent (readName limits deeper descent.cursor)
      (name limits production descent) := by
  have passes := Passes.takeWhile (Apart.name descent.cursor.rest)
  have letters : ∀ c ∈ (descent.cursor.takeWhile Char.isLower).1, c.isLower = true :=
    fun c member => List.mem_takeWhile_imp member
  have nonempty : (descent.cursor.takeWhile Char.isLower).1 ≠ [] := by
    simp [Cursor.takeWhile, starts, lower]
  unfold readName name
  generalize descent.cursor.takeWhile Char.isLower = taken at passes letters nonempty ⊢
  obtain ⟨chars, behind⟩ := taken
  dsimp only at passes letters nonempty ⊢
  have plain : ')' ∉ chars := fun member => absurd (letters _ member) (by decide)
  have opens := Opens.of_not_mem plain
  split
  · exact .completes opens passes
  · exact .completes opens passes
  · exact .completes opens passes
  · next notF notT notPi =>
    have finding : unknownName descent.cursor.position chars =
        .unknownIdentifier (String.ofList chars) ⟨descent.cursor.position, behind.position⟩ := by
      rw [passes.position, unknownName]
    let start : Descent := { descent with cursor := behind }
    by_cases argument : behind.rest.head? = some '('
    · simp only [argument, ← finding]
      cases named : Builtin.named? (String.ofList chars) with
      | none =>
        cases deepens with
        | full full => exact (follows_full start going (same.trans full)).after opens passes
        | @room read room mirrors =>
          have follows := mirrors.follows_unknown descent going same room letters passes argument
            nonempty named
          dsimp only
          generalize readGroup limits read behind = outcome at follows ⊢
          cases outcome with
          | ok result => exact follows
          | error findings => exact follows
      | some function =>
        cases deepens with
        | full full => exact (follows_full start going (same.trans full)).after opens passes
        | @room read room mirrors =>
          have follows := mirrors.follows_call descent going same room letters passes argument
            function
          dsimp only
          generalize readGroup limits read behind = outcome at follows ⊢
          cases outcome with
          | ok result => exact follows
          | error findings => exact follows
    · cases named : Builtin.named? (String.ofList chars) with
      | none =>
        simp only
        exact .completes opens (passes.note rfl)
      | some function =>
        simp only
        exact .completes opens (passes.note rfl)

theorem follows_primary :
    Follows limits descent (readPrimary limits deeper descent.cursor)
      (primary limits production descent) := by
  have stays : Passes descent.cursor descent.cursor [] [] := .of_charge (Nat.le_refl _)
  unfold readPrimary primary
  cases starts : descent.cursor.rest with
  | nil =>
    simp only
    exact .completes .nil (stays.note rfl)
  | cons c rest =>
    simp only
    split
    · next isOpen =>
      subst isOpen
      exact follows_group deepens going same (by rw [starts]; rfl)
    · split
      · exact follows_number descent
      · split
        · next lower => exact follows_name deepens going same starts lower
        · exact .completes .nil (stays.note rfl)

theorem follows_operandWith :
    Follows limits descent (operandWith limits deeper descent.cursor)
      (Descent.operandWith limits production descent) := by
  refine Follows.charged going fun spare left => ?_
  let charged : Descent := { descent with cursor := { descent.cursor with spare } }
  by_cases minus : descent.cursor.rest.head? = some '-'
  · have negation : Follows limits charged _ _ := follows_negation deepens going same minus
    rw [if_pos minus, if_pos minus]
    exact negation
  · have primary : Follows limits charged _ _ := follows_primary deepens going same
    rw [if_neg minus, if_neg minus]
    exact primary

end Operands

theorem mirrors_operand (limits : Limits) (levels level : Nat)
    (all : level + levels = limits.depth) :
    Mirrors limits level (operand limits levels) (Descent.operand limits levels) := by
  induction levels generalizing level with
  | zero => exact fun descent => follows_operandWith (.full all)
  | succ levels ih =>
    exact fun descent => follows_operandWith (.room (by omega) (ih (level + 1) (by omega)))

/-- A descent through a whole formula follows the reader. -/
theorem follows_sum (limits : Limits) (text : List Char) :
    Follows limits ⟨.start limits text, 0, none⟩
      (readSum limits (operand limits limits.depth) (.start limits text))
      (sum limits (Descent.operand limits limits.depth) ⟨.start limits text, 0, none⟩) :=
  (mirrors_operand limits limits.depth 0 (Nat.zero_add _)).sum _ rfl rfl

end Waveform.Formula
