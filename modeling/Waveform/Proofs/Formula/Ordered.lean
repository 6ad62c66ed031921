import Waveform.Proofs.Formula.Passed
import Waveform.Proofs.Formula.Trailing

/-!
# The order of findings

Findings are noted when a production comes to its end, and so nearly in the order of the places
where they start. The one exception is a name that means nothing with an argument: it is noted
behind the closing parenthesis, and hence behind all that was found in the argument. So of two
findings the later one starts first exactly when it is about such a call, and the earlier one starts
where this is open; and all findings are in order exactly when none starts inside such a call
(`parse_findings_ordered`).

Where a call is open is told from the text alone, by its parentheses, and not from how it was read.
Both agree since a piece that is read opens all parentheses that it closes, and closes all that it
opens unless a finding says otherwise. These are the invariants that go with the places of the
findings (`Sweep`).
-/

set_option autoImplicit false

namespace Waveform

open Text

/-! ## Where findings start -/

namespace Diagnostic

/-- The byte at which a finding starts, if it has a place. -/
def start? (finding : Diagnostic) : Option Nat :=
  finding.span?.map Span.start

/-- Whether a finding is about the call of a name that means nothing which is open at a byte of a
text: its parenthesis is opened in front of that byte and not closed in front of it. -/
def IsOpenAt (call : Diagnostic) (text : List Char) (place : Nat) : Prop :=
  ∃ piece, piece <+: text ∧ byteLength piece = place ∧ Formula.IsOpenCall 0 piece call

variable {call : Diagnostic} {text : List Char} {place : Nat}

theorem IsOpenAt.kind_eq (isOpen : call.IsOpenAt text place) : call.kind = .unknownIdentifier := by
  obtain ⟨_, _, _, _, _, _, _, _, _, _, _, _, rfl⟩ := isOpen
  rfl

/-- A call starts before all places at which it is open. -/
theorem IsOpenAt.start_lt (isOpen : call.IsOpenAt text place) {start : Nat}
    (starts : call.start? = some start) :
    start < place := by
  obtain ⟨piece, _, rfl, front, name, inside, rfl, _, _, _, _, _, rfl⟩ := isOpen
  obtain rfl := Option.some.inj starts
  have one : byteLength ['('] = 1 := rfl
  simp only [byteLength_append, one]
  omega

end Diagnostic

/-- Whether findings are listed in the order of the bytes at which they start. -/
def InSourceOrder (findings : List Diagnostic) : Prop :=
  findings.Pairwise fun earlier later =>
    ∀ start ∈ earlier.start?, ∀ start' ∈ later.start?, start ≤ start'

namespace Formula

/-! ## Open calls -/

section Prefixes

variable {text front front' : List Char}

/-- Of two pieces at the front of a text the one with fewer bytes is at the front of the other. -/
theorem prefix_of_byteLength_le (starts : front <+: text) (starts' : front' <+: text)
    (le : byteLength front ≤ byteLength front') : front <+: front' := by
  rcases List.prefix_or_prefix_of_prefix starts starts' with short | ⟨back, rfl⟩
  · exact short
  · cases back with
    | nil => rw [List.append_nil]
    | cons c back =>
      have some := c.utf8Size_pos
      rw [byteLength_append, byteLength_cons] at le
      omega

theorem eq_of_byteLength_eq (starts : front <+: text) (starts' : front' <+: text)
    (same : byteLength front = byteLength front') : front = front' :=
  (prefix_of_byteLength_le starts starts' same.le).eq_of_length_le
    (prefix_of_byteLength_le starts' starts same.ge).length_le

end Prefixes

section Calls

variable {text front name rest : List Char} {place : Nat}

/-- Where a call is open its name stands in front of a parenthesis, and no more is closed behind
that than is opened. -/
theorem exists_of_isOpenAt (whole : text = front ++ rest)
    (isOpen : (unknownName (byteLength front) name).IsOpenAt text place) :
    ∃ inside, name ++ '(' :: inside <+: rest ∧ Opens inside ∧
      place = byteLength front + byteLength (name ++ '(' :: inside) := by
  obtain ⟨piece, starts, rfl, front', name', inside, rfl, opens, _, _, _, _, same⟩ := isOpen
  obtain ⟨sameName, sameSpan⟩ := Diagnostic.unknownIdentifier.inj same
  obtain rfl : name = name' := String.ofList_injective sameName
  have position : byteLength front = 0 + byteLength front' := congrArg Span.start sameSpan
  obtain rfl : front = front' := by
    have starts' : front' <+: text := (List.prefix_append _ _).trans starts
    exact eq_of_byteLength_eq ⟨rest, whole.symm⟩ starts' (position.trans (Nat.zero_add _))
  rw [whole] at starts
  refine ⟨inside, ?_, opens, ?_⟩
  · simpa using starts
  · simp [byteLength_append]

/-- A name without an argument is no open call. -/
theorem not_isOpenAt_of_bare (whole : text = front ++ (name ++ rest))
    (bare : rest.head? ≠ some '(') :
    ¬ (unknownName (byteLength front) name).IsOpenAt text place := by
  intro isOpen
  obtain ⟨inside, ⟨back, starts⟩, _⟩ := exists_of_isOpenAt whole isOpen
  rw [List.append_assoc] at starts
  refine bare ?_
  rw [← List.append_cancel_left starts]
  rfl

/-- A call is not open behind its closing parenthesis. -/
theorem not_isOpenAt_of_closed {inner : List Char}
    (whole : text = front ++ (name ++ '(' :: (inner ++ ')' :: rest)))
    (closes : inner.count '(' ≤ inner.count ')')
    (behind : byteLength front + byteLength (name ++ '(' :: (inner ++ [')'])) ≤ place) :
    ¬ (unknownName (byteLength front) name).IsOpenAt text place := by
  intro isOpen
  obtain ⟨inside, starts, opens, rfl⟩ := exists_of_isOpenAt whole isOpen
  have starts : inside <+: inner ++ ')' :: rest := by
    rw [List.prefix_append_right_inj] at starts
    exact (List.cons_prefix_cons.mp starts).2
  have closed : inner ++ [')'] <+: inside := by
    refine prefix_of_byteLength_le ⟨rest, List.append_assoc _ _ _⟩ starts ?_
    simp only [byteLength_append, byteLength_cons] at behind ⊢
    omega
  -- Up to its closing parenthesis the argument closes one more than it opens.
  have more := opens _ closed
  rw [List.count_append, List.count_append] at more
  have one : List.count ')' [')'] = 1 := rfl
  have none : List.count '(' [')'] = 0 := rfl
  omega

end Calls

/-! ## What a reading sweeps over -/

/-- Whether a place is one of a text, and not within a run of letters. -/
def Place.IsIn (place : Place) (text : List Char) : Prop :=
  ∃ front, text = front ++ place.rest ∧ Apart front place.rest ∧
    place.position = byteLength front

theorem Place.IsIn.behind {place : Place} {text : List Char} (isIn : place.IsIn text) {c : Char}
    (starts : place.rest.head? = some c) (plain : c.isLower = false) :
    (place.behind [c]).IsIn text := by
  obtain ⟨front, whole, apart, position⟩ := isIn
  rw [Place.rest_of_head? starts] at whole apart
  refine ⟨front ++ [c], ?_, apart.append (.of_not_isLower plain), ?_⟩
  · rw [whole, List.append_assoc]
    rfl
  · rw [Place.behind, position, byteLength_append]

/-- What is known of the findings of a reading from a place to another, of which the piece of text
between them is read. All start within the piece. One that is noted later starts first only if it is
about a call that is open where the other starts. If all are in order, no call that they are about
is open where any of them starts, or behind the piece. -/
structure Sweep (text : List Char) (place last : Place) (piece : List Char)
    (findings : List Diagnostic) : Prop where
  rest : place.rest = piece ++ last.rest
  apart : Apart piece last.rest
  position : last.position = place.position + byteLength piece
  opens : Opens piece
  closes : findings = [] → piece.count '(' ≤ piece.count ')'
  located : ∀ finding ∈ findings, ∃ front, front <+: piece ∧
    finding.start? = some (place.position + byteLength front)
  excused : findings.Pairwise fun earlier later =>
    ∀ start ∈ earlier.start?, ∀ start' ∈ later.start?,
      start' < start → later.IsOpenAt text start
  outside : InSourceOrder findings → ∀ call ∈ findings, ∀ stop,
    (∃ finding ∈ findings, finding.start? = some stop) ∨ last.position ≤ stop →
      ¬ call.IsOpenAt text stop

namespace Sweep

variable {text : List Char} {place middle last : Place} {piece piece' : List Char}
  {findings findings' : List Diagnostic} {finding : Diagnostic}

theorem position_le (sweep : Sweep text place last piece findings) :
    place.position ≤ last.position := by
  rw [sweep.position]
  exact Nat.le_add_right _ _

theorem isIn (sweep : Sweep text place last piece findings) (isIn : place.IsIn text) :
    last.IsIn text := by
  obtain ⟨front, whole, apart, position⟩ := isIn
  rw [sweep.rest] at whole apart
  refine ⟨front ++ piece, ?_, apart.append sweep.apart, ?_⟩
  · rw [whole, List.append_assoc]
  · rw [sweep.position, position, byteLength_append]

/-- All findings start between the places. -/
theorem start_between (sweep : Sweep text place last piece findings) (member : finding ∈ findings)
    {start : Nat} (starts : finding.start? = some start) :
    place.position ≤ start ∧ start ≤ last.position := by
  obtain ⟨front, ⟨back, rfl⟩, starts'⟩ := sweep.located finding member
  obtain rfl := Option.some.inj (starts.symm.trans starts')
  rw [sweep.position, byteLength_append]
  omega

/-- Characters other than parentheses are passed without a finding. -/
theorem of_plain (rest : place.rest = piece ++ last.rest) (apart : Apart piece last.rest)
    (position : last.position = place.position + byteLength piece)
    (plain : ∀ c ∈ piece, c ≠ '(' ∧ c ≠ ')') : Sweep text place last piece [] where
  rest := rest
  apart := apart
  position := position
  opens := .of_not_mem fun member => (plain _ member).2 rfl
  closes _ := by
    rw [List.count_eq_zero.mpr fun member => (plain _ member).1 rfl]
    exact Nat.zero_le _
  located := nofun
  excused := .nil
  outside _ := nofun

theorem refl (text : List Char) (place : Place) : Sweep text place place [] [] :=
  of_plain rfl (.nil _) rfl nofun

/-- What is found at the start of a piece, and is not about an open call. -/
theorem single (sweep : Sweep text place last piece [])
    (here : finding.start? = some place.position)
    (closed : ∀ stop, ¬ finding.IsOpenAt text stop) :
    Sweep text place last piece [finding] where
  rest := sweep.rest
  apart := sweep.apart
  position := sweep.position
  opens := sweep.opens
  closes := nofun
  located := List.forall_mem_singleton.mpr ⟨[], List.nil_prefix, here⟩
  excused := List.pairwise_singleton _ _
  outside _ := List.forall_mem_singleton.mpr fun stop _ => closed stop

/-- One reading behind another. What the second finds starts behind all that the first finds. -/
theorem trans (first : Sweep text place middle piece findings)
    (second : Sweep text middle last piece' findings') :
    Sweep text place last (piece ++ piece') (findings ++ findings') where
  rest := by rw [first.rest, second.rest, List.append_assoc]
  apart := Apart.append (second.rest ▸ first.apart) second.apart
  position := by rw [second.position, first.position, byteLength_append, Nat.add_assoc]
  opens := first.opens.append second.opens
  closes none := by
    obtain ⟨none, none'⟩ := List.append_eq_nil_iff.mp none
    rw [List.count_append, List.count_append]
    exact Nat.add_le_add (first.closes none) (second.closes none')
  located finding member := by
    rcases List.mem_append.mp member with early | late
    · obtain ⟨front, starts, here⟩ := first.located finding early
      exact ⟨front, starts.trans (List.prefix_append _ _), here⟩
    · obtain ⟨front, starts, here⟩ := second.located finding late
      refine ⟨piece ++ front, (List.prefix_append_right_inj piece).mpr starts, ?_⟩
      rw [here, first.position, byteLength_append, Nat.add_assoc]
  excused := by
    refine List.pairwise_append.mpr ⟨first.excused, second.excused, ?_⟩
    intro earlier early later late start starts start' starts' before
    have low := (first.start_between early starts).2
    have high := (second.start_between late starts').1
    omega
  outside ordered call member stop behind := by
    obtain ⟨ordered, ordered', _⟩ := List.pairwise_append.mp ordered
    rcases List.mem_append.mp member with early | late
    · refine first.outside ordered call early stop ?_
      rcases behind with ⟨finding, member', starts⟩ | behind
      · rcases List.mem_append.mp member' with early' | late'
        · exact .inl ⟨finding, early', starts⟩
        · exact .inr (second.start_between late' starts).1
      · exact .inr (second.position_le.trans behind)
    · rcases behind with ⟨finding, member', starts⟩ | behind
      · rcases List.mem_append.mp member' with early' | late'
        -- A call of the second piece starts behind all that is found in the first one.
        · intro isOpen
          obtain ⟨front, _, here⟩ := second.located call late
          have low := (first.start_between early' starts).2
          have high := (second.start_between late here).1
          have before := isOpen.start_lt here
          omega
        · exact second.outside ordered' call late stop (.inl ⟨finding, late', starts⟩)
      · exact second.outside ordered' call late stop (.inr behind)

/-- What is found behind a piece, and is not about a call. -/
theorem noted (sweep : Sweep text place last piece findings)
    (here : finding.start? = some last.position) (other : finding.kind ≠ .unknownIdentifier) :
    Sweep text place last piece (findings ++ [finding]) := by
  have whole := sweep.trans ((refl text last).single here fun _ isOpen => other isOpen.kind_eq)
  rwa [List.append_nil] at whole

/-- A character that is next and is no parenthesis. -/
theorem of_starts {c : Char} (starts : place.rest.head? = some c) (plain : c ≠ '(' ∧ c ≠ ')')
    (noLetter : c.isLower = false) : Sweep text place (place.behind [c]) [c] [] :=
  .of_plain (Place.rest_of_head? starts) (.of_not_isLower noLetter) rfl
    (List.forall_mem_singleton.mpr plain)

/-- A run without parentheses. -/
theorem of_span {keep : Char → Bool} (apart : Apart (place.span keep) (place.rest.dropWhile keep))
    (notOpen : keep '(' = false) (notClose : keep ')' = false) :
    Sweep text place (place.behind (place.span keep)) (place.span keep) [] := by
  rw [← place.behind_span_rest keep] at apart
  refine .of_plain (place.span_append_behind keep) apart rfl fun c member => ?_
  have kept : keep c = true := List.mem_takeWhile_imp member
  constructor
  · rintro rfl
    cases kept.symm.trans notOpen
  · rintro rfl
    cases kept.symm.trans notClose

theorem of_number :
    Sweep text place (place.behind (place.span isNumeric)) (place.span isNumeric) [] :=
  .of_span (.of_isNumeric fun _ member => List.mem_takeWhile_imp member) rfl rfl

theorem of_name {name : List Char} (spelled : place.span Char.isLower = name) :
    Sweep text place (place.behind name) name [] := by
  subst spelled
  exact .of_span (.name place.rest) rfl rfl

end Sweep

/-! ## Parentheses -/

/-- What is known of the findings of a sum in parentheses besides: all start inside of the
parentheses, and if there are none, these are closed. -/
structure GroupSweep (text : List Char) (place last : Place) (piece : List Char)
    (findings : List Diagnostic) : Prop extends Sweep text place last piece findings where
  inside : ∀ finding ∈ findings, ∃ front, Opens front ∧ '(' :: front <+: piece ∧
    finding.start? = some (place.position + byteLength ('(' :: front))
  closed : findings = [] → ∃ inner, piece = '(' :: (inner ++ [')']) ∧
    inner.count '(' ≤ inner.count ')'

section Groups

variable {text : List Char} {place last : Place} {piece : List Char} {findings : List Diagnostic}
  {sum : Yield}

/-- Where the findings of a sum start behind its opening parenthesis. -/
theorem Sweep.inside (sweep : Sweep text (place.behind ['(']) last piece findings) :
    ∀ finding ∈ findings, ∃ front, Opens front ∧ '(' :: front <+: '(' :: piece ∧
      finding.start? = some (place.position + byteLength ('(' :: front)) := by
  intro finding member
  obtain ⟨front, starts, here⟩ := sweep.located finding member
  refine ⟨front, fun _ short => sweep.opens _ (short.trans starts),
    (List.prefix_cons_inj _).mpr starts, ?_⟩
  rw [here, Place.behind, byteLength_cons, byteLength_cons, byteLength_nil]
  simp only [Nat.add_assoc, Nat.add_zero]

theorem Sweep.enclosed_rest (sweep : Sweep text (place.behind ['(']) last piece findings)
    (starts : place.rest.head? = some '(') : place.rest = '(' :: piece ++ last.rest := by
  rw [Place.rest_of_head? starts, sweep.rest, List.cons_append]

theorem Sweep.enclosed_position (sweep : Sweep text (place.behind ['(']) last piece findings) :
    last.position = place.position + byteLength ('(' :: piece) := by
  rw [sweep.position, Place.behind, byteLength_cons, byteLength_cons, byteLength_nil, Nat.add_zero,
    Nat.add_assoc]

/-- A sum whose parenthesis is not closed, with a finding that says so. -/
theorem Sweep.unclosed (sweep : Sweep text (place.behind ['(']) last piece findings)
    (starts : place.rest.head? = some '(') (found : findings ≠ []) :
    GroupSweep text place last ('(' :: piece) findings where
  rest := sweep.enclosed_rest starts
  apart := Apart.append (.of_not_isLower rfl : Apart ['('] _) sweep.apart
  position := sweep.enclosed_position
  opens := Opens.append (.of_not_mem (by decide : ')' ∉ ['('])) sweep.opens
  closes none := absurd none found
  located finding member :=
    have ⟨front, _, starts, here⟩ := sweep.inside finding member
    ⟨'(' :: front, starts, here⟩
  excused := sweep.excused
  outside := sweep.outside
  inside := sweep.inside
  closed none := absurd none found

/-- A sum and its closing parenthesis. -/
theorem Sweep.enclosed (sweep : Sweep text (place.behind ['(']) last piece findings)
    (starts : place.rest.head? = some '(') (close : last.rest.head? = some ')') :
    GroupSweep text place (last.behind [')']) ('(' :: (piece ++ [')'])) findings := by
  have longer : '(' :: piece <+: '(' :: (piece ++ [')']) :=
    (List.prefix_cons_inj _).mpr (List.prefix_append _ _)
  exact
    { rest := by
        rw [sweep.enclosed_rest starts, Place.rest_of_head? close]
        simp
      apart := (Apart.concat rfl : Apart ('(' :: piece ++ [')']) _)
      position := by
        rw [Place.behind, sweep.enclosed_position, Nat.add_assoc, ← byteLength_append]
        rfl
      opens := sweep.opens.enclosed
      closes := fun none => by simpa [List.count_cons] using sweep.closes none
      located := fun finding member =>
        have ⟨front, _, short, here⟩ := sweep.inside finding member
        ⟨'(' :: front, short.trans longer, here⟩
      excused := sweep.excused
      outside := fun ordered call member stop behind =>
        sweep.outside ordered call member stop (behind.imp_right (Nat.le_add_right _ _).trans)
      inside := fun finding member =>
        have ⟨front, opens, short, here⟩ := sweep.inside finding member
        ⟨front, opens, short.trans longer, here⟩
      closed := fun none => ⟨piece, rfl, sweep.closes none⟩ }

/-- A sum in parentheses, of which the closing one may be missing. -/
theorem Sweep.exists_groupSweep
    (sweep : Sweep text (place.behind ['(']) sum.place piece sum.findings)
    (starts : place.rest.head? = some '(') :
    ∃ piece, GroupSweep text place sum.closed.place piece sum.closed.findings := by
  by_cases close : sum.place.rest.head? = some ')'
  · rw [Yield.closed_of_close close]
    exact ⟨_, sweep.enclosed starts close⟩
  · rw [Yield.closed_of_open close]
    have missing : Sweep text _ sum.place piece
        (sum.findings ++ [.unclosedParen (.single sum.place.position)]) := sweep.noted rfl nofun
    exact ⟨_, missing.unclosed starts
      (List.append_ne_nil_of_right_ne_nil _ (List.cons_ne_nil _ _))⟩

end Groups

/-! ## Unknown calls -/

section Unknown

variable {text : List Char} {place last : Place} {name piece : List Char}
  {findings : List Diagnostic}

/-- A name and the group behind it. -/
theorem GroupSweep.named (group : GroupSweep text (place.behind name) last piece findings)
    (spelled : place.span Char.isLower = name) : Sweep text place last (name ++ piece) findings :=
  (Sweep.of_name spelled).trans group.toSweep

/-- With nothing found in its argument, the call of a name is closed at its end. -/
theorem GroupSweep.not_isOpenAt (group : GroupSweep text (place.behind name) last piece [])
    (isIn : place.IsIn text) (spelled : place.span Char.isLower = name) {stop : Nat}
    (behind : last.position ≤ stop) :
    ¬ (unknownName place.position name).IsOpenAt text stop := by
  have passed := group.named spelled
  obtain ⟨inner, rfl, closes⟩ := group.closed rfl
  obtain ⟨front, whole, _, position⟩ := isIn
  have split : text = front ++ (name ++ '(' :: (inner ++ ')' :: last.rest)) := by
    rw [whole, passed.rest]
    simp
  rw [passed.position, position] at behind
  rw [position]
  exact not_isOpenAt_of_closed split closes behind

variable (group : GroupSweep text (place.behind name) last piece findings)
  (isIn : place.IsIn text) (nonempty : name ≠ []) (spelled : place.span Char.isLower = name)
  (unnamed : Builtin.named? (String.ofList name) = none)
include group isIn nonempty spelled unnamed

/-- What is found in the argument of a name that means nothing starts where the call of it is open.
-/
theorem GroupSweep.isOpenAt {finding : Diagnostic} (member : finding ∈ findings) :
    ∀ start ∈ finding.start?, (unknownName place.position name).IsOpenAt text start := by
  intro start starts
  obtain ⟨front, whole, apart, position⟩ := isIn
  obtain ⟨inside, opens, ⟨back, short⟩, here⟩ := group.inside finding member
  obtain rfl := Option.some.inj (starts.symm.trans here)
  have split : place.rest = name ++ (place.behind name).rest := by
    rw [← spelled]
    exact place.span_append_behind Char.isLower
  have letters : ∀ c ∈ name, c.isLower = true := by
    intro c member
    rw [← spelled] at member
    exact List.mem_takeWhile_imp member
  rw [split] at apart
  refine ⟨front ++ (name ++ ['('] ++ inside), ⟨back ++ last.rest, ?_⟩, ?_, front, name,
    inside, rfl, opens, nonempty, letters, apart.not_isLower_getLast? nonempty letters, unnamed, ?_⟩
  · rw [whole, split, group.rest, ← short]
    simp
  · rw [Place.behind, position]
    simp [byteLength_append, byteLength_cons, Nat.add_assoc]
  · rw [position, Nat.zero_add]

/-- Such a name is noted behind all that, and so out of order if there is any. -/
theorem GroupSweep.eq_nil_of_inSourceOrder
    (ordered : InSourceOrder (findings ++ [unknownName place.position name])) : findings = [] := by
  refine List.eq_nil_iff_forall_not_mem.mpr fun finding member => ?_
  obtain ⟨front, _, _, here⟩ := group.inside finding member
  have isOpen := group.isOpenAt isIn nonempty spelled unnamed member _ here
  obtain ⟨_, _, inOrder⟩ := List.pairwise_append.mp ordered
  have notBefore := inOrder finding member _ (List.mem_singleton_self _) _ here _ rfl
  exact Nat.not_le.mpr (isOpen.start_lt rfl) notBefore

/-- The call of a name that means nothing. -/
theorem GroupSweep.unknown :
    Sweep text place last (name ++ piece) (findings ++ [unknownName place.position name]) where
  rest := (group.named spelled).rest
  apart := (group.named spelled).apart
  position := (group.named spelled).position
  opens := (group.named spelled).opens
  closes none := absurd none (List.append_ne_nil_of_right_ne_nil _ (List.cons_ne_nil _ _))
  located finding member := by
    rcases List.mem_append.mp member with inside | last
    · exact (group.named spelled).located finding inside
    · obtain rfl := List.mem_singleton.mp last
      exact ⟨[], List.nil_prefix, rfl⟩
  excused := by
    refine List.pairwise_append.mpr ⟨group.excused, List.pairwise_singleton _ _, ?_⟩
    intro earlier early later late start starts _ _ _
    obtain rfl := List.mem_singleton.mp late
    exact group.isOpenAt isIn nonempty spelled unnamed early start starts
  -- The name is in order only if it is found alone, and then its call is closed where the piece
  -- ends.
  outside ordered := by
    obtain rfl := group.eq_nil_of_inSourceOrder isIn nonempty spelled unnamed ordered
    refine List.forall_mem_singleton.mpr fun stop behind => ?_
    rcases behind with ⟨finding, member, here⟩ | behind
    · obtain rfl := List.mem_singleton.mp member
      obtain rfl := Option.some.inj here
      exact fun isOpen => Nat.lt_irrefl _ (isOpen.start_lt rfl)
    · exact group.not_isOpenAt isIn spelled behind

end Unknown

/-! ## Readings -/

section Readings

variable {text : List Char} {place : Place} {yield : Yield}

theorem Leaf.exists_sweep (leaf : Leaf place yield) (isIn : place.IsIn text) :
    ∃ piece, Sweep text place yield.place piece yield.findings := by
  have other {finding : Diagnostic} (kind : finding.kind ≠ .unknownIdentifier) (stop : Nat) :
      ¬ finding.IsOpenAt text stop := fun isOpen => kind isOpen.kind_eq
  cases leaf with
  | none | unexpected =>
    exact ⟨_, (Sweep.refl text _).single rfl (other nofun)⟩
  | number => exact ⟨_, .of_number⟩
  | invalid =>
    exact ⟨_, Sweep.of_number.single rfl (other nofun)⟩
  | letter _ spelled | pi spelled => exact ⟨_, .of_name spelled⟩
  | bare _ spelled _ noArgument =>
    have passed : Sweep text place _ _ [] := .of_name spelled
    refine ⟨_, passed.single ?_ fun stop => ?_⟩
    · split <;> rfl
    · split
      · exact other Diagnostic.Kind.noConfusion stop
      · obtain ⟨front, whole, _, position⟩ := isIn
        rw [passed.rest] at whole
        change ¬ (unknownName place.position _).IsOpenAt text stop
        rw [position]
        exact not_isOpenAt_of_bare whole noArgument

/-- **What is found is in order but for open calls.** This goes through readings from rule to rule.
-/
theorem Reads.exists_sweep {part : Part} (reads : Reads part place yield) (isIn : place.IsIn text) :
    ∃ piece, Sweep text place yield.place piece yield.findings := by
  induction reads with
  | chain _ _ ihFirst ihMore =>
    obtain ⟨_, first⟩ := ihFirst isIn
    obtain ⟨_, more⟩ := ihMore (first.isIn isIn)
    exact ⟨_, first.trans more⟩
  | stop => exact ⟨_, .refl text _⟩
  | @link _ _ _ op _ _ follows _ _ _ ihFirst ihMore =>
    have plain : (op.symbol ≠ '(' ∧ op.symbol ≠ ')') ∧ op.symbol.isLower = false := by
      cases op <;> decide
    have symbol : Sweep text _ _ [op.symbol] [] := .of_starts follows plain.1 plain.2
    obtain ⟨_, first⟩ := ihFirst (symbol.isIn isIn)
    obtain ⟨_, more⟩ := ihMore (first.isIn (symbol.isIn isIn))
    exact ⟨_, (symbol.trans first).trans more⟩
  | minus starts _ ih =>
    have sign : Sweep text _ _ ['-'] [] := .of_starts starts (by decide) rfl
    obtain ⟨_, operand⟩ := ih (sign.isIn isIn)
    exact ⟨_, sign.trans operand⟩
  | group starts _ ih =>
    obtain ⟨_, sum⟩ := ih (isIn.behind starts rfl)
    obtain ⟨_, group⟩ := sum.exists_groupSweep starts
    exact ⟨_, group.toSweep⟩
  | call spelled starts _ ih =>
    have name : Sweep text _ _ _ [] := .of_name spelled
    obtain ⟨_, sum⟩ := ih ((name.isIn isIn).behind starts rfl)
    obtain ⟨_, argument⟩ := sum.exists_groupSweep starts
    exact ⟨_, argument.named spelled⟩
  | unknown nonempty spelled _ unnamed starts _ ih =>
    have name : Sweep text _ _ _ [] := .of_name spelled
    obtain ⟨_, sum⟩ := ih ((name.isIn isIn).behind starts rfl)
    obtain ⟨_, argument⟩ := sum.exists_groupSweep starts
    exact ⟨_, argument.unknown isIn nonempty spelled unnamed⟩
  | leaf leaf => exact leaf.exists_sweep isIn

end Readings

/-! ## Formulas -/

theorem ReadsAll.exists_sweep {text : List Char} {yield : Yield} (reads : ReadsAll text yield) :
    ∃ piece, Sweep text ⟨text, 0⟩ yield.place piece yield.allFindings := by
  obtain ⟨piece, sweep⟩ := Reads.exists_sweep reads ⟨[], rfl, .nil _, rfl⟩
  refine ⟨piece, ?_⟩
  unfold Yield.allFindings
  split
  · exact sweep
  · exact sweep.noted rfl nofun

namespace Sweep

variable {text : List Char} {place last : Place} {piece : List Char} {findings : List Diagnostic}

/-- What is noted later starts first exactly if it is an open call. -/
theorem pairwise_iff (sweep : Sweep text place last piece findings) :
    findings.Pairwise fun earlier later =>
      ∀ start ∈ earlier.start?, ∀ start' ∈ later.start?,
        start' < start ↔ later.IsOpenAt text start :=
  sweep.excused.imp fun excused start starts start' starts' =>
    ⟨excused start starts start' starts', fun isOpen => isOpen.start_lt starts'⟩

/-- All is in order exactly if nothing is found in an open call. -/
theorem inSourceOrder_iff (sweep : Sweep text place last piece findings) :
    InSourceOrder findings ↔
      ∀ finding ∈ findings, ∀ call ∈ findings, ∀ start ∈ finding.start?,
        ¬ call.IsOpenAt text start := by
  constructor
  · intro ordered finding member call member' start starts
    exact sweep.outside ordered call member' start (.inl ⟨finding, member, starts⟩)
  · intro outside
    refine sweep.excused.imp_of_mem fun member member' excused => ?_
    intro start starts start' starts'
    refine Nat.le_of_not_lt fun before => ?_
    exact outside _ member _ member' start starts (excused start starts start' starts' before)

end Sweep

end Formula

/-- Whether all findings of a formula have a place, of any two the later one starts first exactly
when it is about a call that is open where the earlier one starts, and all are in source order
exactly when none starts in such a call. -/
structure Parsed.OrderedButForCalls (parsed : Parsed) : Prop where
  located : ∀ finding ∈ parsed.diagnostics, finding.start?.isSome
  pairs : parsed.diagnostics.Pairwise fun earlier later =>
    ∀ start ∈ earlier.start?, ∀ start' ∈ later.start?,
      start' < start ↔ later.IsOpenAt parsed.normalized.toList start
  ordered : InSourceOrder parsed.diagnostics ↔
    ∀ finding ∈ parsed.diagnostics, ∀ call ∈ parsed.diagnostics,
      ∀ start ∈ finding.start?, ¬ call.IsOpenAt parsed.normalized.toList start

namespace Formula

/-- **Findings are in source order but for calls of names that mean nothing.** This holds for every
formula that is not abandoned, with all limits. -/
theorem parse_findings_ordered (formula : String) (limits : Limits)
    (notFatal : (parse formula limits).isFatal = false) :
    (parse formula limits).OrderedButForCalls := by
  obtain ⟨yield, reads⟩ := exists_readsAll (normalChars formula.toList)
  obtain ⟨piece, sweep⟩ := reads.exists_sweep
  have within := (isFatal_parse_eq_false_iff reads limits).mp notFatal
  rw [parse_eq, readAll_of_within reads limits within]
  refine ⟨?_, ?_, ?_⟩
  · intro finding member
    obtain ⟨front, _, here⟩ := sweep.located finding member
    rw [here]
    rfl
  · rw [String.toList_ofList]
    exact sweep.pairwise_iff
  · rw [String.toList_ofList]
    exact sweep.inSourceOrder_iff

/-- The name is noted behind the point in its argument, but this behind the number in front of the
name. -/
theorem parse_findings_ordered_point :
    (parse "1.2.3 + Foo(.)").isFatal = false ∧
      (parse "1.2.3 + Foo(.)").diagnostics =
        [.invalidNumber "1.2.3" ⟨0, 5⟩, .invalidNumber "." ⟨10, 11⟩,
          .unknownIdentifier "foo" ⟨6, 9⟩] ∧
      (parse "1.2.3 + Foo(.)").OrderedButForCalls := by
  have notFatal : (parse "1.2.3 + Foo(.)").isFatal = false := by
    decide +kernel
  exact ⟨notFatal, by decide +kernel, parse_findings_ordered "1.2.3 + Foo(.)" {} notFatal⟩

/-- So not all findings are in source order. -/
theorem not_parse_findings_inSourceOrder :
    ¬ ∀ formula limits, (parse formula limits).isFatal = false →
      InSourceOrder (parse formula limits).diagnostics := by
  intro ordered
  have found : (parse "foo(1.2.3)").diagnostics =
      [.invalidNumber "1.2.3" ⟨4, 9⟩, .unknownIdentifier "foo" ⟨0, 3⟩] := by
    decide +kernel
  have pairs := ordered "foo(1.2.3)" {} (by decide +kernel)
  rw [found] at pairs
  have inOrder := (List.pairwise_pair.mp pairs) 4 rfl 0 rfl
  exact absurd inOrder (by decide)

end Formula

end Waveform
