import Waveform.Proofs.Pulse.Operands

/-!
# Where a formula is cut

A text is cut in front of its loose signs, which are those that stand where no parenthesis is open,
and nowhere else. The cuts are counted in bytes of the text: the bytes at which the summands after
the first one start are the places of the loose signs, apart from a sign at the very beginning
(`mem_boundaries_summands`).

A summand that starts with a sign starts where no parenthesis is open, so the parentheses in it are
counted as they are in the text that it was cut from. It is not cut again
(`summands_of_mem_summands`).
-/

set_option autoImplicit false

namespace Waveform.Pulse

/-! ## Places of texts in a row -/

/-- The bytes at which texts in a row start, if the first of them starts at the given byte. -/
def starts : ℕ → List (List Char) → List ℕ
  | _, [] => []
  | place, term :: terms => place :: starts (place + Text.byteLength term) terms

/-- The bytes at which one text of a row ends and the next one starts. -/
def boundaries : List (List Char) → List ℕ
  | [] => []
  | term :: terms => starts (Text.byteLength term) terms

theorem le_of_mem_starts {place first : ℕ} {terms : List (List Char)}
    (member : place ∈ starts first terms) : first ≤ place := by
  induction terms generalizing first with
  | nil => cases member
  | cons term terms ih =>
    rcases List.mem_cons.mp member with rfl | later
    · exact le_rfl
    · exact (Nat.le_add_right _ _).trans (ih later)

theorem byteLength_pos {text : List Char} (nonempty : text ≠ []) : 0 < Text.byteLength text := by
  obtain ⟨c, rest, rfl⟩ := List.exists_cons_of_ne_nil nonempty
  exact Nat.add_pos_left c.utf8Size_pos _

/-- Where no text of a row is empty, all but the first of them start behind the first byte. -/
theorem mem_boundaries_iff {place : ℕ} {terms : List (List Char)}
    (nonempty : ∀ term ∈ terms, term ≠ []) :
    place ∈ boundaries terms ↔ 0 < place ∧ place ∈ starts 0 terms := by
  cases terms with
  | nil => simp [boundaries, starts]
  | cons term terms =>
    have positive := byteLength_pos (nonempty term List.mem_cons_self)
    rw [boundaries, starts, List.mem_cons, Nat.zero_add]
    constructor
    · intro member
      exact ⟨positive.trans_le (le_of_mem_starts member), .inr member⟩
    · rintro ⟨behind, rfl | member⟩
      · exact absurd behind (lt_irrefl 0)
      · exact member

/-! ## Loose signs -/

/-- Whether a sign starts at a byte of a text and no parenthesis is open there, with `nesting`
parentheses open in front of the text. -/
def HasLooseSign (nesting : ℕ) (text : List Char) (place : ℕ) : Prop :=
  ∃ front c back, text = front ++ c :: back ∧ Text.byteLength front = place ∧ isSign c = true ∧
    nestingBehind nesting front = 0

theorem not_hasLooseSign_nil {nesting place : ℕ} : ¬ HasLooseSign nesting [] place := by
  rintro ⟨front, c, back, same, _⟩
  cases front <;> cases same

/-- A loose sign is the first character of a text, or one of the text behind it. -/
theorem hasLooseSign_cons_iff {nesting place : ℕ} {c : Char} {text : List Char} :
    HasLooseSign nesting (c :: text) place ↔
      (place = 0 ∧ isSign c = true ∧ nesting = 0) ∨
        ∃ later, place = c.utf8Size + later ∧ HasLooseSign (nestingAfter nesting c) text later := by
  constructor
  · rintro ⟨front, d, back, same, rfl, sign, closed⟩
    cases front with
    | nil =>
      cases same
      exact .inl ⟨rfl, sign, closed⟩
    | cons first front =>
      cases same
      exact .inr ⟨Text.byteLength front, rfl, front, d, back, rfl, rfl, sign, closed⟩
  · rintro (⟨rfl, sign, rfl⟩ | ⟨_, rfl, front, d, back, rfl, rfl, sign, closed⟩)
    · exact ⟨[], c, text, rfl, rfl, sign, rfl⟩
    · exact ⟨c :: front, d, back, rfl, rfl, sign, closed⟩

/-- **The pieces behind the first cut start at the loose signs**, in a text that starts at the byte
`base`. -/
theorem mem_starts_cut (nesting : ℕ) (text : List Char) (base place : ℕ) :
    place ∈ starts (base + Text.byteLength (cut nesting text).1) (cut nesting text).2 ↔
      ∃ offset, place = base + offset ∧ HasLooseSign nesting text offset := by
  induction text generalizing nesting base with
  | nil =>
    constructor
    · intro member
      cases member
    · rintro ⟨_, _, loose⟩
      exact absurd loose not_hasLooseSign_nil
  | cons c text ih =>
    have behind : (∃ offset, place = base + c.utf8Size + offset ∧
        HasLooseSign (nestingAfter nesting c) text offset) ↔
          ∃ offset, place = base + offset ∧
            ∃ later, offset = c.utf8Size + later ∧
              HasLooseSign (nestingAfter nesting c) text later := by
      constructor
      · rintro ⟨later, rfl, loose⟩
        exact ⟨_, Nat.add_assoc _ _ _, later, rfl, loose⟩
      · rintro ⟨_, rfl, later, rfl, loose⟩
        exact ⟨later, (Nat.add_assoc _ _ _).symm, loose⟩
    have rest := (ih (nestingAfter nesting c) (base + c.utf8Size)).trans behind
    simp only [hasLooseSign_cons_iff, and_or_left, exists_or, ← rest, cut]
    split
    · next cuts =>
      -- The sign is loose itself, and its summand ends where the text behind is cut first.
      obtain ⟨sign, closed⟩ := Bool.and_eq_true_iff.mp cuts
      have closed : nesting = 0 := beq_iff_eq.mp closed
      simp [starts, sign, closed, Nat.add_assoc]
    · next whole =>
      have never : ¬ (isSign c = true ∧ nesting = 0) := by
        rintro ⟨sign, rfl⟩
        exact whole (by rw [sign]; rfl)
      simp [never, Nat.add_assoc]

/-! ## Summands -/

/-- No summand is empty. -/
theorem ne_nil_of_mem_summands {text term : List Char} (member : term ∈ summands text) :
    term ≠ [] := by
  rw [summands_eq, List.mem_append] at member
  rcases member with first | later
  · split at first
    · cases first
    · next nonempty =>
      rw [List.mem_singleton.mp first]
      exact nonempty
  · obtain ⟨c, rest, rfl, _⟩ := isSign_of_mem_cut 0 text term later
    exact List.cons_ne_nil c rest

/-- **A text is cut exactly in front of its loose signs**, but not at its beginning. -/
theorem mem_boundaries_summands {text : List Char} {place : ℕ} :
    place ∈ boundaries (summands text) ↔ 0 < place ∧ HasLooseSign 0 text place := by
  have loose := mem_starts_cut 0 text 0 place
  simp only [Nat.zero_add, exists_eq_left'] at loose
  rw [mem_boundaries_iff fun _ => ne_nil_of_mem_summands, ← loose]
  refine and_congr_right fun positive => ?_
  rw [summands_eq]
  split
  · next none => rw [none, List.nil_append, Text.byteLength_nil]
  · rw [List.singleton_append, starts, List.mem_cons, or_iff_right positive.ne', Nat.zero_add]

theorem isUncut_cut (nesting : ℕ) (text : List Char) : IsUncut nesting (cut nesting text).1 := by
  induction text generalizing nesting with
  | nil => rfl
  | cons c text ih =>
    simp only [cut]
    split
    · rfl
    · next whole =>
      rw [Bool.not_eq_true, Bool.and_eq_false_iff, beq_eq_false_iff_ne] at whole
      exact isUncut_cons_iff.mpr ⟨whole, ih _⟩

/-- Behind its sign, a piece behind a cut is not cut. -/
theorem exists_of_mem_cut (nesting : ℕ) (text : List Char) :
    ∀ term ∈ (cut nesting text).2, ∃ c rest, term = c :: rest ∧ isSign c = true ∧
      IsUncut 0 rest := by
  induction text generalizing nesting with
  | nil => exact fun term member => (List.not_mem_nil member).elim
  | cons c text ih =>
    simp only [cut]
    split
    · next cuts =>
      obtain ⟨sign, closed⟩ := Bool.and_eq_true_iff.mp cuts
      obtain rfl : nesting = 0 := beq_iff_eq.mp closed
      have uncut := isUncut_cut (nestingAfter 0 c) text
      rw [nestingAfter_of_isSign sign] at uncut ⊢
      exact List.forall_mem_cons.mpr ⟨⟨c, _, rfl, sign, uncut⟩, ih 0⟩
    · exact ih (nestingAfter nesting c)

/-- **A summand is not cut again.** -/
theorem summands_of_mem_summands {text term : List Char} (member : term ∈ summands text) :
    summands term = [term] := by
  have nonempty := ne_nil_of_mem_summands member
  rw [summands_eq, List.mem_append] at member
  rcases member with first | later
  · split at first
    · cases first
    · rw [List.mem_singleton.mp first] at nonempty ⊢
      exact summands_of_isUncut nonempty (isUncut_cut 0 text)
  · obtain ⟨c, rest, rfl, sign, uncut⟩ := exists_of_mem_cut 0 text term later
    exact summands_sign_cons sign uncut

/-- **A text is cut into summands exactly in front of its loose signs.** The summands in a row are
the text, none of them is empty, one ends and the next one starts where there is a loose sign that
is not the first character, and no summand can be cut any further. -/
theorem summands_cut_at_loose_signs (text : List Char) :
    (summands text).flatten = text ∧
      (∀ term ∈ summands text, term ≠ []) ∧
      (∀ place, place ∈ boundaries (summands text) ↔ 0 < place ∧ HasLooseSign 0 text place) ∧
      ∀ term ∈ summands text, summands term = [term] :=
  ⟨flatten_summands text, fun _ => ne_nil_of_mem_summands, fun _ => mem_boundaries_summands,
    fun _ => summands_of_mem_summands⟩

/-- A closing parenthesis without an opening one hides no sign, and an open one hides all. -/
example : boundaries (summands "é)-a(+b)+(c-d".toList) = [3, 9] := by decide

end Waveform.Pulse
