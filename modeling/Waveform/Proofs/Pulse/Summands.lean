import Waveform.Proofs.Pulse.Expanded

/-!
# Summands stand by themselves

A formula is cut in front of its signs outside of parentheses. Where a text leaves no
parenthesis open and the next one starts with a sign, the seam between them is such a place:
the summands of both texts in a row are those of the one and then those of the other
(`summands_append`).

The steps before the cut respect that seam too. The normal form is a matter of single
characters, and a bare variable does not reach over a sign (`expandBare_append`). So what is
wrong with one part of a formula does not change how another part is read
(`parseClosedForm_append`).
-/

set_option autoImplicit false

/-! ## Seams -/

namespace Waveform.Pulse

/-- How many parentheses are open behind a text, with `nesting` open in front of it. -/
def nestingBehind (nesting : Nat) (text : List Char) : Nat :=
  text.foldl nestingAfter nesting

@[simp]
theorem nestingBehind_nil (nesting : Nat) : nestingBehind nesting [] = nesting := rfl

@[simp]
theorem nestingBehind_cons (nesting : Nat) (c : Char) (text : List Char) :
    nestingBehind nesting (c :: text) = nestingBehind (nestingAfter nesting c) text := rfl

@[simp]
theorem nestingBehind_append (nesting : Nat) (first second : List Char) :
    nestingBehind nesting (first ++ second) =
      nestingBehind (nestingBehind nesting first) second :=
  List.foldl_append

/-- Text that is cut in front joins nothing to the text before it. -/
theorem cut_append {nesting : Nat} {first second : List Char}
    (apart : (cut (nestingBehind nesting first) second).1 = []) :
    cut nesting (first ++ second) = ((cut nesting first).1,
      (cut nesting first).2 ++ (cut (nestingBehind nesting first) second).2) := by
  induction first generalizing nesting with
  | nil => exact Prod.ext apart rfl
  | cons c first ih =>
    simp only [List.cons_append, cut, ih apart]
    split <;> rfl

theorem cut_of_head? {text : List Char} {c : Char} (starts : text.head? = some c)
    (sign : isSign c = true) : (cut 0 text).1 = [] := by
  obtain ⟨rest, rfl⟩ := List.head?_eq_some_iff.mp starts
  simp [cut, sign]

theorem summands_eq (text : List Char) :
    summands text =
      (if (cut 0 text).1 = [] then [] else [(cut 0 text).1]) ++ (cut 0 text).2 := by
  unfold summands
  split
  · next same => rw [same, if_pos rfl, List.nil_append]
  · next nonempty same =>
    rw [same, if_neg nonempty, List.singleton_append]

/-- **Where no parenthesis is open and a sign follows, the summands before and behind are
those of the two texts.** -/
theorem summands_append {first second : List Char} {c : Char}
    (closed : nestingBehind 0 first = 0) (starts : second.head? = some c)
    (sign : isSign c = true) : summands (first ++ second) = summands first ++ summands second := by
  have apart := cut_of_head? starts sign
  have whole : cut 0 (first ++ second) =
      ((cut 0 first).1, (cut 0 first).2 ++ (cut (nestingBehind 0 first) second).2) :=
    cut_append (by rwa [closed])
  rw [closed] at whole
  rw [summands_eq, summands_eq first, summands_eq second, whole, if_pos apart, List.nil_append,
    List.append_assoc]

end Waveform.Pulse

namespace Waveform.ClosedForm

open Pulse

/-! ## Bare variables at a seam -/

/-- Written offsets leave the parentheses that are open. -/
theorem Expands.nestingBehind_eq {short long : List Char} (expands : Expands short long)
    (nesting : Nat) : nestingBehind nesting long = nestingBehind nesting short := by
  induction expands generalizing nesting with
  | nil => rfl
  | cons c rest ih => exact ih _
  | bare known rest ih =>
    rcases known with rfl | rfl <;> exact ih _

theorem Expands.head?_eq {short long : List Char} (expands : Expands short long) :
    long.head? = short.head? := by
  cases expands <;> rfl

/-- The letters of bare variables. -/
def letters : List Char := ['f', 'F', 't', 'T']

/-- Where no bare variable begins, a character is kept. -/
theorem expandBare_cons {c : Char} {rest : List Char}
    (other : ∀ letter behind, c = '(' → rest = letter :: ')' :: behind → letter ∉ letters) :
    expandBare (c :: rest) = c :: expandBare rest := by
  rw [expandBare] <;>
    exact fun behind opened same => other _ behind opened same (by decide)

/-- A bare variable that begins in front of a seam ends there, unless the text behind starts
with its letter or its closing parenthesis. -/
theorem expandBare_append {first second : List Char}
    (apart : ∀ c ∈ second.head?, c ≠ ')' ∧ c ∉ letters) :
    expandBare (first ++ second) = expandBare first ++ expandBare second := by
  induction first using expandBare.induct with
  | case1 rest ih | case2 rest ih | case3 rest ih | case4 rest ih =>
    simp [expandBare, ih]
  | case5 c rest notF notF' notT notT' ih =>
    have other : ∀ letter behind, c = '(' → rest = letter :: ')' :: behind →
        letter ∉ letters := by
      rintro letter behind opened rfl known
      simp only [letters, List.mem_cons, List.not_mem_nil, or_false] at known
      rcases known with rfl | rfl | rfl | rfl
      · exact notF behind opened rfl
      · exact notF' behind opened rfl
      · exact notT behind opened rfl
      · exact notT' behind opened rfl
    have joined : expandBare (c :: (rest ++ second)) = c :: expandBare (rest ++ second) := by
      apply expandBare_cons
      intro letter behind opened same
      cases rest with
      | nil => exact (apart letter (by rw [← List.nil_append second, same]; rfl)).2
      | cons d rest =>
        obtain ⟨rfl, tail⟩ := List.cons.inj same
        cases rest with
        | nil =>
          have closed : second = ')' :: behind := tail
          exact absurd rfl (apart ')' (by rw [closed]; rfl)).1
        | cons d' rest =>
          obtain ⟨rfl, _⟩ := List.cons.inj tail
          exact other _ rest opened rfl
    rw [expandBare_cons other, List.cons_append, joined, ih, List.cons_append]
  | case6 => rfl

/-- No bare variable reaches over the white space and the sign that a text starts with. -/
theorem apart_of_normalChars {text : List Char} {sign : Char}
    (starts : (Text.normalChars text).head? = some sign) (signed : isSign sign = true) :
    ∀ c ∈ text.head?, c ≠ ')' ∧ c ∉ letters := by
  intro c first
  obtain ⟨rest, rfl⟩ := List.head?_eq_some_iff.mp first
  have plain : ∀ d ∈ ')' :: letters, (Text.normalChars [d]).head?.all isSign = false := by
    intro d member
    simp only [letters, List.mem_cons, List.not_mem_nil, or_false] at member
    rcases member with rfl | rfl | rfl | rfl | rfl <;> decide
  have notPlain : c ∉ ')' :: letters := by
    intro member
    have unsigned := plain c member
    rw [← List.singleton_append, Text.normalChars_append] at starts
    cases alone : Text.normalChars [c] with
    | nil =>
      rw [alone] at unsigned
      cases unsigned
    | cons d more =>
      rw [alone] at starts unsigned
      cases starts
      exact absurd signed (Bool.eq_false_iff.mp unsigned)
  exact ⟨List.ne_of_not_mem_cons notPlain, List.not_mem_of_not_mem_cons notPlain⟩

/-! ## Formulas in a row -/

/-- Each reading is a pulse or a finding. -/
theorem length_filterMap_add_length_filterMap (readings : List (Except Diagnostic Pulse)) :
    (readings.filterMap fun reading =>
      match reading with
      | .ok pulse => some pulse
      | .error _ => none).length +
    (readings.filterMap fun reading =>
      match reading with
      | .ok _ => none
      | .error finding => some finding).length = readings.length := by
  induction readings with
  | nil => rfl
  | cons reading readings ih =>
    cases reading with
    | ok pulse =>
      simp only [List.filterMap_cons, List.length_cons, ← ih]
      omega
    | error finding =>
      simp only [List.filterMap_cons, List.length_cons, ← ih]
      omega

/-- What is cut apart is read apart. -/
theorem ofNormal_of_summands_append {whole first second : List Char}
    (apart : summands whole = summands first ++ summands second) :
    (ofNormal whole).pulses = (ofNormal first).pulses ++ (ofNormal second).pulses ∧
      (ofNormal whole).diagnostics =
        (ofNormal first).diagnostics ++ (ofNormal second).diagnostics := by
  simp only [ofNormal, apart, List.map_append, List.filterMap_append, and_self]

end Waveform.ClosedForm

namespace Waveform

open Pulse ClosedForm

/-- **What is wrong in one part of a formula does not change how its neighbours are read.**
Where the one leaves no parenthesis open and the other starts with a sign, two texts in a row
have the pulses and the findings of both, and each summand has one pulse or one finding. -/
theorem parseClosedForm_append :
    (∀ first second : String, ∀ c, nestingBehind 0 (normalize first).toList = 0 →
      (normalize second).toList.head? = some c → isSign c = true →
      (parseClosedForm (first ++ second)).pulses =
          (parseClosedForm first).pulses ++ (parseClosedForm second).pulses ∧
        (parseClosedForm (first ++ second)).diagnostics =
          (parseClosedForm first).diagnostics ++ (parseClosedForm second).diagnostics) ∧
    ∀ text : String, (parseClosedForm text).pulses.length +
        (parseClosedForm text).diagnostics.length =
      (summands (Text.normalChars (expandBare text.toList))).length := by
  constructor
  · intro first second c closed starts sign
    rw [normalize, String.toList_ofList] at closed starts
    have apart : expandBare (first.toList ++ second.toList) =
        expandBare first.toList ++ expandBare second.toList :=
      expandBare_append (apart_of_normalChars starts sign)
    apply ofNormal_of_summands_append
    rw [String.toList_append, apart, Text.normalChars_append]
    refine summands_append ?_ ?_ sign
    · rw [(expands_normalChars _).nestingBehind_eq, closed]
    · rw [(expands_normalChars _).head?_eq, starts]
  · intro text
    refine (length_filterMap_add_length_filterMap _).trans ?_
    rw [List.length_map]

/-- Of the first text the rectangle is kept, and of the second one the triangle without a factor
behind it. The stray parenthesis spoils one summand. -/
theorem parseClosedForm_append_stray_parenthesis :
    let first := "Rect((F)/2) + 3*sinc(f))"
    let second := " - .5*tri((T + 1.)/4) * 2 - tri((t)/1)"
    nestingBehind 0 (normalize first).toList = 0 ∧
      (normalize second).toList.head? = some '-' ∧ isSign '-' = true ∧
      (parseClosedForm (first ++ second)).pulses =
        (parseClosedForm first).pulses ++ (parseClosedForm second).pulses ∧
      (parseClosedForm (first ++ second)).diagnostics =
        (parseClosedForm first).diagnostics ++ (parseClosedForm second).diagnostics ∧
      (parseClosedForm (first ++ second)).pulses = [⟨1, .rect, 0, 2⟩, ⟨-1, .tri, 0, 1⟩] ∧
      (parseClosedForm (first ++ second)).diagnostics =
        [.unrecognizedTerm "+3*sinc(f-0))", .unrecognizedTerm "-.5*tri((t+1.)/4)*2"] := by
  intro first second
  have closed : nestingBehind 0 (normalize first).toList = 0 := by decide +kernel
  have starts : (normalize second).toList.head? = some '-' := by decide +kernel
  obtain ⟨pulses, findings⟩ := parseClosedForm_append.1 first second '-' closed starts rfl
  exact ⟨closed, starts, rfl, pulses, findings, by decide +kernel, by decide +kernel⟩

end Waveform
