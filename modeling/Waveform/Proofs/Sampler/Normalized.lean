import Mathlib.Data.List.DropRight
import Mathlib.Data.List.TakeWhile
import Waveform.Proofs.Sampler.Log
import Waveform.Proofs.Text.Settled

/-!
# What is seen of a formula

The normal form of a text is its own normal form, and no reading sees more of a text than that
(`only_the_normal_form_is_read`). No character vanishes in lower case, so that the normal form is
empty exactly if the text has nothing but white space, which is if nothing is left of it when the
white space at its ends is cut off (`trim_eq_empty_iff`). A plot leaves no trace in the log for such
a text, and for no other one.
-/

set_option autoImplicit false

namespace Waveform

namespace Text

/-! ## Blank texts -/

/-- A text without the white space at its ends. -/
def trim (text : String) : String :=
  String.ofList ((text.toList.dropWhile isBlank).rdropWhile isBlank)

theorem isBlankText_iff {text : String} :
    isBlankText text = true ↔ ∀ c ∈ text.toList, isBlank c = true :=
  List.all_eq_true

/-- **Nothing is left of a blank text, and of no other one.** -/
theorem trim_eq_empty_iff {text : String} : trim text = "" ↔ isBlankText text = true := by
  rw [isBlankText_iff, ← List.dropWhile_eq_nil_iff, trim, String.ofList_eq_empty_iff,
    List.rdropWhile_eq_nil_iff]
  constructor
  · intro blank
    cases left : text.toList.dropWhile isBlank with
    | nil => rfl
    | cons c rest =>
      -- What is left of the text would start with a character that is not blank.
      have visible := List.head?_dropWhile_not isBlank text.toList
      rw [left, List.head?_cons] at visible
      rw [left] at blank
      exact absurd (blank c List.mem_cons_self) (Bool.eq_false_iff.mp visible)
  · intro nothing
    rw [nothing]
    exact nofun

/-- Each character has a lower-case form. -/
theorem lowerCase_ne_nil (c : Char) : lowerCase c ≠ [] := by
  unfold lowerCase
  split
  · exact List.cons_ne_nil _ _
  · split
    · exact List.cons_ne_nil _ _
    · split <;> exact List.cons_ne_nil _ _

/-- **The normal form is empty exactly if there is nothing but white space.** -/
theorem normalChars_eq_nil_iff {chars : List Char} :
    normalChars chars = [] ↔ ∀ c ∈ chars, isBlank c = true := by
  rw [normalChars, List.flatMap_eq_nil_iff]
  constructor
  · intro nothing c member
    by_contra visible
    have kept : c ∈ chars.filter fun c => !isBlank c :=
      List.mem_filter.mpr ⟨member, by simpa using visible⟩
    exact lowerCase_ne_nil c (nothing c kept)
  · intro blank c kept
    obtain ⟨member, visible⟩ := List.mem_filter.mp kept
    rw [blank c member] at visible
    cases visible

end Text

/-! ## Normal forms of texts -/

theorem toList_normalize (text : String) : (normalize text).toList = Text.normalChars text.toList :=
  String.toList_ofList

theorem normalize_normalize (text : String) : normalize (normalize text) = normalize text := by
  rw [normalize, toList_normalize, Text.normalChars_normalChars, normalize]

theorem normalize_eq_empty_iff {text : String} :
    normalize text = "" ↔ Text.isBlankText text = true := by
  rw [normalize, String.ofList_eq_empty_iff, Text.normalChars_eq_nil_iff, Text.isBlankText_iff]

/-- **A formula and its normal form are read alike.** -/
theorem parse_normalize (text : String) (limits : Formula.Limits) :
    parse (normalize text) limits = parse text limits := by
  have same : Text.normalChars (normalize text).toList = Text.normalChars text.toList := by
    rw [toList_normalize, Text.normalChars_normalChars]
  rw [parse, same, parse]

/-! ## Plots -/

namespace Sampler

variable {sampler : Sampler}

theorem plot_of_blank {formula : String} (blank : Text.isBlankText formula = true) :
    sampler.plot formula = pure (.empty sampler.settings.defaultDomain) :=
  if_pos blank

/-- The first thing in the log of a formula that is not blank is what was read. -/
theorem head?_events_plot {formula : String} (text : Text.isBlankText formula = false) :
    (sampler.plot formula).events.head? = some (parse formula sampler.limits).event := by
  unfold plot
  rw [text, if_neg Bool.false_ne_true]
  rfl

/-- **Nothing is plotted and nothing logged exactly for blank formulas.** -/
theorem plot_eq_pure_iff {formula : String} :
    sampler.plot formula = pure (.empty sampler.settings.defaultDomain) ↔
      Text.isBlankText formula = true := by
  refine ⟨fun same => ?_, plot_of_blank⟩
  by_contra text
  have logged : (sampler.plot formula).events.head? = some (parse formula sampler.limits).event :=
    head?_events_plot (Bool.eq_false_iff.mpr text)
  rw [same] at logged
  cases logged

end Sampler

/-- **Only the normal form of a formula is read.** A normal form is settled, so that a formula and
its normal form have the same reading, with the same expression, the same findings and the same
normal form, whatever the limits are. A formula counts as blank exactly if nothing is left of it
between the white space at its ends, and exactly if its normal form is empty; each sampler plots
nothing for it and leaves the log empty, and it does so for no other formula. -/
theorem only_the_normal_form_is_read (text : String) :
    normalize (normalize text) = normalize text ∧
      (∀ limits, parse (normalize text) limits = parse text limits) ∧
      (Text.isBlankText text = true ↔ Text.trim text = "") ∧
      (Text.isBlankText text = true ↔ normalize text = "") ∧
      ∀ sampler : Sampler,
        sampler.plot text = pure (.empty sampler.settings.defaultDomain) ↔ normalize text = "" := by
  refine ⟨normalize_normalize text, parse_normalize text, Text.trim_eq_empty_iff.symm,
    normalize_eq_empty_iff.symm, fun sampler => ?_⟩
  rw [Sampler.plot_eq_pure_iff, normalize_eq_empty_iff]

end Waveform
