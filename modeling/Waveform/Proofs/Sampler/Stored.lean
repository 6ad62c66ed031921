import Waveform.Proofs.Json.Number
import Waveform.Proofs.Json.Record
import Waveform.Proofs.Sampler.Plotted
import Waveform.Sampler.SettingsCodec

/-!
# Stored settings are loaded again

Settings are restored from any text that spells their record, also where members are missing, stand
in another order, or are mixed with members of other names: a setting that is missing has its
default (`load_of_spells`). Whole numbers are restored for all words, and floating-point numbers if
the reader of numbers gets them from their digits.
-/

set_option autoImplicit false

namespace Waveform

open Json

/-- The ends of a stretch that are read back give the stretch. -/
theorem Interval.ofJson?_toJson {interval : Interval}
    (lower : (ofFloat interval.lower).float? = some interval.lower)
    (upper : (ofFloat interval.upper).float? = some interval.upper) :
    Interval.ofJson? interval.toJson = some interval := by
  rw [Interval.toJson, Interval.ofJson?, lower, upper]
  rfl

theorem Interval.isWritable_toJson (interval : Interval) : interval.toJson.IsWritable := by
  refine .array fun item member => ?_
  rcases List.mem_pair.mp member with rfl | rfl <;> exact isWritable_ofFloat _

namespace Setting

theorem nodup_names : (all.map name).Nodup := by
  decide

/-- No two settings have the same name. -/
theorem name_injective : Function.Injective name := fun setting other same =>
  List.inj_on_of_nodup_map nodup_names setting.mem_all other.mem_all same

end Setting

namespace Settings

/-! ## Settings in part -/

/-- The numbers among the settings that are not whole. -/
def floats (settings : Settings) : List Float :=
  [settings.search.lower, settings.search.upper, settings.threshold, settings.narrowSpan,
    settings.narrowPadding, settings.paddingRatio, settings.closedFormMinPadding,
    settings.closedFormPaddingRatio, settings.defaultDomain.lower, settings.defaultDomain.upper,
    settings.closedFormDefaultDomain.lower, settings.closedFormDefaultDomain.upper]

/-- The members of the settings that are kept. -/
def membersKept (settings : Settings) (keep : Setting → Bool) : List (String × Json) :=
  (Setting.all.filter keep).map fun setting => (setting.name, settings.stored setting)

/-- The settings that are kept, and the defaults instead of the others. -/
def overlay (settings : Settings) (keep : Setting → Bool) : Settings :=
  let choose {α : Type} (setting : Setting) (field : Settings → α) : α :=
    if keep setting then field settings else field {}
  { search := ⟨choose .searchMin (·.search.lower), choose .searchMax (·.search.upper)⟩
    searchSteps := choose .searchSteps (·.searchSteps)
    closedFormSteps := choose .closedFormSteps (·.closedFormSteps)
    threshold := choose .threshold (·.threshold)
    narrowSpan := choose .narrowSpan (·.narrowSpan)
    narrowPadding := choose .narrowPadding (·.narrowPadding)
    paddingRatio := choose .paddingRatio (·.paddingRatio)
    closedFormMinPadding := choose .closedFormMinPadding (·.closedFormMinPadding)
    closedFormPaddingRatio := choose .closedFormPaddingRatio (·.closedFormPaddingRatio)
    defaultDomain := choose .defaultDomain (·.defaultDomain)
    closedFormDefaultDomain := choose .closedFormDefaultDomain (·.closedFormDefaultDomain)
    areaDigits := choose .areaDigits (·.areaDigits)
    maxDepth := choose .maxDepth (·.maxDepth)
    maxNodes := choose .maxNodes (·.maxNodes) }

/-- Settings of which all are kept are the same. -/
theorem overlay_of_all {settings : Settings} {keep : Setting → Bool}
    (all : ∀ setting, keep setting = true) : settings.overlay keep = settings := by
  simp only [overlay, all, if_true]

/-! ## One setting after the other -/

/-- The settings with one of them from others, if it is kept. -/
def take (settings other : Settings) (kept : Bool) (setting : Setting) : Settings :=
  let choose {α : Type} (field : Settings → α) : α :=
    if kept then field other else field settings
  match setting with
  | .searchMin =>
    { settings with search := { settings.search with lower := choose (·.search.lower) } }
  | .searchMax =>
    { settings with search := { settings.search with upper := choose (·.search.upper) } }
  | .searchSteps => { settings with searchSteps := choose (·.searchSteps) }
  | .closedFormSteps => { settings with closedFormSteps := choose (·.closedFormSteps) }
  | .threshold => { settings with threshold := choose (·.threshold) }
  | .narrowSpan => { settings with narrowSpan := choose (·.narrowSpan) }
  | .narrowPadding => { settings with narrowPadding := choose (·.narrowPadding) }
  | .paddingRatio => { settings with paddingRatio := choose (·.paddingRatio) }
  | .closedFormMinPadding =>
    { settings with closedFormMinPadding := choose (·.closedFormMinPadding) }
  | .closedFormPaddingRatio =>
    { settings with closedFormPaddingRatio := choose (·.closedFormPaddingRatio) }
  | .defaultDomain => { settings with defaultDomain := choose (·.defaultDomain) }
  | .closedFormDefaultDomain =>
    { settings with closedFormDefaultDomain := choose (·.closedFormDefaultDomain) }
  | .areaDigits => { settings with areaDigits := choose (·.areaDigits) }
  | .maxDepth => { settings with maxDepth := choose (·.maxDepth) }
  | .maxNodes => { settings with maxNodes := choose (·.maxNodes) }

theorem take_false (settings other : Settings) (setting : Setting) :
    settings.take other false setting = settings := by
  cases setting <;> rfl

/-- Taking all settings in order, as far as they are kept, changes the defaults to these. -/
theorem foldl_take (settings : Settings) (keep : Setting → Bool) :
    Setting.all.foldl (fun base setting => base.take settings (keep setting) setting) {} =
      settings.overlay keep :=
  rfl

section Restore

variable {settings : Settings} {keep : Setting → Bool}
  (readable : ∀ x ∈ settings.floats, (ofFloat x).float? = some x)

include readable

/-- A setting is restored from its stored value. -/
theorem restore?_stored (base : Settings) (setting : Setting) :
    base.restore? setting (settings.stored setting) = some (base.take settings true setting) := by
  have number {x : Float} (member : x ∈ settings.floats) (change : Float → Settings) :
      (ofFloat x).float?.map change = some (change x) := by
    rw [readable x member, Option.map_some]
  have word (w : UInt64) (change : UInt64 → Settings) :
      (word? (ofNat w.toNat)).map change = some (change w) := by
    rw [word?, natBelow?_ofNat w.toNat_lt, Option.map_some, UInt64.ofNat_toNat, Option.map_some]
  have window {interval : Interval} (lower : interval.lower ∈ settings.floats)
      (upper : interval.upper ∈ settings.floats) (change : Interval → Settings) :
      (Interval.ofJson? interval.toJson).map change = some (change interval) := by
    rw [Interval.ofJson?_toJson (readable _ lower) (readable _ upper), Option.map_some]
  cases setting with
  | searchSteps | closedFormSteps | maxDepth | maxNodes => exact word _ _
  | defaultDomain | closedFormDefaultDomain =>
    exact window (by simp [floats]) (by simp [floats]) _
  | areaDigits =>
    change ((ofNat settings.areaDigits.toNat).natBelow? UInt32.size).map _ = _
    rw [natBelow?_ofNat settings.areaDigits.toNat_lt, Option.map_some, UInt32.ofNat_toNat]
    rfl
  | searchMin | searchMax | threshold | narrowSpan | narrowPadding | paddingRatio
    | closedFormMinPadding | closedFormPaddingRatio => exact number (by simp [floats]) _

theorem restoreAll?_stored (order : List Setting) (base : Settings) :
    base.restoreAll? (order.map fun setting =>
        (setting, if keep setting then some (settings.stored setting) else none)) =
      some (order.foldl (fun base setting => base.take settings (keep setting) setting) base) := by
  induction order generalizing base with
  | nil => rfl
  | cons setting order ih =>
    rw [List.map_cons, List.foldl_cons]
    cases kept : keep setting with
    | true =>
      rw [if_pos rfl, restoreAll?, restore?_stored readable]
      exact ih _
    | false =>
      rw [if_neg Bool.false_ne_true, restoreAll?, take_false]
      exact ih _

end Restore

/-! ## All settings -/

section Kept

variable (settings : Settings) (keep : Setting → Bool)

theorem nodup_membersKept : ((settings.membersKept keep).map Prod.fst).Nodup := by
  rw [membersKept, List.map_map]
  exact Setting.nodup_names.sublist (List.filter_sublist.map Setting.name)

/-- Of the members that are kept, a setting has its stored value under its name. -/
theorem lookup_membersKept (setting : Setting) :
    (settings.membersKept keep).lookup setting.name =
      if keep setting then some (settings.stored setting) else none := by
  cases kept : keep setting with
  | true =>
    rw [if_pos rfl]
    refine lookup_of_mem (settings.nodup_membersKept keep) (List.mem_map.mpr ⟨setting, ?_, rfl⟩)
    exact List.mem_filter.mpr ⟨Setting.mem_all setting, kept⟩
  | false =>
    rw [if_neg Bool.false_ne_true, List.lookup_eq_none_iff]
    intro member inside
    obtain ⟨other, kept', rfl⟩ := List.mem_map.mp inside
    refine bne_iff_ne.mpr fun same => ?_
    rw [← Setting.name_injective same, List.mem_filter, kept] at kept'
    exact Bool.false_ne_true kept'.2

end Kept

/-- **Settings are restored from the members that are kept**, in any order and among others. -/
theorem ofJson?_ofMembers {settings : Settings} {keep : Setting → Bool}
    {extra members : List (String × Json)}
    (readable : ∀ x ∈ settings.floats, (ofFloat x).float? = some x)
    (unknown : ∀ member ∈ extra, member.1 ∉ Setting.all.map Setting.name)
    (shuffled : members.Perm (settings.membersKept keep ++ extra)) :
    ofJson? (.ofMembers members) = some (settings.overlay keep) := by
  have fields := fields?_ofMembers shuffled (settings.nodup_membersKept keep) unknown
  rw [List.map_map] at fields
  have values : (fun name => (settings.membersKept keep).lookup name) ∘ Setting.name =
      fun setting => if keep setting then some (settings.stored setting) else none :=
    funext (settings.lookup_membersKept keep)
  rw [ofJson?, fields, values]
  change restoreAll? {} (Setting.all.zip (Setting.all.map _)) = _
  rw [← List.map_prod_left_eq_zip, restoreAll?_stored readable, foldl_take]

theorem isWritable_stored (settings : Settings) (setting : Setting) :
    (settings.stored setting).IsWritable := by
  cases setting with
  | searchSteps | closedFormSteps | areaDigits | maxDepth | maxNodes => exact isWritable_ofNat _
  | defaultDomain | closedFormDefaultDomain => exact Interval.isWritable_toJson _
  | searchMin | searchMax | threshold | narrowSpan | narrowPadding | paddingRatio
    | closedFormMinPadding | closedFormPaddingRatio => exact isWritable_ofFloat _

theorem isWritable_toJson (settings : Settings) : settings.toJson.IsWritable := by
  refine isWritable_ofMembers fun member inside => ?_
  obtain ⟨setting, _, rfl⟩ := List.mem_map.mp inside
  exact settings.isWritable_stored setting

/-- **Stored settings are loaded again**, as far as they are there. From a text that spells some of
their members in any order and mixed with members of other names, the settings that are kept are
restored, and the others have their defaults. They are loaded if they can be used, and otherwise the
reason why not is given. -/
theorem load_of_spells (settings : Settings) (keep : Setting → Bool)
    (extra members : List (String × Json)) (text : String)
    (finite : ∀ x ∈ settings.floats, x.isFinite = true)
    (assumed : ∀ x ∈ settings.floats, IsReadBack x)
    (unknown : ∀ member ∈ extra, member.1 ∉ Setting.all.map Setting.name)
    (shuffled : members.Perm (settings.membersKept keep ++ extra))
    (spelled : SpellsPadded (.ofMembers members) text.toList) :
    (ofText? text).bind ofJson? = some (settings.overlay keep) ∧
      ((∀ setting, keep setting = true) → settings.overlay keep = settings) ∧
      ((settings.overlay keep).check = .ok () → load text = .ok (settings.overlay keep)) ∧
      (∀ error, (settings.overlay keep).check = .error error →
        load text = .error (.unusable error)) ∧
      (ofText? settings.toJson.compact).bind ofJson? = some settings := by
  have readable : ∀ x ∈ settings.floats, (ofFloat x).float? = some x :=
    fun x member => assumed x member (finite x member)
  have restored : (ofText? text).bind ofJson? = some (settings.overlay keep) := by
    rw [ofText?, ofChars?_of_spells spelled]
    exact ofJson?_ofMembers readable unknown shuffled
  refine ⟨restored, overlay_of_all, fun usable => ?_, fun error unusable => ?_, ?_⟩
  · simp only [load, restored, usable]
  · simp only [load, restored, unusable]
  · rw [ofText?_compact settings.isWritable_toJson]
    have complete : (Setting.all.map fun setting => (setting.name, settings.stored setting)).Perm
        (settings.membersKept (fun _ => true) ++ []) := by
      rw [List.append_nil]
      exact .refl _
    have none : ∀ member ∈ ([] : List (String × Json)), member.1 ∉ Setting.all.map Setting.name :=
      fun _ inside => (List.not_mem_nil inside).elim
    rw [Option.bind_some, toJson, ofJson?_ofMembers readable none complete,
      overlay_of_all fun _ => rfl]

/-- Settings with a negative zero, the least positive number and the greatest word. -/
def extreme : Settings :=
  { search := ⟨-0.0, 5e-324⟩, threshold := 1e-7, maxNodes := 18446744073709551615 }

theorem load_of_spells_extreme :
    let keep (setting : Setting) : Bool := setting != .threshold && setting != .areaDigits
    let extra : List (String × Json) :=
      [("colour", .array [.null, .ofMembers [("threshold", .ofString "high")]])]
    let record : Json := .ofMembers (extreme.membersKept keep ++ extra).reverse
    load record.compact = .ok { extreme with threshold := 1e-4 } := by
  intro keep extra record
  have writable : record.IsWritable := by
    refine isWritable_ofMembers fun member inside => ?_
    rcases List.mem_append.mp (List.mem_reverse.mp inside) with inside | inside
    · obtain ⟨setting, _, rfl⟩ := List.mem_map.mp inside
      exact extreme.isWritable_stored setting
    · cases List.mem_singleton.mp inside
      refine .array fun item member => ?_
      rcases List.mem_pair.mp member with rfl | rfl
      · exact .null
      · refine isWritable_ofMembers fun member inside => ?_
        cases List.mem_singleton.mp inside
        exact .string _
  exact (load_of_spells extreme keep extra _ record.compact (by decide +kernel) (by decide +kernel)
    (by decide) (List.reverse_perm _) (spellsPadded_compact writable)).2.2.1 (by decide +kernel)

end Settings

end Waveform
