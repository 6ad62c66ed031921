import Mathlib.Data.List.Perm.Basic
import Waveform.Json.Record
import Waveform.Proofs.Json.Writing

/-!
# Fields of records

The fields of a record are found by name: the order of the members of an object does not matter, nor
do members with other names (`fields?_ofMembers`). A field without a member has no value.
-/

set_option autoImplicit false

namespace Waveform.Json

/-! ## Results for all items of a list -/

section MapM

variable {α β : Type} {items : List α} {read : α → Option β}

theorem mapM_eq_some {value : α → β} (all : ∀ item ∈ items, read item = some (value item)) :
    items.mapM read = some (items.map value) := by
  induction items with
  | nil => rfl
  | cons item items ih =>
    obtain ⟨first, rest⟩ := List.forall_mem_cons.mp all
    rw [List.mapM_cons, first, ih rest]
    rfl

/-- Items that are read as they are, if they are good, are read together if all are good. -/
theorem mapM_eq_ite {write : β → α} {good : β → Bool} {values : List β}
    (each : ∀ value ∈ values, read (write value) = if good value then some value else none) :
    (values.map write).mapM read = if values.all good then some values else none := by
  induction values with
  | nil => rfl
  | cons value values ih =>
    obtain ⟨first, rest⟩ := List.forall_mem_cons.mp each
    rw [List.map_cons, List.mapM_cons, first, ih rest, List.all_cons]
    cases good value <;> cases values.all good <;> rfl

end MapM

/-! ## Members -/

section Members

variable {known extra members : List (String × Json)} {name : String}

/-- Of members with different names, the one that has a name is found under it. -/
theorem filter_eq_lookup (once : (known.map Prod.fst).Nodup) (name : String) :
    known.filter (fun member => member.1 == name) =
      ((known.lookup name).map fun value => (name, value)).toList := by
  induction known with
  | nil => rfl
  | cons member known ih =>
    obtain ⟨other, value⟩ := member
    obtain ⟨fresh, once⟩ := List.nodup_cons.mp once
    by_cases same : name = other
    · subst same
      have rest : known.filter (fun member => member.1 == name) = [] := by
        refine List.filter_eq_nil_iff.mpr fun member inside equal => fresh ?_
        exact List.mem_map.mpr ⟨member, inside, beq_iff_eq.mp equal⟩
      rw [List.filter_cons, rest, List.lookup_cons_self, if_pos (beq_self_eq_true name)]
      rfl
    · have different : (name == other) = false := beq_eq_false_iff_ne.mpr same
      have different' : ¬ (other == name) = true := fun equal => same (beq_iff_eq.mp equal).symm
      rw [List.filter_cons, if_neg different', ih once, List.lookup_cons, different]

theorem lookup_of_mem {value : Json} (once : (known.map Prod.fst).Nodup)
    (member : (name, value) ∈ known) : known.lookup name = some value := by
  have found : (name, value) ∈ known.filter fun member => member.1 == name :=
    List.mem_filter.mpr ⟨member, beq_self_eq_true name⟩
  rw [filter_eq_lookup once] at found
  cases result : known.lookup name with
  | none =>
    rw [result] at found
    cases found
  | some other =>
    rw [result] at found
    cases List.mem_singleton.mp found
    rfl

/-- A name is found among known members, in any order and mixed with others. -/
theorem member?_of_perm (shuffled : members.Perm (known ++ extra))
    (once : (known.map Prod.fst).Nodup) (other : ∀ member ∈ extra, member.1 ≠ name) :
    member? (members.map fun (name, value) => (some name, value)) name =
      some (known.lookup name) := by
  have none : extra.filter (fun member => member.1 == name) = [] :=
    List.filter_eq_nil_iff.mpr fun member inside equal => other member inside (beq_iff_eq.mp equal)
  have found := shuffled.filter fun member => member.1 == name
  rw [List.filter_append, none, List.append_nil, filter_eq_lookup once] at found
  have same : (members.map fun (name, value) => (some name, value)).filter
      (fun member => member.1 == some name) =
        (members.filter fun member => member.1 == name).map fun (name, value) =>
          (some name, value) := by
    rw [List.filter_map]
    rfl
  rw [member?, same]
  cases result : known.lookup name with
  | none =>
    rw [result] at found
    rw [found.eq_nil]
    rfl
  | some value =>
    rw [result] at found
    rw [found.eq_singleton]
    rfl

/-- **The fields of a record are those of its known members**, in any order and among others. -/
theorem fields?_ofMembers {names : List String} (shuffled : members.Perm (known ++ extra))
    (once : (known.map Prod.fst).Nodup) (other : ∀ member ∈ extra, member.1 ∉ names) :
    (ofMembers members).fields? names = some (names.map fun name => known.lookup name) := by
  have all : (members.map fun (name, value) => (some name, value)).all
      (fun member : Option String × Json => member.1.isSome) = true := by
    simp
  rw [ofMembers, fields?, if_pos all]
  refine mapM_eq_some fun name inside => member?_of_perm shuffled once fun member inside' same => ?_
  exact other member inside' (same ▸ inside)

/-- The fields of a record that was just made. -/
theorem fields?_ofMembers_self (once : (known.map Prod.fst).Nodup) :
    (ofMembers known).fields? (known.map Prod.fst) =
      some (known.map fun member => some member.2) := by
  have complete : known.Perm (known ++ []) := by rw [List.append_nil]
  rw [fields?_ofMembers complete once fun _ none => (List.not_mem_nil none).elim, List.map_map]
  exact congrArg some (List.map_congr_left fun member inside => lookup_of_mem once inside)

end Members

end Waveform.Json
