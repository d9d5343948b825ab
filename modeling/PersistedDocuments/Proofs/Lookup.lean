import Mathlib.Data.List.Nodup

/-!
# Lists of named values

Looking up a name gives a value that stands under it. If the names are distinct, it gives every
value that does.
-/

namespace PersistedDocuments

variable {β : Type} {members : List (String × β)} {name : String} {value : β}

theorem mem_of_lookup_eq_some (found : members.lookup name = some value) :
    (name, value) ∈ members := by
  rcases List.lookup_eq_some_iff.1 found with ⟨before, after, same, _⟩
  rw [same]
  exact List.mem_append_right before List.mem_cons_self

theorem lookup_eq_none_of_not_mem (absent : name ∉ members.map Prod.fst) :
    members.lookup name = none := by
  rw [List.lookup_eq_none_iff]
  intro member present
  rw [bne_iff_ne]
  rintro rfl
  exact absent (List.mem_map.2 ⟨member, present, rfl⟩)

/-- Under distinct names every member is found by its name. -/
theorem lookup_eq_some_of_mem (distinct : (members.map Prod.fst).Nodup)
    (present : (name, value) ∈ members) : members.lookup name = some value := by
  cases found : members.lookup name with
  | none =>
      rw [List.lookup_eq_none_iff] at found
      exact absurd rfl (bne_iff_ne.1 (found _ present))
  | some other =>
      have same := List.inj_on_of_nodup_map distinct present (mem_of_lookup_eq_some found) rfl
      rw [(Prod.mk.inj same).2]

end PersistedDocuments
