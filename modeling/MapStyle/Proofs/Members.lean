import MapStyle.Json.Basic

/-!
# Members

How members found by their key come from the members that a list has, and how mapping the values and
adding a member change what is found.
-/

set_option autoImplicit false

namespace MapStyle

variable {α β : Type}

theorem mem_of_lookup {key : String} {a : α} {members : List (String × α)}
    (found : members.lookup key = some a) : (key, a) ∈ members := by
  obtain ⟨before, after, rfl, _⟩ := List.lookup_eq_some_iff.mp found
  simp

theorem lookup_map_value (f : α → β) (members : List (String × α)) (key : String) :
    (members.map fun m => (m.1, f m.2)).lookup key = (members.lookup key).map f := by
  induction members with
  | nil => rfl
  | cons m rest ih =>
    obtain ⟨k, a⟩ := m
    simp only [List.map_cons, List.lookup_cons, ih]
    cases key == k <;> rfl

theorem mem_insertMember {key : String} {a : α} {members : List (String × α)} {m : String × α}
    (mem : m ∈ insertMember key a members) : m = (key, a) ∨ m ∈ members := by
  induction members with
  | nil => exact Or.inl (by simpa [insertMember] using mem)
  | cons head rest ih =>
    obtain ⟨k, b⟩ := head
    rw [insertMember] at mem
    split at mem
    · simpa using mem
    · split at mem
      · rcases List.mem_cons.mp mem with rfl | mem
        · exact Or.inl rfl
        · exact Or.inr (List.mem_cons_of_mem _ mem)
      · rcases List.mem_cons.mp mem with rfl | mem
        · exact Or.inr (List.mem_cons_self ..)
        · rcases ih mem with rfl | mem
          · exact Or.inl rfl
          · exact Or.inr (List.mem_cons_of_mem _ mem)

theorem mem_of_mem_sortMembers {members : List (String × α)} {m : String × α}
    (mem : m ∈ sortMembers members) : m ∈ members := by
  have each : ∀ (rest sorted : List (String × α)),
      m ∈ rest.foldl (fun sorted m => insertMember m.1 m.2 sorted) sorted →
        m ∈ sorted ∨ m ∈ rest := by
    intro rest
    induction rest with
    | nil => exact fun sorted mem => Or.inl mem
    | cons head rest ih =>
      intro sorted mem
      rcases ih _ mem with mem | mem
      · rcases mem_insertMember mem with same | mem
        · exact Or.inr (same ▸ List.mem_cons_self)
        · exact Or.inl mem
      · exact Or.inr (List.mem_cons_of_mem _ mem)
  exact (each members [] mem).resolve_left List.not_mem_nil

theorem lookup_cons_eq_ite (k key : String) (a : α) (members : List (String × α)) :
    ((key, a) :: members).lookup k = if k = key then some a else members.lookup k := by
  rw [List.lookup_cons]
  by_cases same : k = key
  · simp [same]
  · have differs : (k == key) = false := by simpa using same
    rw [differs, if_neg same]

/-- After a member is added, its key finds it and every other key what it found before. -/
theorem lookup_insertMember (key : String) (a : α) (members : List (String × α)) (k : String) :
    (insertMember key a members).lookup k = if k = key then some a else members.lookup k := by
  induction members with
  | nil => exact lookup_cons_eq_ite k key a []
  | cons head rest ih =>
    obtain ⟨k', b⟩ := head
    rw [insertMember]
    split
    · rw [lookup_cons_eq_ite]
    · split
      · rename_i same
        subst same
        rw [lookup_cons_eq_ite, lookup_cons_eq_ite]
        by_cases eq : k = key
        · rw [if_pos eq, if_pos eq]
        · rw [if_neg eq, if_neg eq, if_neg eq]
      · rename_i other
        rw [lookup_cons_eq_ite, lookup_cons_eq_ite, ih]
        by_cases eq : k = key
        · have different : k ≠ k' := eq ▸ other
          simp only [if_pos eq, if_neg different]
        · simp only [if_neg eq]

end MapStyle
