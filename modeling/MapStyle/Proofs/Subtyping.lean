import MapStyle.Value.Basic

/-!
# Types and the values they stand for

Whether a type stands for another is not transitive: `array<string>` accepts `array<value, 0>`, and
that accepts `array<number, 0>`.  It is transitive down to the types of values, because an empty
array has no item type but `value`.
-/

set_option autoImplicit false

namespace MapStyle

namespace Ty

/-- Every array type of length zero in a type has the item type `value`. -/
def EmptyIsUntyped : Ty → Prop
  | array item length => (length = some 0 → item = value) ∧ item.EmptyIsUntyped
  | _ => True

theorem accepts_self (t : Ty) : t.accepts t = true := by
  induction t with
  | array item length ih => simp [accepts, ih]
  | _ => rfl

@[simp] theorem accepts_error (t : Ty) : t.accepts error = true := by
  cases t <;> rfl

theorem eq_error_of_error_accepts {t : Ty} (h : error.accepts t = true) : t = error := by
  cases t <;> simp [accepts] at h ⊢

/-- Nothing but an array type or an expression that always fails stands for an array. -/
theorem eq_array_of_array_accepts {item t : Ty} {length : Option Nat}
    (h : (array item length).accepts t = true) : t = error ∨ ∃ u n, t = array u n := by
  cases t with
  | error => exact Or.inl rfl
  | array u n => exact Or.inr ⟨u, n, rfl⟩
  | _ => simp [accepts] at h

theorem array_accepts_array {item u : Ty} {length n : Option Nat} :
    (array item length).accepts (array u n) = true ↔
      ((n = some 0 ∧ u = value) ∨ item.accepts u = true) ∧ (length = none ∨ length = n) := by
  simp [accepts]

theorem value_accepts_of_accepts {t u : Ty} (upper : value.accepts t = true)
    (lower : t.accepts u = true) : value.accepts u = true := by
  cases u <;> cases t <;> simp_all [accepts, isPlainMember]

/-- A type other than `value` and the array types stands for itself alone. -/
theorem eq_of_accepts {t u : Ty} (h : t.accepts u = true) (notValue : t ≠ value)
    (notArray : ∀ item n, t ≠ array item n) : u = error ∨ t = u := by
  cases t <;> cases u <;> simp_all [accepts]

theorem accepts_trans {t u w : Ty} (upper : t.accepts u = true) (lower : u.accepts w = true)
    (untyped : w.EmptyIsUntyped) : t.accepts w = true := by
  induction t generalizing u w with
  | array item length ih =>
    rcases eq_array_of_array_accepts upper with rfl | ⟨x, m, rfl⟩
    · simp [eq_error_of_error_accepts lower]
    rcases eq_array_of_array_accepts lower with rfl | ⟨y, n, rfl⟩
    · simp
    obtain ⟨upperItem, upperLength⟩ := array_accepts_array.mp upper
    obtain ⟨lowerItem, lowerLength⟩ := array_accepts_array.mp lower
    refine array_accepts_array.mpr ⟨?_, ?_⟩
    · rcases upperItem with ⟨rfl, rfl⟩ | upperItem
      · have empty : n = some 0 := by simpa [eq_comm] using lowerLength
        exact Or.inl ⟨empty, untyped.1 empty⟩
      · rcases lowerItem with lowerItem | lowerItem
        · exact Or.inl lowerItem
        · exact Or.inr (ih upperItem lowerItem untyped.2)
    · rcases upperLength with rfl | rfl
      · exact Or.inl rfl
      · exact lowerLength
  | value => exact value_accepts_of_accepts upper lower
  | _ =>
    rcases eq_of_accepts upper (by simp) (by simp) with rfl | rfl
    · simp [eq_error_of_error_accepts lower]
    · exact lower

end Ty

namespace Value

variable {ν : Type}

theorem commonType_mem (ts : List Ty) : commonType ts ∈ ts ∨ commonType ts = .value := by
  cases ts with
  | nil => exact Or.inr rfl
  | cons t ts =>
    rw [commonType]
    split
    · exact Or.inl (by simp)
    · exact Or.inr rfl

mutual

theorem ty_emptyIsUntyped : (v : Value ν) → v.ty.EmptyIsUntyped
  | .array items => by
    rw [ty]
    refine ⟨fun empty => ?_, ?_⟩
    · have noItems : items = [] := by simpa using empty
      simp [noItems, itemTypes, commonType]
    · rcases commonType_mem (itemTypes items) with mem | eq
      · exact itemTypes_emptyIsUntyped items _ mem
      · rw [eq]; trivial
  | .null | .boolean _ | .number _ | .string _ | .color _ | .collator _ | .formatted _ | .image _
  | .padding _ | .numberArray _ | .colorArray _ | .object _ => trivial
termination_by structural v => v

theorem itemTypes_emptyIsUntyped : (vs : List (Value ν)) → ∀ t ∈ itemTypes vs, t.EmptyIsUntyped
  | [] => by simp [itemTypes]
  | v :: vs => by
    intro t mem
    rcases List.mem_cons.mp mem with rfl | mem
    · exact ty_emptyIsUntyped v
    · exact itemTypes_emptyIsUntyped vs t mem
termination_by structural vs => vs

end

/-- A value that conforms to a type conforms to every type that stands for it. -/
theorem conforms_of_accepts {t u : Ty} {v : Value ν} (upper : t.accepts u = true)
    (lower : u.accepts v.ty = true) : t.accepts v.ty = true :=
  Ty.accepts_trans upper lower v.ty_emptyIsUntyped

end Value

end MapStyle
