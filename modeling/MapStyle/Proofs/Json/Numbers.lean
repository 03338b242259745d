import MapStyle.Json.Record
import MapStyle.Proofs.Members

/-!
# The numbers of documents

A document is written with digits, so none of its numbers is a value that is no number, and what is
read out of it equals itself.
-/

set_option autoImplicit false

namespace MapStyle

variable {ν : Type} [Scalar ν]

/-- Documents in which every number equals itself. -/
inductive Json.NaNFree : Json ν → Prop
  | null : NaNFree .null
  | bool (b : Bool) : NaNFree (.bool b)
  | int {n : Int} : ((Scalar.ofInt n : ν) == Scalar.ofInt n) = true → NaNFree (.int n)
  | float {x : ν} : (x == x) = true → NaNFree (.float x)
  | str (s : String) : NaNFree (.str s)
  | arr {items : List (Json ν)} : (∀ j ∈ items, NaNFree j) → NaNFree (.arr items)
  | obj {members : List (String × Json ν)} : (∀ m ∈ members, NaNFree m.2) → NaNFree (.obj members)

namespace Json.NaNFree

theorem number {j : Json ν} (free : j.NaNFree) {x : ν} (read : j.asNumber? = some x) :
    (x == x) = true := by
  cases free with
  | int same =>
    cases Option.some.inj read
    exact same
  | float same =>
    cases Option.some.inj read
    exact same
  | _ => cases read

theorem member {j v : Json ν} (free : j.NaNFree) {key : String} (found : j.get? key = some v) :
    v.NaNFree := by
  cases free with
  | obj members => exact members _ (mem_of_lookup found)
  | _ => cases found

theorem items {js : List (Json ν)} (free : NaNFree (.arr js)) : ∀ j ∈ js, NaNFree j := by
  cases free with
  | arr each => exact each

theorem members {ms : List (String × Json ν)} (free : NaNFree (.obj ms)) :
    ∀ m ∈ ms, NaNFree m.2 := by
  cases free with
  | obj each => exact each

theorem field {j : Json ν} (free : j.NaNFree) {names : List String}
    {fields : List (Option (Json ν))} (found : j.fields? names = some fields) {v : Json ν}
    (mem : some v ∈ fields) : v.NaNFree := by
  cases free with
  | obj members =>
    cases Option.some.inj found
    obtain ⟨name, _, isMember⟩ := List.mem_map.mp mem
    exact members _ (mem_of_lookup isMember)
  | arr items =>
    simp only [Json.fields?, Option.ite_none_right_eq_some, Option.some.injEq] at found
    obtain ⟨_, rfl⟩ := found
    rcases List.mem_append.mp mem with mem | mem
    · obtain ⟨item, isItem, same⟩ := List.mem_map.mp mem
      exact Option.some.inj same ▸ items item isItem
    · cases List.eq_of_mem_replicate mem
  | _ => cases found

end Json.NaNFree

end MapStyle
