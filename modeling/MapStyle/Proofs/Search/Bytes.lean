import Mathlib.Logic.Basic
import MapStyle.Expr.Search

/-!
# Searching characters by their bytes

The bytes that begin a character differ from those that go on with one, and no character's bytes
begin with all those of another.  So a search among the bytes of a text finds what a search among
its characters finds, and counting the characters before the match gives the match's place.
-/

set_option autoImplicit false

namespace MapStyle

/-! ## The bytes of characters -/

section Bytes

variable (c : Char) (cs ds : List Char)

@[simp] theorem utf8_nil : utf8 [] = [] := rfl

@[simp] theorem utf8_cons : utf8 (c :: cs) = String.utf8EncodeChar c ++ utf8 cs := rfl

@[simp] theorem utf8_append : utf8 (cs ++ ds) = utf8 cs ++ utf8 ds := List.flatMap_append

/-- A character has one byte that begins it, and it comes first. -/
theorem exists_bytes : ∃ first later, String.utf8EncodeChar c = first :: later ∧
    first.IsUTF8FirstByte ∧ ∀ b ∈ later, ¬ b.IsUTF8FirstByte := by
  obtain ⟨first, later, bytes⟩ := List.exists_cons_of_ne_nil (String.utf8EncodeChar_ne_nil (c := c))
  refine ⟨first, later, bytes, ?_, ?_⟩
  · have begins := @UInt8.isUTF8FirstByte_getElem_utf8EncodeChar c 0 (by simp [bytes])
    simp only [bytes, List.getElem_cons_zero] at begins
    exact begins.mpr trivial
  · intro b mem
    obtain ⟨i, inside, rfl⟩ := List.getElem_of_mem mem
    have begins := @UInt8.isUTF8FirstByte_getElem_utf8EncodeChar c (i + 1)
      (by simpa [bytes] using inside)
    simp only [bytes, List.getElem_cons_succ] at begins
    exact begins.not.mpr (Nat.succ_ne_zero i)

theorem byteOffset_eq (skip : Nat) : byteOffset cs skip = (utf8 (cs.take skip)).length := by
  induction cs generalizing skip with
  | nil => simp [byteOffset]
  | cons c cs ih =>
    cases skip with
    | zero => rfl
    | succ skip => simp [byteOffset, ih skip]

theorem utf8_take_append_drop (i : Nat) : utf8 (cs.take i) ++ utf8 (cs.drop i) = utf8 cs := by
  rw [← utf8_append, List.take_append_drop]

theorem take_utf8 (i : Nat) : (utf8 cs).take (utf8 (cs.take i)).length = utf8 (cs.take i) := by
  rw [← utf8_take_append_drop cs i, List.take_left]

theorem drop_utf8 (i : Nat) : (utf8 cs).drop (utf8 (cs.take i)).length = utf8 (cs.drop i) := by
  rw [← utf8_take_append_drop cs i, List.drop_left]

theorem countCharacters_utf8 : countCharacters (utf8 cs) = cs.length := by
  unfold countCharacters
  induction cs with
  | nil => rfl
  | cons c cs ih =>
    obtain ⟨first, later, bytes, begins, goOn⟩ := exists_bytes c
    have none : later.countP (fun b => decide b.IsUTF8FirstByte) = 0 := by
      rw [List.countP_eq_zero]
      intro b mem
      simpa using goOn b mem
    rw [utf8_cons, List.countP_append, ih, bytes, List.countP_cons, none, decide_eq_true begins]
    simp [Nat.add_comm]

end Bytes

theorem eq_of_bytes {c d : Char} {as bs : List UInt8}
    (same : String.utf8EncodeChar c ++ as = String.utf8EncodeChar d ++ bs) : c = d := by
  have decoded := congrArg (fun bytes => bytes.toByteArray.utf8DecodeChar? 0) same
  simp only [List.toByteArray_append, ByteArray.utf8DecodeChar?_utf8EncodeChar_append] at decoded
  exact Option.some.inj decoded

/-- Bytes of characters begin with bytes of a word where the characters begin with the word. -/
theorem prefix_utf8_iff {word cs : List Char} : utf8 word <+: utf8 cs ↔ word <+: cs := by
  constructor
  · intro starts
    induction word generalizing cs with
    | nil => exact List.nil_prefix
    | cons w word ih =>
      obtain ⟨rest, bytes⟩ := starts
      cases cs with
      | nil =>
        have empty := congrArg List.length bytes
        have some := w.utf8Size_pos
        simp at empty
        omega
      | cons c cs =>
        rw [utf8_cons, utf8_cons, List.append_assoc] at bytes
        obtain rfl := eq_of_bytes bytes
        have tails : utf8 word <+: utf8 cs := ⟨rest, List.append_cancel_left bytes⟩
        exact List.cons_prefix_cons.mpr ⟨rfl, ih tails⟩
  · rintro ⟨rest, rfl⟩
    rw [utf8_append]
    exact List.prefix_append _ _

/-! ## Searches -/

section Words

variable {α : Type} [BEq α]

theorem findWord_le {word as : List α} {i j : Nat} (found : findWord word as i = some j) :
    j ≤ i + as.length := by
  induction as generalizing i with
  | nil =>
    rw [findWord] at found
    split at found
    · cases found
      exact Nat.le_refl _
    · cases found
  | cons a as ih =>
    rw [findWord] at found
    split at found
    · cases found
      exact Nat.le_add_right _ _
    · have := ih found
      rw [List.length_cons]
      omega

variable [LawfulBEq α]

theorem findWord_starting {word as : List α} (starts : word <+: as) (i : Nat) :
    findWord word as i = some i := by
  cases as with
  | nil =>
    obtain rfl := List.prefix_nil.mp starts
    rfl
  | cons a as => rw [findWord, if_pos (List.isPrefixOf_iff_prefix.mpr starts)]

theorem findWord_passing {word as : List α} {a : α} (other : ¬ word <+: a :: as) (i : Nat) :
    findWord word (a :: as) i = findWord word as (i + 1) := by
  rw [findWord, if_neg (List.isPrefixOf_iff_prefix.not.mpr other)]

theorem findWord_append {first : α} {word passed : List α} (other : ∀ a ∈ passed, a ≠ first)
    (as : List α) (i : Nat) :
    findWord (first :: word) (passed ++ as) i =
      findWord (first :: word) as (i + passed.length) := by
  induction passed generalizing i with
  | nil => rfl
  | cons a passed ih =>
    have differs : ¬ first :: word <+: a :: (passed ++ as) := by
      intro starts
      exact other a List.mem_cons_self (List.cons_prefix_cons.mp starts).1.symm
    have later := ih (fun b mem => other b (List.mem_cons_of_mem a mem)) (i + 1)
    rw [List.cons_append, findWord_passing differs, later, List.length_cons]
    congr 1
    omega

end Words

/-- A character at which the word does not begin is passed over with all its bytes. -/
theorem findWord_utf8_cons {w c : Char} {word rest : List Char} (other : ¬ w :: word <+: c :: rest)
    (i : Nat) : findWord (utf8 (w :: word)) (utf8 (c :: rest)) i =
      findWord (utf8 (w :: word)) (utf8 rest) (i + (String.utf8EncodeChar c).length) := by
  obtain ⟨first, later, wordBytes, begins, _⟩ := exists_bytes w
  obtain ⟨head, tail, bytes, _, goOn⟩ := exists_bytes c
  have differs : ∀ b ∈ tail, b ≠ first := by
    rintro b mem rfl
    exact goOn b mem begins
  have other := prefix_utf8_iff.not.mpr other
  rw [utf8_cons c, bytes, List.cons_append] at other ⊢
  rw [findWord_passing other, utf8_cons, wordBytes, List.cons_append, findWord_append differs,
    List.length_cons]
  congr 1
  omega

/-- The bytes of a word are found where its characters are. -/
theorem findWord_utf8 (word before rest : List Char) :
    findWord (utf8 word) (utf8 rest) (utf8 before).length =
      (findWord word rest before.length).map fun i => (utf8 ((before ++ rest).take i)).length := by
  -- what has been passed over stays in front, so that places in bytes and characters correspond
  induction rest generalizing before with
  | nil =>
    cases word with
    | nil => simp [findWord]
    | cons w word =>
      obtain ⟨first, later, bytes, _⟩ := exists_bytes w
      simp [findWord, bytes]
  | cons c rest ih =>
    by_cases starts : word <+: c :: rest
    · rw [findWord_starting (prefix_utf8_iff.mpr starts), findWord_starting starts]
      simp
    · have next := ih (before ++ [c])
      rw [utf8_append, utf8_cons, utf8_nil, List.append_nil, List.length_append, List.append_assoc,
        List.length_append, List.length_singleton, List.singleton_append] at next
      cases word with
      | nil => exact absurd List.nil_prefix starts
      | cons w word => rw [findWord_passing starts, findWord_utf8_cons starts, next]

variable {ν : Type} [Scalar ν]

open scoped Scalar in
/-- A search in text is a search among its characters. -/
theorem indexInText_eq (text word : String) (start : ν) : indexInText text word start =
    findWord word.toList (text.toList.drop (Scalar.toIndex (Scalar.max start 0)))
      (min (Scalar.toIndex (Scalar.max start 0)) text.toList.length) := by
  generalize skipped : Scalar.toIndex (Scalar.max start 0) = skip
  unfold indexInText
  dsimp only
  rw [skipped, byteOffset_eq, drop_utf8, findWord_utf8, Option.map_map, List.take_append_drop,
    List.length_take]
  cases found : findWord word.toList (text.toList.drop skip) (min skip text.toList.length) with
  | none => rfl
  | some i =>
    have inside := findWord_le found
    rw [List.length_drop] at inside
    rw [Option.map_some, Function.comp_apply, take_utf8, countCharacters_utf8, List.length_take]
    congr 1
    omega

end MapStyle
