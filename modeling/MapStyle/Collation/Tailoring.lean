import MapStyle.Collation.Root
import MapStyle.Locale.Tag

/-!
# Tailorings

A locale departs from the root order by giving some letters, or groups of letters, elements of their
own, and perhaps by putting capitals first.  Where several groups start at one place the longest
one counts.  Accented letters are looked up as letter and accents.
-/

set_option autoImplicit false

namespace MapStyle

/-- The departures of a locale from the root order. -/
structure Tailoring where
  groups : List (List Char × List CollationElement)
  upperFirst : Bool

namespace Tailoring

def root : Tailoring := ⟨[], false⟩

/-- A group with one element; `shape` orders the spellings of one letter. -/
def group (spelling : String) (primary secondary shape : Nat) (letterCase : LetterCase) :
    List Char × List CollationElement :=
  (decompose spelling.toList, [⟨primary, secondary, shape, letterCase⟩])

/-- A small letter and its capital as one letter. -/
def pair (lower upper : String) (primary secondary : Nat) :
    List (List Char × List CollationElement) :=
  [group lower primary secondary 2 .lower, group upper primary secondary 3 .upper]

def after (c : Char) (places : Nat) : Nat := Weight.ofChar c + places

/-- The two spellings of the last letter of Danish and Norwegian; the double letter has an accent
weight of its own or shares that of the single one. -/
def ringed (primary double : Nat) : List (List Char × List CollationElement) :=
  pair "å" "Å" primary Weight.plain ++
    [group "aa" primary double 4 .lower, group "Aa" primary double 5 .mixed,
      group "AA" primary double 6 .upper]

/-- The letters after `z` in Danish and Norwegian, with the accent weight of the double letter. -/
def danishLetters (double : Nat) : List (List Char × List CollationElement) :=
  pair "ü" "Ü" (after 'y' 0) Weight.beside ++
    pair "æ" "Æ" (after 'z' 1) Weight.plain ++ pair "ä" "Ä" (after 'z' 1) Weight.beside ++
    pair "ø" "Ø" (after 'z' 2) Weight.plain ++ pair "ö" "Ö" (after 'z' 2) Weight.beside ++
    ringed (after 'z' 3) double

def swedishLetters : List (List Char × List CollationElement) :=
  pair "ü" "Ü" (after 'y' 0) Weight.beside ++
    pair "å" "Å" (after 'z' 1) Weight.plain ++
    pair "ä" "Ä" (after 'z' 2) Weight.plain ++ pair "æ" "Æ" (after 'z' 2) Weight.beside ++
    pair "ö" "Ö" (after 'z' 3) Weight.plain ++ pair "ø" "Ø" (after 'z' 3) Weight.beside

/-- Danish: capitals come first, and the double letter is a shape of the single one. -/
def danish : Tailoring := ⟨danishLetters Weight.plain, true⟩

/-- Norwegian: small letters come first, and the double letter differs from the single one as an
accent does. -/
def norwegian : Tailoring := ⟨danishLetters Weight.beside, false⟩

def finnish : Tailoring := ⟨swedishLetters, false⟩

/-- Swedish: the letters of Finnish, and one more spelling of the last. -/
def swedish : Tailoring :=
  ⟨swedishLetters ++ pair "ô" "Ô" (after 'z' 3) (Weight.beside + 1), false⟩

def spanish : Tailoring := ⟨pair "ñ" "Ñ" (after 'n' 1) Weight.plain, false⟩

def czech : Tailoring :=
  ⟨pair "č" "Č" (after 'c' 1) Weight.plain ++
    [group "ch" (after 'h' 1) Weight.plain 2 .lower, group "cH" (after 'h' 1) Weight.plain 3 .mixed,
      group "Ch" (after 'h' 1) Weight.plain 4 .mixed,
      group "CH" (after 'h' 1) Weight.plain 5 .upper] ++
    pair "ř" "Ř" (after 'r' 1) Weight.plain ++ pair "š" "Š" (after 's' 1) Weight.plain ++
    pair "ž" "Ž" (after 'z' 1) Weight.plain, false⟩

/-- Capital `I` belongs to the letter without a dot, which stands before `i`. -/
def turkish : Tailoring :=
  ⟨pair "ç" "Ç" (after 'c' 1) Weight.plain ++ pair "ğ" "Ğ" (after 'g' 1) Weight.plain ++
    pair "ı" "I" (after 'h' 1) Weight.plain ++
    [group "İ" (after 'i' 0) Weight.plain 3 .upper] ++
    pair "ö" "Ö" (after 'o' 1) Weight.plain ++ pair "ş" "Ş" (after 's' 1) Weight.plain ++
    pair "ü" "Ü" (after 'u' 1) Weight.plain, false⟩

/-- The printable characters by number, the order of plain character data. -/
def numeric : Tailoring :=
  ⟨(List.range 96).map fun i =>
    let c := Char.ofNat (32 + i)
    ([c], [.ofLetter (after 'a' (i + 1)) Weight.plain c.isUpper]), false⟩

def ofTag (t : LocaleTag) : Tailoring :=
  match t.text with
  | "da" => danish
  | "no" => norwegian
  | "sv" => swedish
  | "fi" => finnish
  | "es" => spanish
  | "cs" => czech
  | "tr" => turkish
  | "en-US-posix" => numeric
  | _ => root

def longestGroup? (t : Tailoring) (cs : List Char) : Option (List Char × List CollationElement) :=
  t.groups.foldl (fun best g =>
    if g.1.isPrefixOf cs && best.all fun b => b.1.length < g.1.length then some g else best) none

/-- The elements of a text in which accented letters are letter and accents; `skip` characters
belong to the group before them. -/
def elementsFrom (t : Tailoring) : Nat → List Char → List CollationElement
  | _, [] => []
  | skip + 1, _ :: cs => t.elementsFrom skip cs
  | 0, c :: cs =>
    match t.longestGroup? (c :: cs) with
    | some (spelling, es) => es ++ t.elementsFrom (spelling.length - 1) cs
    | none => rootElements c ++ t.elementsFrom 0 cs

def elements (t : Tailoring) (s : String) : List CollationElement :=
  t.elementsFrom 0 (decompose s.toList)

def compareText (t : Tailoring) (s : Sensitivity) (a b : String) : Ordering :=
  compare (CollationElement.sortKey t.upperFirst s (t.elements a))
    (CollationElement.sortKey t.upperFirst s (t.elements b))

end Tailoring

end MapStyle
