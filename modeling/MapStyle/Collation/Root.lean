import MapStyle.Collation.Element

/-!
# The root order

The order of characters where no locale says otherwise: blanks, punctuation, digits, then the Latin
letters, small before capital.  An accented letter is its letter followed by its accents; the
ligatures are their letters with a mark between them.
-/

set_option autoImplicit false

namespace MapStyle

/-- Characters with a weight of their own, in order; letter case aside. -/
def rootOrder : List Char :=
  "\t\n\x0b\x0c\r\u0085\u2028\u2029 _-,;:!?.'\"()[]\x7b\x7d@*/\\&#%`^+<=>|~$0123456789".toList ++
    "abcdefghijklmnopqrstuvwxyz".toList

def accentOrder : List Char :=
  ['\u0301', '\u0300', '\u0306', '\u0302', '\u030c', '\u030a', '\u0308', '\u030b', '\u0303',
    '\u0307', '\u0338', '\u0327', '\u0328', '\u0304']

/-- Letters with each accent, as the letter and the accented letter. -/
def accentedLetters : List (Char × List (Char × Char)) :=
  [('\u0300', [('a', 'à'), ('e', 'è'), ('i', 'ì'), ('o', 'ò'), ('u', 'ù'), ('A', 'À'), ('E', 'È'),
      ('I', 'Ì'), ('O', 'Ò'), ('U', 'Ù')]),
    ('\u0301', [('a', 'á'), ('e', 'é'), ('i', 'í'), ('o', 'ó'), ('u', 'ú'), ('y', 'ý'), ('A', 'Á'),
      ('E', 'É'), ('I', 'Í'), ('O', 'Ó'), ('U', 'Ú'), ('Y', 'Ý')]),
    ('\u0302', [('a', 'â'), ('e', 'ê'), ('i', 'î'), ('o', 'ô'), ('u', 'û'), ('A', 'Â'), ('E', 'Ê'),
      ('I', 'Î'), ('O', 'Ô'), ('U', 'Û')]),
    ('\u0303', [('a', 'ã'), ('n', 'ñ'), ('o', 'õ'), ('A', 'Ã'), ('N', 'Ñ'), ('O', 'Õ')]),
    ('\u0306', [('g', 'ğ'), ('G', 'Ğ')]),
    ('\u0307', [('I', 'İ')]),
    ('\u0308', [('a', 'ä'), ('e', 'ë'), ('i', 'ï'), ('o', 'ö'), ('u', 'ü'), ('y', 'ÿ'), ('A', 'Ä'),
      ('E', 'Ë'), ('I', 'Ï'), ('O', 'Ö'), ('U', 'Ü')]),
    ('\u030a', [('a', 'å'), ('u', 'ů'), ('A', 'Å'), ('U', 'Ů')]),
    ('\u030c', [('c', 'č'), ('d', 'ď'), ('e', 'ě'), ('n', 'ň'), ('r', 'ř'), ('s', 'š'), ('t', 'ť'),
      ('z', 'ž'), ('C', 'Č'), ('D', 'Ď'), ('E', 'Ě'), ('N', 'Ň'), ('R', 'Ř'), ('S', 'Š'),
      ('T', 'Ť'), ('Z', 'Ž')]),
    ('\u0327', [('c', 'ç'), ('s', 'ş'), ('C', 'Ç'), ('S', 'Ş')])]

def splitAccent? (c : Char) : Option (Char × Char) :=
  accentedLetters.findSome? fun (accent, letters) =>
    (letters.find? fun l => l.2 = c).map fun l => (l.1, accent)

def decompose (cs : List Char) : List Char :=
  cs.flatMap fun c =>
    match splitAccent? c with
    | some (letter, accent) => [letter, accent]
    | none => [c]

namespace Weight

/-- The accent weight of a letter without accents. -/
def plain : Nat := 1

/-- The accent weight of a letter that a locale puts beside another one. -/
def beside : Nat := 2

def accent (place : Nat) : Nat := 10 + place

/-- The accent weights of the marks inside the two ligatures. -/
def aeMark : Nat := 110

def sharpMark : Nat := 118

def small : Nat := 2

def smallLigature : Nat := 4

def capital : Nat := 8

def capitalLigature : Nat := 10

/-- The letter weight of a place in the root order; the gaps are for the letters of locales. -/
def letter (place : Nat) : Nat := 100 * (place + 1)

def ofChar (c : Char) : Nat := letter (rootOrder.idxOf c)

/-- The letter weight of a character outside the root order, by its number. -/
def other (c : Char) : Nat := letter (rootOrder.length + c.toNat)

end Weight

def CollationElement.ofLetter (primary secondary : Nat) (upper : Bool) : CollationElement :=
  ⟨primary, secondary, if upper then Weight.capital else Weight.small,
    if upper then .upper else .lower⟩

/-- The elements of a ligature: its letters, a mark between them. -/
def ligature (first second : Char) (mark : Nat) (upper : Bool) : List CollationElement :=
  let shape := if upper then Weight.capitalLigature else Weight.smallLigature
  let letterCase := if upper then LetterCase.upper else LetterCase.lower
  [⟨Weight.ofChar first, Weight.plain, shape, letterCase⟩,
    ⟨0, mark, Weight.smallLigature, .lower⟩,
    ⟨Weight.ofChar second, Weight.plain, shape, letterCase⟩]

/-- A letter with a stroke: the letter and an accent of its own. -/
def strokeLetter (c : Char) (upper : Bool) : List CollationElement :=
  [.ofLetter (Weight.ofChar c) Weight.plain upper,
    ⟨0, Weight.accent (accentOrder.idxOf '\u0338'), Weight.small, .lower⟩]

def isIgnorable (c : Char) : Bool := c.toNat < 32 || c.toNat = 127

def rootElements (c : Char) : List CollationElement :=
  if c ∈ accentOrder then [⟨0, Weight.accent (accentOrder.idxOf c), Weight.small, .lower⟩]
  else if c.toLower ∈ rootOrder then
    [.ofLetter (Weight.ofChar c.toLower) Weight.plain c.isUpper]
  else if c = 'æ' then ligature 'a' 'e' Weight.aeMark false
  else if c = 'Æ' then ligature 'a' 'e' Weight.aeMark true
  else if c = 'ß' then ligature 's' 's' Weight.sharpMark false
  else if c = 'ẞ' then ligature 's' 's' Weight.sharpMark true
  else if c = 'ı' then [.ofLetter (Weight.ofChar 'i' + 1) Weight.plain false]
  else if c = 'ø' then strokeLetter 'o' false
  else if c = 'Ø' then strokeLetter 'o' true
  else if isIgnorable c then []
  else [.ofLetter (Weight.other c) Weight.plain false]

end MapStyle
