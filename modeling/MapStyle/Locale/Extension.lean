import MapStyle.Locale.Part

/-!
# Extensions of a locale tag

After its language, script, region and variants a tag may have extensions, each announced by a part
that starts with a letter.  The letter says what may follow: `u` attributes and keywords, `t` a
language and fields, `x` private words up to the end, and any other letter plain words.  An
extension ends where a part does not fit it; that part must announce the next one.  No letter
announces two.

Extensions do not bear on the order of a locale, so that they are only passed over; each function
yields the parts that follow what it passes over, or nothing if the form is broken.
-/

set_option autoImplicit false

namespace MapStyle

namespace LocaleExtension

open LocalePart

/-- The parts after keywords with their values; `named` tells whether one has been named. -/
def afterKeywords? : Bool → List LocalePart → Option (List LocalePart)
  | _, [] => some []
  | named, p :: rest =>
    if p.byteLength = 2 then if isKeyword p then afterKeywords? true rest else none
    else if named && isValue p then afterKeywords? true rest
    else some (p :: rest)

/-- The parts after attributes and keywords, of which there is at least one. -/
def afterSettings? (ps : List LocalePart) : Option (List LocalePart) :=
  (afterKeywords? false (ps.dropWhile isValue)).filter fun rest => rest.length < ps.length

/-- What the fields of a transformation wait for. -/
inductive FieldState where
  | name
  | value
  /-- one more value of a field, or the name of the next -/
  | more
deriving DecidableEq, Repr

/-- The parts after fields; a field has a value. -/
def afterFields? : FieldState → List LocalePart → Option (List LocalePart)
  | .value, [] => none
  | _, [] => some []
  | .value, p :: rest => if isValue p then afterFields? .more rest else none
  | .name, p :: rest => if isField p then afterFields? .value rest else some (p :: rest)
  | .more, p :: rest =>
    if isValue p then afterFields? .more rest
    else if isField p then afterFields? .value rest
    else some (p :: rest)

/-- The parts after a language with its script, region and variants, none of them twice; a list
that does not start with a language is left as it is. -/
def afterLanguage? (ps : List LocalePart) : Option (List LocalePart) :=
  match optional isLanguage ps with
  | (none, ps) => some ps
  | (some _, rest) =>
    let rest := (optional isRegion (optional isScript rest).2).2
    if (rest.takeWhile isVariant).Nodup then some (rest.dropWhile isVariant) else none

def after? (letter : Char) (ps : List LocalePart) : Option (List LocalePart) :=
  match letter with
  | 'u' => afterSettings? ps
  | 't' => (afterLanguage? ps).bind (afterFields? .name)
  | 'x' => if ps.all (isWord 1 8) then some [] else none
  | _ => some (ps.dropWhile fun p => 2 ≤ p.byteLength && p.byteLength ≤ 8)

/-- Whether parts, of which there are at most `n`, are extensions with letters not yet `seen`. -/
def allValid : Nat → List Char → List LocalePart → Bool
  | _, _, [] => true
  | 0, _, _ :: _ => false
  | _ + 1, _, [] :: _ => false
  | n + 1, seen, (letter :: _) :: rest =>
    letter.isAlpha && !seen.contains letter &&
      match after? letter rest with
      | some rest => allValid n (letter :: seen) rest
      | none => false

/-- Whether parts are extensions, no two of one letter. -/
def areExtensions (ps : List LocalePart) : Bool := allValid ps.length [] ps

end LocaleExtension

end MapStyle
