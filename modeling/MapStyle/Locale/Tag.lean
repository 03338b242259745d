import MapStyle.Locale.Extension

/-!
# Locale tags

A locale tag names a language and, each if present and in this order, a script, a region and
variants; extensions follow, announced by a single letter.  `LocaleTag.ofText?` reads a tag, checks
the form of its extensions and drops them.
-/

set_option autoImplicit false

namespace MapStyle

/-- A tag without extensions; parts are in their usual letter case and an absent language is
`und`. -/
structure LocaleTag where
  language : String
  script : Option String
  region : Option String
  variants : List String
deriving DecidableEq, Repr, Inhabited

namespace LocaleTag

def root : LocaleTag := ⟨"und", none, none, []⟩

def text (t : LocaleTag) : String :=
  "-".intercalate ([t.language] ++ t.script.toList ++ t.region.toList ++ t.variants)

open LocalePart

/-- Whether parts are absent or start with the announcement of an extension. -/
def startsExtensions (ps : List LocalePart) : Bool := ps.head?.all fun p => p.length = 1

def ofText? (s : String) : Option LocaleTag :=
  match LocalePart.ofText s with
  | [] => none
  | language :: rest =>
    if isLanguage language then
      let (script, rest) := optional isScript rest
      let (region, rest) := optional isRegion rest
      let variants := rest.takeWhile isVariant
      let rest := rest.dropWhile isVariant
      if variants.Nodup ∧ startsExtensions rest ∧ LocaleExtension.areExtensions rest then
        some
          { language := String.ofList language
            script := script.map capitalized
            region := region.map fun p => String.ofList (p.map Char.toUpper)
            variants := (variants.map String.ofList).mergeSort (· ≤ ·) }
      else none
    else none

end LocaleTag

end MapStyle
