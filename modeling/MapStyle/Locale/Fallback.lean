import MapStyle.Locale.Script

/-!
# Locale fallback

A requested locale is served by the nearest locale with rules of its own.  The chain from a tag
drops its variants, goes to a parent that stands elsewhere, names the script that its region
implies, drops the region, and ends at the root: a language in a script that is not its own has
nothing in common with the language as such.
-/

set_option autoImplicit false

namespace MapStyle

def tailoredLocales : List String :=
  ["af", "ar", "as", "az", "be", "bn", "br", "bs", "bs-Cyrl", "ceb", "cs", "cy", "da", "dsb", "ee",
    "en-US-posix", "eo", "es", "et", "fa", "fa-AF", "ff-Adlm", "fi", "fil", "fo", "fy", "gl", "gu",
    "ha", "hi", "hr", "hsb", "hu", "hy", "ig", "is", "ja", "kk", "km", "kn", "ko", "kok", "ku",
    "ky", "lt", "lv", "mk", "ml", "mr", "mt", "my", "no", "om", "or", "pa", "pl", "ps", "ro", "si",
    "sk", "sl", "sq", "sr", "sr-Latn", "sv", "ta", "te", "th", "tk", "to", "tr", "ug", "uk", "ur",
    "uz", "vi", "wo", "yo", "zh"]

namespace LocaleTag

def isTailored (t : LocaleTag) : Bool := tailoredLocales.contains t.text

/-- Scripts that are not the usual ones of a language and yet follow its order. -/
def sharedScripts : List (String × List String) :=
  [("az", ["Arab", "Cyrl"]), ("bs", ["Cyrl"]), ("ff", ["Adlm", "Arab"]), ("ha", ["Arab"]),
    ("hi", ["Latn"]), ("kk", ["Arab"]), ("kok", ["Latn"]), ("ku", ["Arab"]),
    ("ky", ["Arab", "Latn"]), ("ml", ["Arab"]), ("pa", ["Arab"]), ("ug", ["Cyrl"]),
    ("uz", ["Arab", "Cyrl"]), ("wo", ["Arab"]), ("yo", ["Arab"]), ("zh", ["Hant"])]

def ofScript (language script : String) : LocaleTag :=
  { root with language := language, script := some script }

/-- The language itself as the parent of a tag that adds only a script that follows its order. -/
def sharedParent? (t : LocaleTag) : Option LocaleTag :=
  match t.script, t.region with
  | some script, none =>
    if sharedScripts.any fun row => row.1 = t.language && row.2.contains script then
      some { t with script := none }
    else none
  | _, _ => none

def parent? (t : LocaleTag) : Option LocaleTag :=
  match t.text with
  | "nb" => some { root with language := "no" }
  | "nn" => some { root with language := "no" }
  | "sr-Cyrl-ME" => some { root with language := "sr", region := some "ME" }
  | "yue" => some (ofScript "zh" "Hant")
  | "yue-Hant" => some (ofScript "zh" "Hant")
  | "yue-CN" => some (ofScript "zh" "Hans")
  | "yue-Hans" => some (ofScript "zh" "Hans")
  | "yue-Hans-CN" => some (ofScript "zh" "Hans")
  | _ => t.sharedParent?

def next (t : LocaleTag) : LocaleTag :=
  if t.variants ≠ [] then { t with variants := [] }
  else
    match t.parent? with
    | some p => p
    | none =>
      match t.region, t.script, t.regionalScript? with
      | none, _, _ => root
      | some _, none, some s => { t with script := some s }
      | some _, _, _ => { t with region := none }

/-- The first tag of the chain with an order of its own, or the root; a chain has at most
`steps` tags. -/
def resolveWithin : Nat → LocaleTag → LocaleTag
  | 0, _ => root
  | steps + 1, t => if t = root ∨ t.isTailored then t else resolveWithin steps t.next

/-- The tag whose order serves a requested tag.  A chain drops variants once, names one script,
drops one region, and meets at most two parents. -/
def resolve (t : LocaleTag) : LocaleTag := resolveWithin 10 t.withoutImpliedScript

end LocaleTag

/-- The tag whose order serves a requested text; a text that is no tag, or none, gets the root. -/
def resolveLocale (locale : Option String) : LocaleTag :=
  match locale.bind LocaleTag.ofText? with
  | some t => t.resolve
  | none => LocaleTag.root

end MapStyle
