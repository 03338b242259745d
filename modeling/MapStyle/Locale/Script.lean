import MapStyle.Locale.Tag

/-!
# Scripts of languages

The script in which a language is written where a tag names none: one for the language, and another
for some of its regions.  A tag that names this script says no more than one that does not.
-/

set_option autoImplicit false

namespace MapStyle

namespace LocaleTag

/-- Languages by the script in which they are usually written; others are written in Latin. -/
def usualScripts : List (String × List String) :=
  [("Arab", ["ar", "fa", "ps", "ug", "ur"]), ("Armn", ["hy"]), ("Beng", ["as", "bn"]),
    ("Cyrl", ["be", "kk", "ky", "mk", "sr", "uk"]), ("Deva", ["hi", "kok", "mr"]),
    ("Gujr", ["gu"]), ("Guru", ["pa"]), ("Hans", ["zh"]), ("Hant", ["yue"]), ("Jpan", ["ja"]),
    ("Khmr", ["km"]), ("Knda", ["kn"]), ("Kore", ["ko"]), ("Mlym", ["ml"]), ("Mymr", ["my"]),
    ("Orya", ["or"]), ("Sinh", ["si"]), ("Taml", ["ta"]), ("Telu", ["te"]), ("Thai", ["th"])]

def usualScript (language : String) : String :=
  ((usualScripts.find? fun row => row.2.contains language).map (·.1)).getD "Latn"

/-- Regions where a language is written in another script than usually. -/
def regionalScripts : List (String × String × List String) :=
  [("az", "Arab", ["IQ", "IR"]), ("az", "Cyrl", ["RU"]), ("ha", "Arab", ["CM", "SD"]),
    ("kk", "Arab", ["AF", "CN", "IR", "MN"]), ("ku", "Arab", ["LB"]), ("ky", "Arab", ["CN"]),
    ("ky", "Latn", ["TR"]), ("pa", "Arab", ["PK"]), ("sr", "Latn", ["ME", "RO", "RU", "TR"]),
    ("ug", "Cyrl", ["KZ", "MN"]), ("uz", "Arab", ["AF"]), ("uz", "Cyrl", ["CN"]),
    ("yue", "Hans", ["CN"]),
    ("zh", "Hant", ["AU", "BN", "GB", "GF", "HK", "ID", "MO", "PA", "PF", "PH", "SR", "TH", "TW",
      "US", "VN"])]

/-- The script that the region of a tag implies, if it is not the usual one of the language. -/
def regionalScript? (t : LocaleTag) : Option String :=
  t.region.bind fun region =>
    (regionalScripts.find? fun (language, _, regions) =>
      language = t.language && regions.contains region).map fun row => row.2.1

def impliedScript (t : LocaleTag) : String := t.regionalScript?.getD (usualScript t.language)

/-- The tag without a script that goes without saying. -/
def withoutImpliedScript (t : LocaleTag) : LocaleTag :=
  if t.script = some t.impliedScript then { t with script := none } else t

end LocaleTag

end MapStyle
