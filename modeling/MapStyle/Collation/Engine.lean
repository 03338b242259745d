import MapStyle.Collation.Tailoring
import MapStyle.Locale.Fallback
import MapStyle.Number.Float

/-!
# Engines by tailoring

An engine for every locale from the tables of the root order and of some tailorings.  It stands in
for a collation library where the program runs on its own.
-/

set_option autoImplicit false

namespace MapStyle

/-- The engine of a locale; one without an order of its own is served by another. -/
def Engine.forLocale (locale : Option String) (s : Sensitivity) : Engine :=
  let t := resolveLocale locale
  ⟨(Tailoring.ofTag t).compareText s, t.text⟩

def Collator.make (caseSensitive diacriticSensitive : Bool) (locale : Option String) : Collator :=
  let s := Sensitivity.ofFlags caseSensitive diacriticSensitive
  ⟨locale, s, Engine.forLocale locale s⟩

instance : Platform Float where
  engine := Engine.forLocale

end MapStyle
