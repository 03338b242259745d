import MapStyle.Number.Scalar

/-!
# Collators

A collator compares text for a locale and a sensitivity.  The comparison is done by an engine, which
the platform supplies.  Two collators are equal when they were asked for the same locale and
sensitivity, whatever their engines.
-/

set_option autoImplicit false

namespace MapStyle

/-- What counts as a difference between texts. -/
inductive Sensitivity where
  | base
  | accent
  | case
  | variant
deriving DecidableEq, Repr, Inhabited

def Sensitivity.ofFlags (caseSensitive diacriticSensitive : Bool) : Sensitivity :=
  match caseSensitive, diacriticSensitive with
  | true, true => .variant
  | true, false => .case
  | false, true => .accent
  | false, false => .base

def Sensitivity.name : Sensitivity → String
  | .base => "base"
  | .accent => "accent"
  | .case => "case"
  | .variant => "variant"

structure Engine where
  compare : String → String → Ordering
  resolvedLocale : String

/-- A way to compare text: what was asked for, and the engine that does it. -/
structure Collator where
  locale : Option String
  sensitivity : Sensitivity
  engine : Engine

namespace Collator

instance : BEq Collator := ⟨fun a b => a.locale == b.locale && a.sensitivity == b.sensitivity⟩

def withEngine (caseSensitive diacriticSensitive : Bool) (locale : Option String)
    (engine : Engine) : Collator :=
  ⟨locale, .ofFlags caseSensitive diacriticSensitive, engine⟩

end Collator

/-- Numbers, and a library that compares texts: its engine for each locale, or for none, and each
sensitivity. -/
class Platform (ν : Type) extends Scalar ν where
  engine : Option String → Sensitivity → Engine

end MapStyle
