import AdaptiveCalc.Error

/-!
# Settings

How many significant digits a quotient of decimals keeps, and how deep expressions
may nest. Settings as such take any positive precision; a settings document and a
single run accept none above `precisionLimit`.
-/
namespace AdaptiveCalc

structure Settings where
  divisionPrecision : Nat := 34
  maxDepth : Nat := 100000
  precision_pos : 0 < divisionPrecision := by decide
  deriving Repr

namespace Settings

instance : Inhabited Settings := ⟨{}⟩

def precisionLimit : Nat := 100

/-- The settings themselves when their precision is supported. -/
def validate (s : Settings) : Except SettingsError Settings :=
  if s.divisionPrecision ≤ precisionLimit then .ok s
  else .error (.precisionTooLarge s.divisionPrecision precisionLimit)

theorem validate_eq_ok_iff {s t : Settings} :
    s.validate = .ok t ↔ t = s ∧ s.divisionPrecision ≤ precisionLimit := by
  unfold validate
  split
  · next h => simp [h, eq_comm]
  · next h => simp [h]

end Settings
end AdaptiveCalc
