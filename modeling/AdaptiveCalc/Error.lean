import AdaptiveCalc.Text.Quoted

/-!
# Errors

What can go wrong while a program is built, while its settings are read, and while
it runs. Each error is its cause; the words are in one function for each kind.
-/
namespace AdaptiveCalc

inductive BuildError where
  | duplicateDeclaration (name : String)
  | unknownVariable (name : String)
  /-- The text is the whole of it, surrounding blanks included. -/
  | invalidNumeral (text : String)
  | emptyProgram
  deriving DecidableEq, Repr

def BuildError.message : BuildError → String
  | duplicateDeclaration name => "Attempt to redeclare previously declared variable: " ++ name
  | unknownVariable name => "Reference to undeclared variable: " ++ name
  | invalidNumeral text => "Invalid numeric literal: " ++ Text.quote text
  | emptyProgram => "Program must contain at least one statement"

inductive EvalError where
  | divisionByZero
  /-- The slot is empty, or there is no such slot. -/
  | uninitializedRead (slot : Nat)
  | depthExceeded (limit : Nat)
  /-- No builder makes a program that writes to a slot it did not declare. -/
  | undeclaredWrite (slot : Nat)
  deriving DecidableEq, Repr

def EvalError.message : EvalError → String
  | divisionByZero => "division by zero"
  | uninitializedRead slot => "read of uninitialized variable slot " ++ toString slot
  | depthExceeded limit =>
    "expression nesting exceeds maximum depth of " ++ toString limit
  | undeclaredWrite slot => "write to undeclared variable slot " ++ toString slot

inductive SettingsError where
  | malformed
  | precisionTooLarge (precision limit : Nat)
  deriving DecidableEq, Repr

def SettingsError.message : SettingsError → String
  | malformed => "malformed settings"
  | precisionTooLarge precision limit =>
    "division_precision " ++ toString precision ++ " exceeds the supported maximum of "
      ++ toString limit

/-- What a whole run may fail with: its settings, or the program itself. -/
inductive RunError where
  | settings (cause : SettingsError)
  | evaluation (cause : EvalError)
  deriving DecidableEq, Repr

def RunError.message : RunError → String
  | settings cause => cause.message
  | evaluation cause => "Runtime error: " ++ cause.message

end AdaptiveCalc
