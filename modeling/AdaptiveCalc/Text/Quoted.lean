import AdaptiveCalc.Text.Printable

/-!
# Quoted text

A text between double quotes, on one line and without characters that a reader
could miss. Quotes and backslashes stand behind a backslash, the common controls
have a letter, and any other character that is not printable is written as its
number.
-/
namespace AdaptiveCalc.Text

/-- The characters that stand for `c` between the quotes. -/
def escape (c : Char) : List Char :=
  match c with
  | '"' => ['\\', '"']
  | '\\' => ['\\', '\\']
  | '\n' => ['\\', 'n']
  | '\r' => ['\\', 'r']
  | '\t' => ['\\', 't']
  | '\x00' => ['\\', '0']
  | c =>
    if isPrintable c then [c]
    else ['\\', 'u', '\x7b'] ++ Nat.toDigits 16 c.toNat ++ ['\x7d']

def quote (s : String) : String :=
  String.ofList ('"' :: s.toList.flatMap escape ++ ['"'])

end AdaptiveCalc.Text
