/-!
# Spelling of numbers and records

Addresses are written as sixteen upper-case hexadecimal digits, so every
64-bit number has exactly one spelling and all spellings have one width.
Structured values are written as a name followed by their fields, on one line.
-/

namespace Highmem.Text

def hexDigit (d : Nat) : Char :=
  if d < 10 then Char.ofNat (48 + d) else Char.ofNat (55 + d)

/-- The last `width` hexadecimal digits of `x`, most significant first. -/
def hexDigits : (width : Nat) → (x : Nat) → List Char
  | 0, _ => []
  | width + 1, x => hexDigits width (x / 16) ++ [hexDigit (x % 16)]

@[simp] theorem length_hexDigits (width x : Nat) : (hexDigits width x).length = width := by
  induction width generalizing x with
  | zero => rfl
  | succ width ih => simp [hexDigits, ih]

/-- A 64-bit number in full width. -/
def hex64 (x : Nat) : String := "0x" ++ String.ofList (hexDigits 16 x)

/-- A value that may be absent. -/
def optional : Option String → String
  | none => "None"
  | some text => s!"Some({text})"

/-- A record: its name, then each field with its value, in the given order. -/
def record (name : String) (fields : List (String × String)) : String :=
  let inner := ", ".intercalate (fields.map fun (field, value) => s!"{field}: {value}")
  s!"{name} \x7b {inner} \x7d"

end Highmem.Text
