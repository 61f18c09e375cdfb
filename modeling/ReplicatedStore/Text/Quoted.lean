import ReplicatedStore.Text.Unprintable
/-!
# Quoted text

How an error message quotes text it was given: between double quotes, with a backslash before a
quote or a backslash, short escapes for NUL, tab, line feed and carriage return, and the number in
braces for every character without a glyph of its own.
-/
namespace ReplicatedStore.Quoted

/-- A number in lower-case hexadecimal, without leading zeros. -/
def hex (n : Nat) : List Char := Nat.toDigits 16 n

/-- One character inside quotes. -/
def escape (c : Char) : List Char :=
  if c = '\x00' then ['\\', '0']
  else if c = '\t' then ['\\', 't']
  else if c = '\r' then ['\\', 'r']
  else if c = '\n' then ['\\', 'n']
  else if c = '\\' then ['\\', '\\']
  else if c = '"' then ['\\', '"']
  else if Unprintable.isUnprintable c then
    ['\\', 'u', Char.ofNat 0x7B] ++ hex c.toNat ++ [Char.ofNat 0x7D]
  else [c]

/-- Text between quotes. -/
def quote (s : String) : String :=
  String.ofList ('"' :: s.toList.flatMap escape ++ ['"'])

end ReplicatedStore.Quoted
