import LumioVoxel.DecimalText
import LumioVoxel.Plumbing

/-!
# Derived debug text

The text Rust's derived `Debug` writes for numbers, strings, sequences, ordered
maps, records and tuple variants, as lists of characters.  The only part of it
that depends on Unicode data is which characters from U+0080 on a string escapes;
that table is a parameter.
-/

namespace DebugText

open DecimalText

/-- The Unicode data string escaping consults: whether a character at or above
U+0080 is written as an escape (it extends a grapheme, or is not printable). -/
class UnicodeTables where
  escaped : Char → Bool

/-- A table that escapes nothing beyond ASCII. -/
@[reducible] def asciiOnly : UnicodeTables := ⟨fun _ => false⟩

abbrev Text := List Char

def nat (n : Nat) : Text := digits n

def int (a : Int) : Text := intText a

section Strings

variable [UnicodeTables]

/-- One character of a string.  A single quote is not escaped there. -/
def strChar (c : Char) : Text :=
  if c = '\x00' then ['\\', '0']
  else if c = '\t' then ['\\', 't']
  else if c = '\r' then ['\\', 'r']
  else if c = '\n' then ['\\', 'n']
  else if c = '"' then ['\\', '"']
  else if c = '\\' then ['\\', '\\']
  else if c.toNat < 0x20 ∨ c.toNat = 0x7f ∨ (0x80 ≤ c.toNat ∧ UnicodeTables.escaped c) then
    "\\u\x7b".toList ++ Nat.toDigits 16 c.toNat ++ ['}']
  else [c]

def str (s : String) : Text := '"' :: (s.toList.flatMap strChar ++ ['"'])

end Strings

/-- Items joined by a comma and a blank. -/
def commaSeparated : List Text → Text
  | [] => []
  | [item] => item
  | item :: rest => item ++ ", ".toList ++ commaSeparated rest

def list (items : List Text) : Text := '[' :: (commaSeparated items ++ [']'])

def map (entries : List (Text × Text)) : Text :=
  '{' :: (commaSeparated (entries.map fun e => e.1 ++ ": ".toList ++ e.2) ++ ['}'])

/-- A record with at least one named field. -/
def record (name : String) (fields : List (String × Text)) : Text :=
  name.toList ++ " \x7b ".toList ++
    commaSeparated (fields.map fun f => f.1.toList ++ ": ".toList ++ f.2) ++ " \x7d".toList

def variant (name : String) (field : Text) : Text :=
  name.toList ++ '(' :: (field ++ [')'])

def bytes (bs : List UInt8) : Text := list (bs.map fun b => nat b.toNat)

end DebugText
