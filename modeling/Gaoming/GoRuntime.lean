import Mathlib

/-!
# Go values used by the services

Instants are counted in nanoseconds from Go's zero time, so `IsZero` is equality
with `0`. A `map[string]string` is a finite map with extensional equality; the
nil map and the empty map are not told apart. Strings are sequences of Unicode
scalar values: text arrives through protobuf, JSON or PostgreSQL, all of which
refuse anything else.
-/

namespace Gaoming

abbrev Time := ℤ

def Time.isZero (t : Time) : Bool := t == 0

def second : Time := 1000000000

/-- `Time.Sub`, which saturates. -/
def Time.sub (t u : Time) : Int64 :=
  Int64.ofInt (max (-2 ^ 63) (min (2 ^ 63 - 1) ((t : ℤ) - u)))

theorem Time.toInt_sub (t u : ℤ) :
    (Time.sub t u).toInt = max (-2 ^ 63) (min (2 ^ 63 - 1) (t - u)) :=
  Int64.toInt_ofInt_of_le (by omega) (by omega)

abbrev StringMap := Std.ExtTreeMap String String

/-- `unicode.IsSpace`. -/
def isSpace (c : Char) : Bool :=
  let n := c.toNat
  (9 ≤ n && n ≤ 13) || n == 0x20 || n == 0x85 || n == 0xA0 || n == 0x1680 ||
    (0x2000 ≤ n && n ≤ 0x200A) || n == 0x2028 || n == 0x2029 || n == 0x202F ||
    n == 0x205F || n == 0x3000

/-- `strings.TrimSpace`. -/
def trimSpace (s : String) : String :=
  String.ofList (s.toList.rdropWhile isSpace |>.dropWhile isSpace)

/-- The nested value if it is set, the outer one otherwise. -/
def orElse (nested outer : String) : String := if nested = "" then outer else nested

def emptyStringPtr (value : String) : Option String := if value = "" then none else some value

@[simp] theorem trimSpace_empty : trimSpace "" = "" := rfl

theorem toList_trimSpace (s : String) :
    (trimSpace s).toList = (s.toList.rdropWhile isSpace).dropWhile isSpace := by
  simp [trimSpace]

theorem getLast_trimSpace (s : String) (h : (trimSpace s).toList ≠ []) :
    isSpace ((trimSpace s).toList.getLast h) = false := by
  have hne : s.toList.rdropWhile isSpace ≠ [] := by
    intro h0
    exact h (by rw [toList_trimSpace, h0]; rfl)
  have hlast := List.rdropWhile_last_not isSpace s.toList hne
  have hsuf : (trimSpace s).toList <:+ s.toList.rdropWhile isSpace := by
    rw [toList_trimSpace]
    exact List.dropWhile_suffix isSpace
  rw [← hsuf.getLast h] at hlast
  simpa using hlast

end Gaoming
