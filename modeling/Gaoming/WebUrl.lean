import Mathlib

/-!
# Strings of JavaScript and references of the URL Standard

A JavaScript string is a sequence of UTF-16 code units, not all of which need be parts
of characters. A reference that begins with a slash is resolved against the origin of a
page with a special scheme: tabs, line ends and outer blanks are dropped, a backslash is
a slash, two slashes begin an authority, and dot segments, also when written with `%2e`,
are removed from the path. Reading an authority is left to a parameter.
-/

namespace Web

abbrev JsString := List UInt16

def unitsOf (c : Char) : JsString :=
  if c.toNat < 0x10000 then [UInt16.ofNat c.toNat]
  else
    let n := c.toNat - 0x10000
    [UInt16.ofNat (0xD800 + n / 0x400), UInt16.ofNat (0xDC00 + n % 0x400)]

def ofChars (cs : List Char) : JsString := cs.flatMap unitsOf

def unit (c : Char) : UInt16 := UInt16.ofNat c.toNat

/-- A code unit on its own; half of a surrogate pair becomes the replacement character. -/
def scalar (u : UInt16) : Char :=
  if 0xD800 ≤ u.toNat ∧ u.toNat ≤ 0xDFFF then Char.ofNat 0xFFFD else Char.ofNat u.toNat

/-- The conversion of a string to scalar values that an API of the browser applies. -/
def scalars : JsString → List Char
  | [] => []
  | [u] => [scalar u]
  | u :: v :: rest =>
    if 0xD800 ≤ u.toNat ∧ u.toNat ≤ 0xDBFF ∧ 0xDC00 ≤ v.toNat ∧ v.toNat ≤ 0xDFFF then
      Char.ofNat (0x10000 + (u.toNat - 0xD800) * 0x400 + (v.toNat - 0xDC00)) :: scalars rest
    else scalar u :: scalars (v :: rest)

def hexDigit (n : ℕ) : Char := if n < 10 then Char.ofNat (48 + n) else Char.ofNat (55 + n)

def percentEncode (c : Char) : List Char :=
  (String.utf8EncodeChar c).flatMap fun b =>
    ['%', hexDigit (b.toNat / 16), hexDigit (b.toNat % 16)]

def isUnreserved (c : Char) : Bool :=
  c.isAlphanum || "-_.!~*'()".toList.contains c

/-- `encodeURIComponent`, which throws on half of a surrogate pair. The result is ASCII. -/
def encodeURIComponent (s : JsString) : Option (List Char) :=
  if ofChars (scalars s) = s then
    some ((scalars s).flatMap fun c => if isUnreserved c then [c] else percentEncode c)
  else none

def hexValue (u : UInt16) : Option ℕ :=
  let n := u.toNat
  if 48 ≤ n ∧ n ≤ 57 then some (n - 48)
  else if 65 ≤ n ∧ n ≤ 70 then some (n - 55)
  else if 97 ≤ n ∧ n ≤ 102 then some (n - 87)
  else none

inductive Token
  | unit (u : UInt16)
  | octet (b : UInt8)
  deriving DecidableEq

/-- A string with its escapes read. -/
def tokens : JsString → Option (List Token)
  | [] => some []
  | u :: rest =>
    if u = unit '%' then
      match rest with
      | a :: b :: rest => do
        let high ← hexValue a
        let low ← hexValue b
        let more ← tokens rest
        return .octet (UInt8.ofNat (16 * high + low)) :: more
      | _ => none
    else (tokens rest).map (.unit u :: ·)

/-- The character that exactly these bytes encode. -/
def utf8Char (bytes : List UInt8) : Option Char :=
  let array := ByteArray.mk bytes.toArray
  (array.utf8DecodeChar? 0).filter fun c => c.utf8Size == bytes.length

def decodeTokens : List Token → Option JsString
  | [] => some []
  | .unit u :: rest => (decodeTokens rest).map (u :: ·)
  | .octet b :: rest =>
    if b.toNat < 0x80 then (decodeTokens rest).map (UInt16.ofNat b.toNat :: ·)
    else if 0xC0 ≤ b.toNat ∧ b.toNat < 0xE0 then
      match rest with
      | .octet b₁ :: rest => do
        let c ← utf8Char [b, b₁]
        return unitsOf c ++ (← decodeTokens rest)
      | _ => none
    else if 0xE0 ≤ b.toNat ∧ b.toNat < 0xF0 then
      match rest with
      | .octet b₁ :: .octet b₂ :: rest => do
        let c ← utf8Char [b, b₁, b₂]
        return unitsOf c ++ (← decodeTokens rest)
      | _ => none
    else if 0xF0 ≤ b.toNat ∧ b.toNat < 0xF8 then
      match rest with
      | .octet b₁ :: .octet b₂ :: .octet b₃ :: rest => do
        let c ← utf8Char [b, b₁, b₂, b₃]
        return unitsOf c ++ (← decodeTokens rest)
      | _ => none
    else none

/-- `decodeURIComponent`, which throws on an escape that is not UTF-8. -/
def decodeURIComponent (s : JsString) : Option JsString := (tokens s).bind decodeTokens

abbrev Origin := String

def isSlash (c : Char) : Bool := c == '/' || c == '\\'

def isOuterBlank (c : Char) : Bool := c.toNat ≤ 0x20

def isTabOrNewline (c : Char) : Bool := c == '\t' || c == '\n' || c == '\r'

def clean (s : List Char) : List Char :=
  ((s.dropWhile isOuterBlank).rdropWhile isOuterBlank).filter fun c => !isTabOrNewline c

/-- The characters that are escaped in a path. -/
def inPathSet (c : Char) : Bool :=
  c.toNat ≤ 0x1F || 0x7E < c.toNat || " \"#<>?^`\x7b\x7d".toList.contains c

def encodeSegment (s : List Char) : List Char :=
  s.flatMap fun c => if inPathSet c then percentEncode c else [c]

def isSingleDot (segment : List Char) : Bool :=
  [".".toList, "%2e".toList].contains (segment.map Char.toLower)

def isDoubleDot (segment : List Char) : Bool :=
  ["..".toList, ".%2e".toList, "%2e.".toList, "%2e%2e".toList].contains
    (segment.map Char.toLower)

/-- The path after its segments so far and those that follow. -/
def walk (done : List (List Char)) : List (List Char) → List (List Char)
  | [] => done
  | [s] =>
    if isDoubleDot s then done.dropLast ++ [[]]
    else if isSingleDot s then done ++ [[]]
    else done ++ [s]
  | s :: next :: rest =>
    if isDoubleDot s then walk done.dropLast (next :: rest)
    else if isSingleDot s then walk done (next :: rest)
    else walk (done ++ [s]) (next :: rest)

def isPathEnd (c : Char) : Bool := c == '?' || c == '#'

/-- The path state, from after the slash that begins the path. -/
def path (s : List Char) : List (List Char) :=
  walk [] (((s.takeWhile fun c => !isPathEnd c).splitOnP isSlash).map encodeSegment)

def pathname (segments : List (List Char)) : List Char := segments.flatMap ('/' :: ·)

variable (authority : Origin → List Char → Option Origin)

/-- From after the slashes that begin an authority. -/
def afterSlashes (base : Origin) (s : List Char) : Option (Origin × List (List Char)) :=
  let name := s.takeWhile fun c => !(isSlash c || isPathEnd c)
  let after := s.dropWhile fun c => !(isSlash c || isPathEnd c)
  let after := match after with
    | c :: more => if isSlash c then more else after
    | [] => after
  (authority base name).map fun origin => (origin, path after)

/-- The URL that a reference stands for, its origin and its path. Only references that
begin with a slash are read. -/
def resolve (base : Origin) (input : List Char) : Option (Origin × List (List Char)) :=
  match clean input with
  | c :: d :: rest =>
    if !isSlash c then none
    else if isSlash d then afterSlashes authority base (rest.dropWhile isSlash)
    else some (base, path (d :: rest))
  | [c] => if isSlash c then some (base, path []) else none
  | [] => none

theorem scalars_cons {u : UInt16} (hu : u.toNat < 0xD800 ∨ 0xDFFF < u.toNat) (s : JsString) :
    scalars (u :: s) = Char.ofNat u.toNat :: scalars s := by
  have hscalar : scalar u = Char.ofNat u.toNat := by
    rw [scalar, if_neg (by omega)]
  cases s with
  | nil => simp only [scalars, hscalar]
  | cons v s => rw [scalars, if_neg (by omega), hscalar]

theorem toNat_cases (c : Char) : c.toNat < 0xD800 ∨ 0xDFFF < c.toNat ∧ c.toNat < 0x110000 := c.valid

theorem scalars_unitsOf_append (c : Char) (s : JsString) :
    scalars (unitsOf c ++ s) = c :: scalars s := by
  have hvalid := toNat_cases c
  rw [unitsOf]
  split_ifs with hsmall
  · have htoNat : (UInt16.ofNat c.toNat).toNat = c.toNat := by
      rw [UInt16.toNat_ofNat']
      omega
    rw [List.singleton_append, scalars_cons (by omega), htoNat, Char.ofNat_toNat]
  · -- a surrogate pair, which is put together again
    have hhigh : (UInt16.ofNat (0xD800 + (c.toNat - 0x10000) / 0x400)).toNat =
        0xD800 + (c.toNat - 0x10000) / 0x400 := by
      rw [UInt16.toNat_ofNat']
      omega
    have hlow : (UInt16.ofNat (0xDC00 + (c.toNat - 0x10000) % 0x400)).toNat =
        0xDC00 + (c.toNat - 0x10000) % 0x400 := by
      rw [UInt16.toNat_ofNat']
      omega
    have hwhole : 0x10000 + (0xD800 + (c.toNat - 0x10000) / 0x400 - 0xD800) * 0x400 +
        (0xDC00 + (c.toNat - 0x10000) % 0x400 - 0xDC00) = c.toNat := by
      omega
    rw [List.cons_append, List.singleton_append, scalars, hhigh, hlow, if_pos (by omega), hwhole,
      Char.ofNat_toNat]

theorem scalars_ofChars (cs : List Char) : scalars (ofChars cs) = cs := by
  induction cs with
  | nil => rfl
  | cons c cs ih =>
    rw [ofChars, List.flatMap_cons, scalars_unitsOf_append]
    exact congrArg (c :: ·) ih

theorem unit_scalar {u : UInt16} (hsmall : (scalar u).toNat < 0xD800) : unit (scalar u) = u := by
  rw [scalar] at hsmall ⊢
  split_ifs at hsmall ⊢ with hsurrogate
  · exact absurd hsmall (by decide)
  · have hvalid : u.toNat.isValidChar := by
      have := u.toNat_lt
      exact not_and_or.mp hsurrogate |>.imp (by omega) (by omega)
    rw [unit, Char.toNat_ofNat, if_pos hvalid, UInt16.ofNat_toNat]

theorem le_toNat_ofNat {n : ℕ} (h : 0xFFFF < n) (hlt : n < 0x110000) :
    0xFFFF < (Char.ofNat n).toNat := by
  rw [Char.toNat_ofNat, if_pos (.inr ⟨by omega, hlt⟩)]
  exact h

/-- A character below the surrogates stands for a code unit of its own. -/
theorem mem_of_mem_scalars {c : Char} {s : JsString} (hc : c ∈ scalars s)
    (hsmall : c.toNat < 0xD800) : unit c ∈ s := by
  fun_induction scalars s with
  | case1 => exact absurd hc (by simp)
  | case2 u =>
    obtain rfl := List.mem_singleton.mp hc
    rw [unit_scalar hsmall]
    exact List.mem_singleton_self u
  | case3 u v rest hpair ih =>
    obtain heq | hc := List.mem_cons.mp hc
    · have hlarge := le_toNat_ofNat (n := 0x10000 + (u.toNat - 0xD800) * 0x400 + (v.toNat - 0xDC00))
        (by omega) (by omega)
      rw [← heq] at hlarge
      omega
    · exact List.mem_cons_of_mem u (List.mem_cons_of_mem v (ih hc))
  | case4 u v rest _ ih =>
    obtain rfl | hc := List.mem_cons.mp hc
    · rw [unit_scalar hsmall]
      exact List.mem_cons_self
    · exact List.mem_cons_of_mem u (ih hc)

theorem rdropWhile_cons {p : Char → Bool} {c : Char} (hc : p c = false) (s : List Char) :
    (c :: s).rdropWhile p = c :: s.rdropWhile p := by
  induction s using List.reverseRecOn with
  | nil => simp [List.rdropWhile, hc]
  | append_singleton s d ih =>
    by_cases hd : p d = true
    · rw [← List.cons_append, List.rdropWhile_concat_pos _ _ _ hd, ih,
        List.rdropWhile_concat_pos _ _ _ hd]
    · rw [← List.cons_append, List.rdropWhile_concat_neg _ _ _ hd,
        List.rdropWhile_concat_neg _ _ _ hd, List.cons_append]

theorem clean_slash {s : List Char} (hs : ∀ c ∈ s, isTabOrNewline c = false) :
    clean ('/' :: s) = '/' :: s.rdropWhile isOuterBlank := by
  have hblank : isOuterBlank '/' = false := by decide
  have hkept : ∀ c ∈ '/' :: s.rdropWhile isOuterBlank, (!isTabOrNewline c) = true := by
    intro c hc
    obtain rfl | hc := List.mem_cons.mp hc
    · decide
    · have hmem : c ∈ s := by
        rw [← List.rdropWhile_append_rtakeWhile (p := isOuterBlank) (l := s)]
        exact List.mem_append_left _ hc
      rw [hs c hmem]
      rfl
  rw [clean, List.dropWhile_cons_of_neg (by simp [hblank]), rdropWhile_cons hblank,
    List.filter_eq_self.mpr hkept]

end Web
