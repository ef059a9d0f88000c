import Gaoming.PercentEscapes

/-!
# Where the browser goes after a login

`safeReturnTo` of `web/src/shared/features/auth/navigation.ts`. A value is tried in its
decoded form and returned as it was written, so that the browser resolves a string the
check has not read. Both readings have the same segments where no escape of the path stands
for a delimiter or for a blank at the end, and the same page where the tenant is not spelt
with escapes either.
-/

namespace Gaoming
open Web

variable (authority : Origin → List Char → Option Origin)

def probe : Origin := "https://gaoming.invalid"

def isForbidden (u : UInt16) : Bool := u == unit '\\' || u.toNat ≤ 0x1f || u.toNat == 0x7f

/-- The block of the `try`; `none` is an exception. -/
def tryReturnTo (fallback : List Char) (value : JsString) : Option JsString := do
  let decoded ← decodeURIComponent value
  if decoded.any isForbidden || decoded.contains (unit '%') then return ofChars fallback
  let (origin, segments) ← resolve authority probe (scalars decoded)
  if origin ≠ probe ∨
      (pathname segments ≠ fallback ∧ ¬(fallback ++ ['/']) <+: pathname segments) ∨
      pathname segments = fallback ++ "/login".toList ∨
      pathname segments = fallback ++ "/setup".toList then
    return ofChars fallback
  return value

/-- An exception of `encodeURIComponent` is not caught. -/
def safeReturnTo (value : Option JsString) (tenantCode : JsString) : Option JsString := do
  let fallback := '/' :: (← encodeURIComponent tenantCode)
  match value with
  | none => return ofChars fallback
  | some value =>
    if value = [] ∨ ¬[unit '/'] <+: value ∨ [unit '/', unit '/'] <+: value then
      return ofChars fallback
    return (tryReturnTo authority fallback value).getD (ofChars fallback)

def isCodeChar (c : Char) : Bool := c.isAlphanum || c == '-' || c == '_'

structure TenantCode where
  code : List Char
  plain : code.all isCodeChar = true

/-- The page of a tenant; its code needs no escapes. -/
def TenantCode.root (tenant : TenantCode) : List Char := '/' :: tenant.code

/-- The browser stays at the application and in the tenant, and does not come back to
the login or the setup. -/
def Confined (app : Origin) (value : Option JsString) (tenant : TenantCode) : Prop :=
  ∃ target segments,
    safeReturnTo authority value (ofChars tenant.code) = some target ∧
    resolve authority app (scalars target) = some (app, segments) ∧
    (pathname segments = tenant.root ∨ (tenant.root ++ ['/']) <+: pathname segments) ∧
    (target ≠ ofChars tenant.root →
      pathname segments ≠ tenant.root ++ "/login".toList ∧
      pathname segments ≠ tenant.root ++ "/setup".toList)

def TenantCode.IsPage (tenant : TenantCode) (segments : List (List Char)) : Prop :=
  segments.head? = some tenant.code ∧
    segments ≠ [tenant.code, "login".toList] ∧ segments ≠ [tenant.code, "setup".toList]

/-- A value of one slash whose decoded form is clean and a page of the tenant. -/
structure Passes (tenant : TenantCode) (value decoded : JsString)
    (segments : List (List Char)) : Prop where
  slash : [unit '/'] <+: value
  single : ¬[unit '/', unit '/'] <+: value
  decodes : decodeURIComponent value = some decoded
  allowed : ∀ u ∈ decoded, isForbidden u = false
  unescaped : unit '%' ∉ decoded
  resolves : resolve authority probe (scalars decoded) = some (probe, segments)
  page : tenant.IsPage segments

section Pages
variable {authority} {tenant : TenantCode}

structure Ordinary (c : Char) : Prop where
  not_tab : isTabOrNewline c = false
  not_blank : isOuterBlank c = false
  not_slash : isSlash c = false
  not_end : isPathEnd c = false
  not_escaped : inPathSet c = false

structure Inert (c : Char) : Prop extends Ordinary c where
  ascii : c.toNat < 0x80
  unreserved : isUnreserved c = true
  allowed : isForbidden (unit c) = false
  not_dot : c.toLower ≠ '.'
  not_percent : c.toLower ≠ '%'

theorem inert_of_isCodeChar {c : Char} (hc : isCodeChar c = true) : Inert c := by
  have hascii : c.toNat < 128 := by
    simp only [isCodeChar, Char.isAlphanum, Char.isAlpha, Char.isUpper, Char.isLower,
      Char.isDigit, Bool.or_eq_true, Bool.and_eq_true, decide_eq_true_eq, beq_iff_eq,
      UInt32.le_iff_toNat_le, ge_iff_le] at hc
    change ((((65 ≤ c.toNat ∧ c.toNat ≤ 90) ∨ 97 ≤ c.toNat ∧ c.toNat ≤ 122) ∨
      48 ≤ c.toNat ∧ c.toNat ≤ 57) ∨ c = '-') ∨ c = '_' at hc
    obtain (hc | rfl) | rfl := hc
    · omega
    · decide
    · decide
  have hall : ∀ n : Fin 128, isCodeChar (Char.ofNat n) = true →
      (isTabOrNewline (Char.ofNat n) = false ∧ isOuterBlank (Char.ofNat n) = false ∧
      isSlash (Char.ofNat n) = false ∧ isPathEnd (Char.ofNat n) = false ∧
      inPathSet (Char.ofNat n) = false) ∧ isUnreserved (Char.ofNat n) = true ∧
      isForbidden (unit (Char.ofNat n)) = false ∧ (Char.ofNat n).toLower ≠ '.' ∧
      (Char.ofNat n).toLower ≠ '%' := by
    decide +kernel
  have hchar := hall ⟨c.toNat, hascii⟩
  simp only [Char.ofNat_toNat] at hchar
  obtain ⟨⟨h₁, h₂, h₃, h₄, h₅⟩, h₆, h₇, h₈, h₉⟩ := hchar hc
  exact ⟨⟨h₁, h₂, h₃, h₄, h₅⟩, hascii, h₆, h₇, h₈, h₉⟩

theorem TenantCode.isCodeChar (tenant : TenantCode) {c : Char} (hc : c ∈ tenant.code) :
    Gaoming.isCodeChar c = true :=
  List.all_eq_true.mp tenant.plain c hc

theorem TenantCode.inert (tenant : TenantCode) {c : Char} (hc : c ∈ tenant.code) : Inert c :=
  inert_of_isCodeChar (tenant.isCodeChar hc)

theorem TenantCode.percent_notMem (tenant : TenantCode) : '%' ∉ tenant.code :=
  fun h => absurd rfl (tenant.inert h).not_percent

theorem TenantCode.encode (tenant : TenantCode) :
    encodeURIComponent (ofChars tenant.code) = some tenant.code := by
  have hkept : (tenant.code.flatMap fun c => if isUnreserved c then [c] else percentEncode c) =
      tenant.code.flatMap fun c => [c] := by
    apply List.flatMap_congr
    intro c hc
    rw [if_pos (tenant.inert hc).unreserved]
  rw [encodeURIComponent, scalars_ofChars, if_pos rfl, hkept, List.flatMap_singleton']

section Check
variable {value decoded : JsString} {segments : List (List Char)}

theorem Passes.reads (h : Passes authority tenant value decoded segments) :
    Reads (scalars value) (scalars decoded) :=
  reads_decodeURIComponent h.decodes

theorem Passes.not_forbidden (h : Passes authority tenant value decoded segments) {c : Char}
    (hc : c ∈ scalars decoded) (hsmall : c.toNat < 0xD800) : isForbidden (unit c) = false :=
  h.allowed _ (mem_of_mem_scalars hc hsmall)

theorem Passes.blank_eq (h : Passes authority tenant value decoded segments) {c : Char}
    (hc : c ∈ scalars decoded) (hblank : isOuterBlank c = true) : c = ' ' := by
  have hle : c.toNat ≤ 0x20 := by simpa [isOuterBlank] using hblank
  have hallowed := h.not_forbidden hc (by omega)
  have hunit : (unit c).toNat = c.toNat := by
    rw [unit, UInt16.toNat_ofNat']
    omega
  simp only [isForbidden, hunit, Bool.or_eq_false_iff, decide_eq_false_iff_not] at hallowed
  rw [← Char.ofNat_toNat c, show c.toNat = 0x20 by omega]

theorem Passes.not_tab (h : Passes authority tenant value decoded segments) {c : Char}
    (hc : c ∈ scalars decoded) : isTabOrNewline c = false := by
  rw [Bool.eq_false_iff]
  intro htab
  have hblank : isOuterBlank c = true := by
    simp only [isTabOrNewline, Bool.or_eq_true, beq_iff_eq] at htab
    obtain (rfl | rfl) | rfl := htab <;> decide
  rw [h.blank_eq hc hblank] at htab
  exact absurd htab (by decide)

theorem Passes.not_tab_written (h : Passes authority tenant value decoded segments) {c : Char}
    (hc : c ∈ scalars value) : isTabOrNewline c = false := by
  rw [Bool.eq_false_iff]
  intro htab
  have := h.not_tab (h.reads.mem outside_isTabOrNewline hc htab)
  rw [htab] at this
  cases this

theorem Passes.clean_written (h : Passes authority tenant value decoded segments) {r : List Char}
    (hr : scalars value = '/' :: r) : clean (scalars value) = '/' :: r.rdropWhile isOuterBlank := by
  rw [hr, clean_slash]
  exact fun c hc => h.not_tab_written (by rw [hr]; exact List.mem_cons_of_mem _ hc)

end Check

end Pages

/-- The path of a value as it is written, in lower case. -/
def writtenPath (value : JsString) : List Char :=
  ((clean (scalars value)).takeWhile fun c => !isPathEnd c).map Char.toLower

/-- No escape of the path stands for one of its delimiters, and none for a blank at its end
unless a query or a fragment follows. -/
structure PlainPath (value : JsString) : Prop where
  delimiters : ∀ c ∈ ['/', '?', '#'], ¬escapeOf c <:+: writtenPath value
  blank : escapeOf ' ' <:+ writtenPath value → ∃ c ∈ clean (scalars value), isPathEnd c = true

def beforeQuery (s : List Char) : List Char :=
  (s.rdropWhile isOuterBlank).takeWhile fun c => !isPathEnd c

section Escapes
variable {authority} {tenant : TenantCode} {value decoded : JsString}
  {segments : List (List Char)} {r d : List Char}

theorem Passes.writtenPath_eq (h : Passes authority tenant value decoded segments)
    (hr : scalars value = '/' :: r) :
    writtenPath value = '/' :: (beforeQuery r).map Char.toLower := by
  rw [writtenPath, h.clean_written hr, List.takeWhile_cons_of_pos (by decide), List.map_cons]
  rfl

theorem Passes.delimiters (h : Passes authority tenant value decoded segments)
    (hplain : PlainPath value) (hr : scalars value = '/' :: r) {c : Char}
    (hc : c ∈ ['/', '?', '#']) : ¬escapeOf c <:+: (beforeQuery r).map Char.toLower :=
  fun hpart => hplain.delimiters c hc
    (h.writtenPath_eq hr ▸ hpart.trans (List.suffix_cons _ _).isInfix)

theorem TenantCode.allowed (tenant : TenantCode) {c : Char} (hc : c ∈ tenant.code) :
    c.toNat < 0x80 ∧ isForbidden (unit c) = false ∧ c ≠ '%' :=
  ⟨(tenant.inert hc).ascii, (tenant.inert hc).allowed,
    fun h => tenant.percent_notMem (h ▸ hc)⟩

theorem TenantCode.reads (tenant : TenantCode) {s : List Char} (hs : ∀ c ∈ s, c ∈ tenant.code) :
    Reads s s :=
  reads_self fun h => tenant.percent_notMem (hs _ h)

end Escapes

end Gaoming
