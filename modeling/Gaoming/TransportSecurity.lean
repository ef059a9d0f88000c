import Gaoming.IPText
import Gaoming.WireRoundTrip
import Gaoming.WordTrim

/-!
# The credentials of the agent's connection

`normalizeGRPCAddr` of the agent's configuration and `grpcTransportCredentials`, on Go
strings, which are any bytes. Hosts that look local get a connection without TLS.
-/

namespace Gaoming.Transport
open HostPort IPText Delimited
open Native (bytes)

/-- The encodings of the runes of `unicode.IsSpace`. -/
def spaces : List Bytes :=
  [[0x09], [0x0A], [0x0B], [0x0C], [0x0D], [0x20], [0xC2, 0x85], [0xC2, 0xA0], [0xE1, 0x9A, 0x80],
    [0xE2, 0x80, 0x80], [0xE2, 0x80, 0x81], [0xE2, 0x80, 0x82], [0xE2, 0x80, 0x83],
    [0xE2, 0x80, 0x84], [0xE2, 0x80, 0x85], [0xE2, 0x80, 0x86], [0xE2, 0x80, 0x87],
    [0xE2, 0x80, 0x88], [0xE2, 0x80, 0x89], [0xE2, 0x80, 0x8A], [0xE2, 0x80, 0xA8],
    [0xE2, 0x80, 0xA9], [0xE2, 0x80, 0xAF], [0xE2, 0x81, 0x9F], [0xE3, 0x80, 0x80]]

def trimSpace (s : Bytes) : Bytes := WordTrim.trim spaces s

def brackets : List Bytes := [[openBracket], [closeBracket]]

/-- `strings.Trim(s, "[]")`. -/
def trimBrackets (s : Bytes) : Bytes := WordTrim.trim brackets s

def lower (c : UInt8) : UInt8 := if 0x41 ≤ c ∧ c ≤ 0x5A then c + 0x20 else c

/-- A text with the letters that fold to an ASCII letter: its upper case, the long s and
the sign of the kelvin. -/
def fold : Bytes → Bytes
  | 0xC5 :: 0xBF :: rest => 0x73 :: fold rest
  | 0xE2 :: 0x84 :: 0xAA :: rest => 0x6B :: fold rest
  | c :: rest => lower c :: fold rest
  | [] => []

/-- `strings.EqualFold` with an ASCII text in lower case. -/
def equalFold (s ascii : Bytes) : Bool := fold s = ascii

inductive Credentials
  | insecure
  | tls
  deriving DecidableEq

def isLoopbackIP (host : Bytes) : Bool := (IPText.parse (trimBrackets host)).any IP.isLoopback

def isLocalServiceHost (host : Bytes) : Bool :=
  let host := trimBrackets (trimSpace host)
  if host = [] then false
  else if dot ∈ host then false
  else true

def grpcTransportCredentials (addr : Bytes) : Credentials :=
  match splitHostPort (trimSpace addr) with
  | .ok (host, _) =>
    if equalFold host (bytes "localhost") then .insecure
    else if isLoopbackIP host then .insecure
    else if isLocalServiceHost host then .insecure
    else .tls
  | .error _ => .tls

def normalizeGRPCAddr (value : Bytes) : Bytes :=
  let value := trimSpace value
  if value = [] then bytes "127.0.0.1:8091"
  else
    match splitHostPort value with
    | .ok (host, port) => if host ≠ [] ∧ port ≠ [] then value else unsplit value
    | .error _ => unsplit value
where
  /-- The address of a value that is not a host and a port. -/
  unsplit (value : Bytes) : Bytes :=
    match IPText.parse (trimBrackets value) with
    | some ip => joinHostPort ip.text (bytes "443")
    | none => if colon ∉ value then joinHostPort value (bytes "443") else value

abbrev percent : UInt8 := 0x25

/-- An IP literal, with or without brackets; an IPv6 literal may have a zone. -/
def literal (host : Bytes) : Option IP :=
  match cutFirst percent (trimBrackets host) with
  | none => IPText.parse (trimBrackets host)
  | some (address, zone) => if zone ≠ [] ∧ colon ∈ address then IPText.parse address else none

/-- The hosts that may be reached without TLS. -/
def Local (host : Bytes) : Prop :=
  host.map lower = bytes "localhost" ∨ (∃ ip, literal host = some ip ∧ ip.isLoopback = true) ∨
    literal host = none ∧ dot ∉ host

/-- A connection without TLS goes to a local host, and the address of another machine gets
one with TLS. -/
structure Guarded (value : Bytes) : Prop where
  insecure : grpcTransportCredentials (normalizeGRPCAddr value) = .insecure →
    ∃ host port, splitHostPort (trimSpace (normalizeGRPCAddr value)) = .ok (host, port) ∧ Local host
  remote : ∀ host port ip,
    splitHostPort (trimSpace (normalizeGRPCAddr value)) = .ok (host, port) →
    literal host = some ip → ip.isLoopback = false →
    grpcTransportCredentials (normalizeGRPCAddr value) = .tls

/-- The value names another machine by an address without a dot: as the host of a host and
a port, or alone and neither an IPv4 address nor an IPv4-mapped one. -/
def Undotted (value : Bytes) : Prop :=
  match splitHostPort (trimSpace value) with
  | .ok (host, _) => ∃ ip, literal host = some ip ∧ ip.isLoopback = false ∧ dot ∉ host
  | .error _ =>
    ∃ ip, IPText.parse (trimBrackets (trimSpace value)) = some ip ∧ ip.isLoopback = false ∧
      ip.to4 = none

theorem spaces_ne_nil : ∀ w ∈ spaces, w ≠ [] := by decide

theorem brackets_ne_nil : ∀ w ∈ brackets, w ≠ [] := by decide

theorem notMem_spaces {c : UInt8} (hc : addressByte c = true ∨ c = openBracket ∨ c = closeBracket) :
    ∀ w ∈ spaces, c ∉ w := by
  have hspaces : ∀ w ∈ spaces, ∀ c ∈ w,
      ¬(addressByte c = true ∨ c = openBracket ∨ c = closeBracket) := by decide +kernel
  exact fun w hw hmem => hspaces w hw c hmem hc

theorem mem_trimSpace {c : UInt8} {s : Bytes}
    (hc : addressByte c = true ∨ c = openBracket ∨ c = closeBracket) : c ∈ trimSpace s ↔ c ∈ s :=
  WordTrim.mem_trim_iff (notMem_spaces hc)

theorem trimSpace_trimSpace (s : Bytes) : trimSpace (trimSpace s) = trimSpace s :=
  WordTrim.trim_trim spaces_ne_nil

theorem free_of_unbracketed {s : Bytes} (h : Unbracketed s) :
    WordTrim.FreeLeft brackets s ∧ WordTrim.FreeRight brackets s := by
  have hnot : ∀ w ∈ brackets, ∃ b ∈ w, b ∉ s := by
    simp only [brackets, List.forall_mem_cons, List.not_mem_nil, false_imp_iff, implies_true,
      and_true]
    exact ⟨⟨_, List.mem_singleton_self _, h.noOpen⟩, ⟨_, List.mem_singleton_self _, h.noClose⟩⟩
  constructor
  · intro w hw hfront
    obtain ⟨b, hb, hbs⟩ := hnot w hw
    exact hbs (hfront.subset hb)
  · intro w hw hback
    obtain ⟨b, hb, hbs⟩ := hnot w hw
    exact hbs (hback.subset hb)

theorem trimBrackets_of_unbracketed {s : Bytes} (h : Unbracketed s) : trimBrackets s = s :=
  WordTrim.trim_eq_self (free_of_unbracketed h).1 (free_of_unbracketed h).2

theorem Unbracketed.trimSpace {s : Bytes} (h : Unbracketed s) : Unbracketed (trimSpace s) :=
  ⟨fun hmem => h.noOpen ((mem_trimSpace (Or.inr (Or.inl rfl))).mp hmem),
    fun hmem => h.noClose ((mem_trimSpace (Or.inr (Or.inr rfl))).mp hmem)⟩

theorem unbracketed_of_spelled {s : Bytes} (h : Spelled s) : Unbracketed s :=
  ⟨fun hmem => absurd (h _ hmem) (by decide), fun hmem => absurd (h _ hmem) (by decide)⟩

theorem mem_fold {c : UInt8} (hc : c < 0x41) {s : Bytes} (h : c ∈ s) : c ∈ fold s := by
  have hne {d : UInt8} (hd : 0x41 ≤ d) : c ≠ d := by
    rintro rfl
    exact absurd hc (UInt8.not_lt.mpr hd)
  fun_induction fold s with
  | case1 rest ih =>
    simp only [List.mem_cons, hne (show 0x41 ≤ 0xC5 by decide), hne (show 0x41 ≤ 0xBF by decide),
      false_or] at h
    exact List.mem_cons_of_mem _ (ih h)
  | case2 rest ih =>
    simp only [List.mem_cons, hne (show 0x41 ≤ 0xE2 by decide), hne (show 0x41 ≤ 0x84 by decide),
      hne (show 0x41 ≤ 0xAA by decide), false_or] at h
    exact List.mem_cons_of_mem _ (ih h)
  | case3 d rest _ _ ih =>
    rcases List.mem_cons.mp h with rfl | h
    · rw [lower, if_neg fun hupper => hne hupper.1 rfl]
      exact List.mem_cons_self
    · exact List.mem_cons_of_mem _ (ih h)
  | case4 => exact h

section Host
variable {host : Bytes} {ip : IP}

theorem literal_of_parse (hhost : Unbracketed host) (h : IPText.parse host = some ip) :
    literal host = some ip := by
  have hpercent : percent ∉ host := fun hmem => absurd (spelled_of_parse h _ hmem) (by decide)
  rw [literal, trimBrackets_of_unbracketed hhost, cutFirst_eq_none hpercent]
  exact h

theorem colon_or_dot_of_literal (hhost : Unbracketed host) (h : literal host = some ip) :
    colon ∈ host ∨ dot ∈ host := by
  rw [literal, trimBrackets_of_unbracketed hhost] at h
  split at h
  · exact colon_or_dot_of_parse h
  · next address zone hcut =>
    obtain ⟨⟨-, hcolon⟩, -⟩ := Option.ite_none_right_eq_some.mp h
    rw [(cutFirst_eq_some_iff.mp hcut).1]
    exact Or.inl (List.mem_append_left _ hcolon)

theorem isLoopbackIP_iff (hhost : Unbracketed host) :
    isLoopbackIP host = true ↔ ∃ ip, IPText.parse host = some ip ∧ ip.isLoopback = true := by
  rw [isLoopbackIP, trimBrackets_of_unbracketed hhost, Option.any_eq_true]

theorem isLocalServiceHost_iff (hhost : Unbracketed host) :
    isLocalServiceHost host = true ↔ trimSpace host ≠ [] ∧ dot ∉ host := by
  have hdot : dot ∈ trimSpace host ↔ dot ∈ host := mem_trimSpace (Or.inl rfl)
  rw [isLocalServiceHost, trimBrackets_of_unbracketed (Unbracketed.trimSpace hhost)]
  split_ifs with hnil hmem
  · simp [hnil]
  · simp [hdot.mp hmem]
  · simp [hnil, ← hdot, hmem]

theorem equalFold_localhost (h : equalFold host (bytes "localhost") = true) :
    colon ∉ host ∧ dot ∉ host := by
  have hfold : fold host = bytes "localhost" := of_decide_eq_true h
  constructor
  · intro hmem
    exact absurd (hfold ▸ mem_fold (by decide) hmem) (by decide)
  · intro hmem
    exact absurd (hfold ▸ mem_fold (by decide) hmem) (by decide)

end Host

/-- What the credentials of an address with a host have to satisfy, and when they do. -/
theorem guarded_iff_of_split {addr host port : Bytes}
    (hsplit : splitHostPort (trimSpace addr) = .ok (host, port)) :
    ((grpcTransportCredentials addr = .insecure → Local host) ∧
        ∀ ip, literal host = some ip → ip.isLoopback = false →
          grpcTransportCredentials addr = .tls) ↔
      ¬∃ ip, literal host = some ip ∧ ip.isLoopback = false ∧ dot ∉ host := by
  have hhost : Unbracketed host := (splits_of_eq_ok hsplit).plainHost
  rw [grpcTransportCredentials, hsplit]
  dsimp only
  constructor
  · rintro ⟨-, hremote⟩ ⟨ip, hliteral, hloop, hdot⟩
    have hcolon : colon ∈ host := (colon_or_dot_of_literal hhost hliteral).resolve_right hdot
    have hne : trimSpace host ≠ [] :=
      List.ne_nil_of_mem ((mem_trimSpace (Or.inl rfl)).mpr hcolon)
    have htls := hremote ip hliteral hloop
    rw [if_pos ((isLocalServiceHost_iff hhost).mpr ⟨hne, hdot⟩)] at htls
    split_ifs at htls
  · intro hnone
    constructor
    · intro hinsecure
      split_ifs at hinsecure with hfold hloop hlocal
      · obtain ⟨hcolon, hdot⟩ := equalFold_localhost hfold
        refine Or.inr (Or.inr ⟨?_, hdot⟩)
        by_contra hliteral
        obtain ⟨ip, hip⟩ := Option.ne_none_iff_exists'.mp hliteral
        exact (colon_or_dot_of_literal hhost hip).elim hcolon hdot
      · obtain ⟨ip, hparse, hip⟩ := (isLoopbackIP_iff hhost).mp hloop
        exact Or.inr (Or.inl ⟨ip, literal_of_parse hhost hparse, hip⟩)
      · obtain ⟨-, hdot⟩ := (isLocalServiceHost_iff hhost).mp hlocal
        cases hliteral : literal host with
        | none => exact Or.inr (Or.inr ⟨hliteral, hdot⟩)
        | some ip =>
          refine Or.inr (Or.inl ⟨ip, hliteral, ?_⟩)
          by_contra hip
          exact hnone ⟨ip, hliteral, Bool.not_eq_true _ ▸ hip, hdot⟩
    · intro ip hliteral hip
      have hdot : dot ∈ host := by
        by_contra hdot
        exact hnone ⟨ip, hliteral, hip, hdot⟩
      rw [if_neg fun hfold => (equalFold_localhost hfold).2 hdot,
        if_neg fun hloop => ?_,
        if_neg fun hlocal => ((isLocalServiceHost_iff hhost).mp hlocal).2 hdot]
      obtain ⟨other, hparse, hother⟩ := (isLoopbackIP_iff hhost).mp hloop
      rw [literal_of_parse hhost hparse] at hliteral
      rw [← Option.some.inj hliteral, hother] at hip
      cases hip

section Value
variable {value addr host port : Bytes}

theorem guarded_of_error {e : AddrError} (haddr : normalizeGRPCAddr value = addr)
    (hsplit : splitHostPort (trimSpace addr) = .error e) : Guarded value := by
  have htls : grpcTransportCredentials (normalizeGRPCAddr value) = .tls := by
    rw [haddr, grpcTransportCredentials, hsplit]
  refine ⟨fun h => ?_, fun _ _ _ _ _ _ => htls⟩
  rw [htls] at h
  cases h

theorem guarded_iff (haddr : normalizeGRPCAddr value = addr)
    (hsplit : splitHostPort (trimSpace addr) = .ok (host, port)) :
    Guarded value ↔ ¬∃ ip, literal host = some ip ∧ ip.isLoopback = false ∧ dot ∉ host := by
  rw [← guarded_iff_of_split hsplit]
  constructor
  · rintro ⟨hinsecure, hremote⟩
    rw [haddr] at hinsecure hremote
    refine ⟨fun h => ?_, fun ip => hremote host port ip hsplit⟩
    obtain ⟨host', port', hsplit', hlocal⟩ := hinsecure h
    rw [hsplit] at hsplit'
    obtain ⟨rfl, -⟩ := Prod.mk.inj (Except.ok.inj hsplit')
    exact hlocal
  · rintro ⟨hinsecure, hremote⟩
    refine ⟨fun h => ?_, fun host' port' ip hsplit' => ?_⟩
    · rw [haddr] at h ⊢
      exact ⟨host, port, hsplit, hinsecure h⟩
    · rw [haddr] at hsplit' ⊢
      rw [hsplit] at hsplit'
      obtain ⟨rfl, -⟩ := Prod.mk.inj (Except.ok.inj hsplit')
      exact hremote ip

theorem trimBrackets_bracket {b : UInt8} (hb : b = openBracket ∨ b = closeBracket) (s : Bytes) :
    trimBrackets (b :: s) = trimBrackets s := by
  have hdrop : WordTrim.trimLeft brackets (b :: s) = WordTrim.trimLeft brackets s := by
    rcases hb with rfl | rfl <;> rfl
  rw [trimBrackets, trimBrackets, WordTrim.trim, WordTrim.trim, hdrop]

theorem Unbracketed.append {s t : Bytes} (hs : Unbracketed s) (ht : Unbracketed t) :
    Unbracketed (s ++ colon :: t) := by
  constructor
  · simp only [List.mem_append, List.mem_cons, not_or]
    exact ⟨hs.noOpen, by decide, ht.noOpen⟩
  · simp only [List.mem_append, List.mem_cons, not_or]
    exact ⟨hs.noClose, by decide, ht.noClose⟩

/-- A text that splits with an empty side is not an address. -/
theorem parse_of_splits (h : Splits value host port) (hempty : host = [] ∨ port = []) :
    IPText.parse (trimBrackets value) = none := by
  obtain ⟨rfl | ⟨rfl, hcolon⟩, hhost, hport, hlast⟩ := h
  · rw [trimBrackets_bracket (Or.inl rfl)]
    by_cases hnil : host = []
    · subst hnil
      have hplain : Unbracketed ([] ++ colon :: port) := Unbracketed.append hhost hport
      rw [List.nil_append, trimBrackets_bracket (Or.inr rfl), ← List.nil_append (colon :: port),
        trimBrackets_of_unbracketed hplain]
      exact parse_one_colon List.not_mem_nil hlast
    · obtain rfl : port = [] := hempty.resolve_left hnil
      -- The closing bracket is not at an end, so it stays.
      have hleft : WordTrim.FreeLeft brackets (host ++ [closeBracket, colon]) := by
        obtain ⟨c, rest, rfl⟩ := List.exists_cons_of_ne_nil hnil
        refine WordTrim.freeLeft_cons brackets_ne_nil ?_
        intro w hw hc
        rcases List.mem_cons.mp hw with rfl | hw
        · exact hhost.noOpen (List.mem_singleton.mp hc ▸ List.mem_cons_self)
        · rw [List.mem_singleton.mp hw] at hc
          exact hhost.noClose (List.mem_singleton.mp hc ▸ List.mem_cons_self)
      have hright : WordTrim.FreeRight brackets (host ++ [closeBracket, colon]) := by
        rw [← List.singleton_append, ← List.append_assoc]
        exact WordTrim.freeRight_concat brackets_ne_nil (by decide)
      rw [trimBrackets, WordTrim.trim_eq_self hleft hright]
      by_contra hparse
      obtain ⟨ip, hip⟩ := Option.ne_none_iff_exists'.mp hparse
      exact absurd (spelled_of_parse hip closeBracket (by simp)) (by decide)
  · rw [trimBrackets_of_unbracketed (Unbracketed.append hhost hport)]
    exact parse_one_colon hcolon hlast

theorem trimSpace_joined (hvalue : WordTrim.FreeLeft spaces value) :
    trimSpace (value ++ colon :: bytes "443") = value ++ colon :: bytes "443" := by
  have hlast : value ++ colon :: bytes "443" = (value ++ [colon, 0x34, 0x34]) ++ [0x33] := by
    rw [List.append_assoc]
    rfl
  refine WordTrim.trim_eq_self (hvalue.append (notMem_spaces (Or.inl rfl))) ?_
  rw [hlast]
  exact WordTrim.freeRight_concat spaces_ne_nil (notMem_spaces (Or.inl rfl))

theorem freeLeft_text (ip : IP) : WordTrim.FreeLeft spaces ip.text := by
  have hmem := colon_or_dot_of_parse (parse_text ip)
  cases htext : ip.text with
  | nil => simp [htext] at hmem
  | cons c rest =>
    refine WordTrim.freeLeft_cons spaces_ne_nil (notMem_spaces (Or.inl ?_))
    exact addressByte_text ip c (htext ▸ List.mem_cons_self)

theorem trimSpace_joinHostPort (ip : IP) :
    trimSpace (joinHostPort ip.text (bytes "443")) = joinHostPort ip.text (bytes "443") := by
  unfold joinHostPort
  split_ifs
  · have hjoined : openBracket :: (ip.text ++ closeBracket :: colon :: bytes "443") =
        (openBracket :: (ip.text ++ [closeBracket])) ++ colon :: bytes "443" := by simp
    rw [hjoined]
    exact trimSpace_joined
      (WordTrim.freeLeft_cons spaces_ne_nil (notMem_spaces (Or.inr (Or.inl rfl))))
  · exact trimSpace_joined (freeLeft_text ip)

/-- Behind a value without a colon the port is found, and the host has no colon. -/
theorem colon_notMem_host (hvalue : colon ∉ value)
    (h : Splits (value ++ colon :: bytes "443") host port) : colon ∉ host := by
  obtain ⟨hform | ⟨-, hcolon⟩, -, -, hlast⟩ := h
  · have hcut : cutLast colon (value ++ colon :: bytes "443") =
        some (openBracket :: (host ++ [closeBracket]), port) :=
      cutLast_eq_some_iff.mpr ⟨by rw [hform]; simp, hlast⟩
    have hcut' : cutLast colon (value ++ colon :: bytes "443") = some (value, bytes "443") :=
      cutLast_eq_some_iff.mpr ⟨rfl, by decide⟩
    rw [hcut'] at hcut
    obtain ⟨rfl, -⟩ := Prod.mk.inj (Option.some.inj hcut)
    exact fun hmem => hvalue (by simp [hmem])
  · exact hcolon

theorem guarded_of_unsplit {e : AddrError} (hsplit : splitHostPort (trimSpace value) = .error e)
    (hne : trimSpace value ≠ []) :
    Guarded value ↔ ¬∃ ip, IPText.parse (trimBrackets (trimSpace value)) = some ip ∧
      ip.isLoopback = false ∧ ip.to4 = none := by
  have haddr : normalizeGRPCAddr value = normalizeGRPCAddr.unsplit (trimSpace value) := by
    simp only [normalizeGRPCAddr, hne, if_false, hsplit]
  cases hparse : IPText.parse (trimBrackets (trimSpace value)) with
  | some ip =>
    have hjoin : normalizeGRPCAddr value = joinHostPort ip.text (bytes "443") := by
      rw [haddr, normalizeGRPCAddr.unsplit, hparse]
    have hplain : Unbracketed ip.text := unbracketed_of_spelled (addressByte_text ip)
    have hsplit' : splitHostPort (trimSpace (joinHostPort ip.text (bytes "443"))) =
        .ok (ip.text, bytes "443") := by
      rw [trimSpace_joinHostPort]
      exact splitHostPort_joinHostPort hplain ⟨by decide, by decide⟩ (by decide)
    rw [guarded_iff hjoin hsplit', literal_of_parse hplain (parse_text ip), dot_mem_text_iff,
      Bool.not_eq_true, Option.isSome_eq_false_iff, Option.isNone_iff_eq_none]
    simp
  | none =>
    simp only [reduceCtorEq, false_and, exists_false, not_false_eq_true, iff_true]
    by_cases hcolon : colon ∈ trimSpace value
    · have hsame : normalizeGRPCAddr value = trimSpace value := by
        rw [haddr, normalizeGRPCAddr.unsplit, hparse]
        exact if_neg (not_not.mpr hcolon)
      exact guarded_of_error hsame (by rw [trimSpace_trimSpace, hsplit])
    · have hjoin : normalizeGRPCAddr value = trimSpace value ++ colon :: bytes "443" := by
        rw [haddr, normalizeGRPCAddr.unsplit, hparse]
        dsimp only
        rw [if_pos hcolon, joinHostPort, if_neg hcolon]
      have htrim := trimSpace_joined (WordTrim.free_trim (s := value) spaces_ne_nil).1
      cases hsplit' : splitHostPort (trimSpace (trimSpace value ++ colon :: bytes "443")) with
      | error e => exact guarded_of_error hjoin hsplit'
      | ok r =>
        obtain ⟨host, port⟩ := r
        rw [guarded_iff hjoin hsplit']
        rintro ⟨ip, hliteral, -, hdot⟩
        have hsplits := splits_of_eq_ok hsplit'
        have hcolon' : colon ∉ host := colon_notMem_host hcolon (htrim ▸ hsplits)
        exact (colon_or_dot_of_literal hsplits.plainHost hliteral).elim hcolon' hdot

end Value

theorem guarded_iff_not_undotted (value : Bytes) : Guarded value ↔ ¬Undotted value := by
  by_cases hempty : trimSpace value = []
  · have haddr : normalizeGRPCAddr value = bytes "127.0.0.1:8091" := by
      simp only [normalizeGRPCAddr, hempty, if_true]
    have hsplit : splitHostPort (trimSpace (bytes "127.0.0.1:8091")) =
        .ok (bytes "127.0.0.1", bytes "8091") := by decide +kernel
    have hliteral : literal (bytes "127.0.0.1") = some (.ofIPv4 0x7F00 1) := by decide +kernel
    have hnot : ¬Undotted value := by
      unfold Undotted
      rw [hempty]
      rintro ⟨ip, hparse, -⟩
      cases hparse
    rw [guarded_iff haddr hsplit, iff_true_right hnot, hliteral]
    rintro ⟨ip, hip, hloop, -⟩
    rw [← Option.some.inj hip] at hloop
    exact absurd hloop (by decide)
  · unfold Undotted
    cases hsplit : splitHostPort (trimSpace value) with
    | error e => exact guarded_of_unsplit hsplit hempty
    | ok r =>
      obtain ⟨host, port⟩ := r
      have hsame : normalizeGRPCAddr value = trimSpace value := by
        simp only [normalizeGRPCAddr, hempty, if_false, hsplit]
        split_ifs with hfull
        · rfl
        · have hside : host = [] ∨ port = [] := by
            rwa [ne_eq, ne_eq, ← not_or, not_not] at hfull
          have hsplits := splits_of_eq_ok hsplit
          have hcolon : colon ∈ trimSpace value := by
            rcases hsplits.form with hform | ⟨hform, -⟩ <;> rw [hform] <;> simp
          rw [normalizeGRPCAddr.unsplit, parse_of_splits hsplits hside]
          exact if_neg (not_not.mpr hcolon)
      exact guarded_iff hsame (by rw [trimSpace_trimSpace, hsplit])

/-- An IPv6 address of another machine gets no TLS. -/
theorem ipv6_host_without_tls :
    splitHostPort (trimSpace (normalizeGRPCAddr (bytes "[2001:db8::1]:443"))) =
        .ok (bytes "2001:db8::1", bytes "443") ∧
      literal (bytes "2001:db8::1") = some ⟨[0x2001, 0x0DB8, 0, 0, 0, 0, 0, 1], rfl⟩ ∧
      grpcTransportCredentials (normalizeGRPCAddr (bytes "[2001:db8::1]:443")) = .insecure ∧
      ¬Guarded (bytes "[2001:db8::1]:443") := by
  have hsplit : splitHostPort (trimSpace (normalizeGRPCAddr (bytes "[2001:db8::1]:443"))) =
      .ok (bytes "2001:db8::1", bytes "443") := by decide +kernel
  have hliteral : literal (bytes "2001:db8::1") =
      some ⟨[0x2001, 0x0DB8, 0, 0, 0, 0, 0, 1], rfl⟩ := by decide +kernel
  have hinsecure : grpcTransportCredentials (normalizeGRPCAddr (bytes "[2001:db8::1]:443")) =
      .insecure := by decide +kernel
  refine ⟨hsplit, hliteral, hinsecure, fun hguarded => ?_⟩
  have htls := hguarded.remote _ _ _ hsplit hliteral (by decide)
  rw [hinsecure] at htls
  cases htls

end Gaoming.Transport
