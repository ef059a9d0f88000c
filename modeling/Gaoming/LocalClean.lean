import Gaoming.FileTree
import Gaoming.WireRoundTrip

/-!
# Cleaning the working copy

`Manager.Clean` of the local dependencies removes seven build outputs of the working
directory and keeps those that hold the private state of `Manager.Dir`. It removes by
relative paths, from where the process really is, and decides by absolute paths, from what
`os.Getwd` reports.
-/

namespace Gaoming.LocalDeps
open FileTree
open Native (Bytes bytes)

def slash : UInt8 := 0x2F
def dot : UInt8 := 0x2E

def parsePath (text : Bytes) : Path Bytes where
  absolute := text.head? = some slash
  parts := (text.splitOn slash).filterMap fun part =>
    if part = [] ∨ part = [dot] then none
    else if part = [dot, dot] then some .up
    else some (.name part)

/-- Links the kernel follows in one look-up. -/
def kernelLinks : ℕ := 40

/-- Links `filepath.EvalSymlinks` follows. -/
def evalLinks : ℕ := 255

structure Process where
  tree : Files Bytes
  cwd : Loc Bytes
  cwd_dir : tree.node cwd = some .dir
  pwd : Option Bytes

def Process.stat (w : Process) (t : Files Bytes) (path : Path Bytes) :
    Except LookupError (Loc Bytes) :=
  lookup t kernelLinks (if path.absolute then [] else w.cwd) path.parts

/-- `os.Getwd`, once the tree is `t`: `$PWD` where it leads to the working directory. -/
def Process.getwd (w : Process) (t : Files Bytes) : Option (List (Step Bytes)) :=
  if t.node w.cwd = none then none
  else
    match w.pwd.map parsePath with
    | none => some (names w.cwd)
    | some pwd =>
      if pwd.absolute ∧ w.stat t pwd = .ok w.cwd then some pwd.parts else some (names w.cwd)

def Process.abs (w : Process) (t : Files Bytes) (path : Path Bytes) : Option (Loc Bytes) :=
  if path.absolute then some (lexical path.parts)
  else (w.getwd t).map fun wd => lexical (wd ++ path.parts)

structure Cleaned where
  parents : List Bytes
  base : Bytes

def Cleaned.path (c : Cleaned) : Path Bytes where
  absolute := false
  parts := names (c.parents ++ [c.base])

def cleanedPaths : List Cleaned :=
  [⟨[], bytes "bin"⟩, ⟨[], bytes "dist"⟩, ⟨[], bytes "tmp"⟩, ⟨[], bytes ".tmp"⟩,
    ⟨[], bytes "coverage"⟩, ⟨[], bytes "cover.out"⟩, ⟨[bytes "web"], bytes "dist"⟩]

example : cleanedPaths.map Cleaned.path =
    ["bin", "dist", "tmp", ".tmp", "coverage", "cover.out", "web/dist"].map
      fun path => parsePath (bytes path) := by
  decide +kernel

/-- The directory that `os.RemoveAll` removes the base of a path from. -/
def Process.parentOf (w : Process) (t : Files Bytes) (c : Cleaned) : Option (Loc Bytes) :=
  match lookup t kernelLinks w.cwd (names c.parents) with
  | .ok l => if t.node l = some .dir then some l else none
  | .error _ => none

/-- `os.RemoveAll` that returns nil. A link is an entry like any other, and where there is no
entry nothing changes. -/
def Process.removeAll (w : Process) (t : Files Bytes) (c : Cleaned) : Files Bytes :=
  match w.parentOf t c with
  | some l => t.remove l c.base
  | none => t

/-- `os.RemoveAll` that returns an error on the way. -/
def Process.RemoveAllFails (w : Process) (t : Files Bytes) (c : Cleaned) (t' : Files Bytes) :
    Prop :=
  t' = t ∨ ∃ l, w.parentOf t c = some l ∧ PartlyRemoved t (l ++ [c.base]) t'

structure Manager where
  dir : Bytes

/-- `filepath.EvalSymlinks` of the absolute `Dir`, which stands as it is where it leads
nowhere; `none` is an error. -/
def protectedPath (w : Process) (m : Manager) : Option (Loc Bytes) :=
  (w.abs w.tree (parsePath m.dir)).bind fun absolute =>
    match lookup w.tree evalLinks [] (names absolute) with
    | .ok real => some real
    | .error .notExist => some absolute
    | .error _ => none

/-- The test on `filepath.Rel`: `.`, or a path that does not start with `..`. -/
def keep (absolute data : Loc Bytes) : Bool := (relative absolute data).head? ≠ some .up

/-- The second loop of `Clean`, from the tree it finds to the tree it leaves. -/
inductive Loop (w : Process) (data : Loc Bytes) :
    List Cleaned → Files Bytes → Files Bytes → Prop
  | done (t : Files Bytes) : Loop w data [] t t
  | absFails (c : Cleaned) (rest : List Cleaned) (t : Files Bytes) : Loop w data (c :: rest) t t
  | keeps {c : Cleaned} {rest : List Cleaned} {t t' : Files Bytes} {absolute : Loc Bytes}
      (habs : w.abs t c.path = some absolute) (hkeep : keep absolute data = true)
      (hrest : Loop w data rest t t') : Loop w data (c :: rest) t t'
  | removes {c : Cleaned} {rest : List Cleaned} {t t' : Files Bytes} {absolute : Loc Bytes}
      (habs : w.abs t c.path = some absolute) (hkeep : keep absolute data = false)
      (hrest : Loop w data rest (w.removeAll t c) t') : Loop w data (c :: rest) t t'
  | removeFails {c : Cleaned} {rest : List Cleaned} {t t' : Files Bytes} {absolute : Loc Bytes}
      (habs : w.abs t c.path = some absolute) (hkeep : keep absolute data = false)
      (hfails : w.RemoveAllFails t c t') : Loop w data (c :: rest) t t'

/-- The trees that `Manager.Clean` may leave, with an error or not. -/
inductive Cleans (w : Process) (m : Manager) : Files Bytes → Prop
  | protectFails : Cleans w m w.tree
  | loop {data : Loc Bytes} {t : Files Bytes} (hdata : protectedPath w m = some data)
      (h : Loop w data cleanedPaths w.tree t) : Cleans w m t

def Keeps (home : Loc Bytes) (t t' : Files Bytes) : Prop :=
  ∀ p, Above home p → t.node p ≠ none → t'.node p ≠ none

/-- A turn of the loop that returns no error. -/
def next (w : Process) (data : Loc Bytes) (t : Files Bytes) (c : Cleaned) : Files Bytes :=
  match w.abs t c.path with
  | none => t
  | some absolute => if keep absolute data then t else w.removeAll t c

/-- Wherever a path really holds an entry below `home`, its absolute path leads down to
`data` by its names. -/
def Recognised (w : Process) (data home : Loc Bytes) (t : Files Bytes) (c : Cleaned) : Prop :=
  ∀ absolute l p, w.abs t c.path = some absolute → w.parentOf t c = some l → Above home p →
    t.node p ≠ none → l ++ [c.base] <+: p → absolute <+: data

theorem keep_iff (absolute data : Loc Bytes) : keep absolute data = true ↔ absolute <+: data := by
  rw [keep, decide_eq_true_iff, relative_head_ne_up_iff]

section Steps
variable {w : Process} {data home : Loc Bytes} {t t' : Files Bytes} {c : Cleaned}

theorem removeAllFails_removeAll (w : Process) (t : Files Bytes) (c : Cleaned) :
    w.RemoveAllFails t c (w.removeAll t c) := by
  rw [Process.removeAll]
  cases h : w.parentOf t c with
  | none => exact Or.inl rfl
  | some l => exact Or.inr ⟨l, h, partlyRemoved_remove t l c.base⟩

theorem RemoveAllFails.partlyRemoved (h : w.RemoveAllFails t c t') : PartlyRemoved t [] t' := by
  rcases h with rfl | ⟨l, -, hpart⟩
  · exact .refl t' []
  · exact hpart.below_root

theorem partlyRemoved_next (w : Process) (data : Loc Bytes) (t : Files Bytes) (c : Cleaned) :
    PartlyRemoved t [] (next w data t c) := by
  rw [next]
  cases w.abs t c.path with
  | none => exact .refl t []
  | some absolute =>
    dsimp only
    split_ifs with hkeep
    · exact .refl t []
    · exact RemoveAllFails.partlyRemoved (removeAllFails_removeAll w t c)

theorem Recognised.keeps_removed (h : Recognised w data home t c) {absolute : Loc Bytes}
    (habs : w.abs t c.path = some absolute) (hkeep : keep absolute data = false)
    (hfails : w.RemoveAllFails t c t') : Keeps home t t' := by
  intro p habove hp
  rcases hfails with rfl | ⟨l, hl, hpart⟩
  · exact hp
  · rcases hpart p with heq | ⟨hholds, -⟩
    · rwa [heq]
    · have := (keep_iff absolute data).mpr (h absolute l p habs hl habove hp hholds)
      rw [hkeep] at this
      cases this

theorem Loop.eq_of_getwd_eq_none {cs : List Cleaned} (h : Loop w data cs t t')
    (hwd : w.getwd t = none) : t' = t := by
  have habs : ∀ c : Cleaned, w.abs t c.path = none := by
    intro c
    simp [Process.abs, Cleaned.path, hwd]
  cases h with
  | done => rfl
  | absFails => rfl
  | keeps h => cases (habs _).symm.trans h
  | removes h => cases (habs _).symm.trans h
  | removeFails h => cases (habs _).symm.trans h

end Steps

/-- Every path is recognised at its turn, when the ones before it are done. -/
def AllRecognised (w : Process) (data home : Loc Bytes) (cs : List Cleaned) (t : Files Bytes) :
    Prop :=
  ∀ before c after, cs = before ++ c :: after →
    Recognised w data home (before.foldl (next w data) t) c

theorem allRecognised_cons (w : Process) (data home : Loc Bytes) (c : Cleaned)
    (cs : List Cleaned) (t : Files Bytes) :
    AllRecognised w data home (c :: cs) t ↔
      Recognised w data home t c ∧ AllRecognised w data home cs (next w data t c) := by
  constructor
  · intro h
    exact ⟨h [] c cs rfl, fun before d after heq => h (c :: before) d after (by rw [heq]; rfl)⟩
  · rintro ⟨hc, hcs⟩ before d after heq
    cases before with
    | nil =>
      obtain ⟨rfl, -⟩ := List.cons.inj heq
      exact hc
    | cons b before =>
      obtain ⟨rfl, hrest⟩ := List.cons.inj heq
      exact hcs before d after hrest

section Runs
variable {w : Process} {data home : Loc Bytes}

theorem Loop.keeps_of_recognised {cs : List Cleaned} {t t' : Files Bytes}
    (h : Loop w data cs t t') (hcs : AllRecognised w data home cs t) : Keeps home t t' := by
  induction h with
  | done t => exact fun _ _ hp => hp
  | absFails c rest t => exact fun _ _ hp => hp
  | keeps habs hkeep _ ih =>
    obtain ⟨-, hrest⟩ := (allRecognised_cons ..).mp hcs
    simp only [next, habs, hkeep, if_true] at hrest
    exact ih hrest
  | removes habs hkeep _ ih =>
    obtain ⟨hc, hrest⟩ := (allRecognised_cons ..).mp hcs
    simp only [next, habs, hkeep, Bool.false_eq_true, if_false] at hrest
    intro p habove hp
    exact ih hrest p habove
      (hc.keeps_removed habs hkeep (removeAllFails_removeAll w _ _) p habove hp)
  | removeFails habs hkeep hfails =>
    obtain ⟨hc, -⟩ := (allRecognised_cons ..).mp hcs
    exact hc.keeps_removed habs hkeep hfails

theorem loop_self (cs : List Cleaned) (t : Files Bytes) : Loop w data cs t t := by
  cases cs with
  | nil => exact .done t
  | cons c rest => exact .absFails c rest t

theorem Loop.of_next {c : Cleaned} {cs : List Cleaned} {t t' : Files Bytes}
    (h : Loop w data cs (next w data t c) t') : Loop w data (c :: cs) t t' := by
  cases habs : w.abs t c.path with
  | none =>
    have hwd : w.getwd t = none := by simpa [Process.abs, Cleaned.path] using habs
    rw [next, habs] at h
    rw [h.eq_of_getwd_eq_none hwd]
    exact .absFails c cs t
  | some absolute =>
    simp only [next, habs] at h
    by_cases hkeep : keep absolute data = true
    · rw [if_pos hkeep] at h
      exact .keeps habs hkeep h
    · rw [if_neg hkeep] at h
      exact .removes habs (Bool.eq_false_iff.mpr hkeep) h

theorem loop_foldl_next (cs : List Cleaned) (t : Files Bytes) :
    Loop w data cs t (cs.foldl (next w data) t) := by
  induction cs generalizing t with
  | nil => exact .done t
  | cons c cs ih => exact .of_next (ih _)

theorem recognised_of_keeps {c : Cleaned} {cs : List Cleaned} {t : Files Bytes}
    (h : ∀ t', Loop w data (c :: cs) t t' → Keeps home t t') : Recognised w data home t c := by
  intro absolute l p habs hl habove hp hholds
  by_contra hnot
  have hkeep : keep absolute data = false :=
    Bool.eq_false_iff.mpr fun hkeep => hnot ((keep_iff absolute data).mp hkeep)
  -- what is lost here stays lost, so the loop may as well stop after this path
  have hstill := h _ (.removes habs hkeep (loop_self cs _)) p habove hp
  rw [Process.removeAll, hl] at hstill
  exact hstill (remove_node_of_above t hholds)

theorem loop_keeps_iff (cs : List Cleaned) (t : Files Bytes) :
    (∀ t', Loop w data cs t t' → Keeps home t t') ↔ AllRecognised w data home cs t := by
  refine ⟨?_, fun h t' hloop => hloop.keeps_of_recognised h⟩
  induction cs generalizing t with
  | nil =>
    intro _ before c after heq
    cases before <;> cases heq
  | cons c cs ih =>
    intro h
    refine (allRecognised_cons ..).mpr ⟨recognised_of_keeps h, ih _ fun t' hloop p habove hp => ?_⟩
    exact h t' (.of_next hloop) p habove ((partlyRemoved_next w data t c).node_ne_none hp)

end Runs

/-- `Dir` under the absolute path that `Manager.root` makes of it. -/
def RootLocated (w : Process) (m : Manager) (home : Loc Bytes) : Prop :=
  ∃ absolute, w.abs w.tree (parsePath m.dir) = some absolute ∧
    lookup w.tree kernelLinks [] (names absolute) = .ok home

/-- Where `Dir` really is, as the process finds it or as the manager does. -/
def Located (w : Process) (m : Manager) (home : Loc Bytes) : Prop :=
  w.stat w.tree (parsePath m.dir) = .ok home ∨ RootLocated w m home

structure PrivateState where
  process : Process
  manager : Manager
  home : Loc Bytes
  located : Located process manager home

/-- Two readings of where a path really is: its own entry, or what the entry leads to. -/
inductive Reading
  | entry
  | target
  deriving DecidableEq

def realLocation (w : Process) (c : Cleaned) : Reading → Option (Loc Bytes)
  | .entry => (w.parentOf w.tree c).map (· ++ [c.base])
  | .target => (w.stat w.tree c.path).toOption

def PrivateState.AboveCleaned (s : PrivateState) (r : Reading) : Prop :=
  ∃ c ∈ cleanedPaths, ∃ l, realLocation s.process c r = some l ∧ Above s.home l

/-- Whatever tree `Clean` leaves, the entries below `Dir` are still there, unless `Dir` is
above a cleaned path. -/
def PrivateState.Kept (s : PrivateState) (r : Reading) : Prop :=
  s.AboveCleaned r ∨ ∀ t, Cleans s.process s.manager t → Keeps s.home s.process.tree t

def Cleaned.names (c : Cleaned) : Loc Bytes := c.parents ++ [c.base]

section Names
variable (w : Process)

def Process.pwdLeads (t : Files Bytes) : Bool :=
  (w.pwd.map parsePath).any fun pwd => pwd.absolute && decide (w.stat t pwd = .ok w.cwd)

/-- The working directory by the cleaned name in `$PWD`, or by its own. -/
def Process.named (byPwd : Bool) : Loc Bytes :=
  if byPwd then lexical (((w.pwd.map parsePath).map Path.parts).getD []) else w.cwd

/-- Where the absolute path of `Dir` leads at first; one that leads nowhere stands as it is. -/
def Process.Resolves (m : Manager) (data : Loc Bytes) : Prop :=
  let dir := parsePath m.dir
  let absolute := dir.parts.foldl enter
    (if dir.absolute then [] else w.named (w.pwdLeads w.tree))
  lookup w.tree evalLinks [] (names absolute) = .ok data ∨
    lookup w.tree evalLinks [] (names absolute) = .error .notExist ∧ data = absolute

variable (data : Loc Bytes)

/-- `$PWD` leads to the working directory, and needs none of the paths before that are not
above `data` by its name. -/
def Process.leadsAfter (before : List Cleaned) : Bool :=
  w.pwdLeads w.tree && before.all fun b =>
    decide (w.named true ++ b.names <+: data) || w.pwdLeads (w.tree.remove w.cwd b.base)

def Process.nameOf (before : List Cleaned) (c : Cleaned) : Loc Bytes :=
  w.named (w.leadsAfter data before) ++ c.names

/-- The directory of a path is reached only through a path before it that is not above `data`
by name. -/
def Process.CutOff (before : List Cleaned) (c : Cleaned) : Prop :=
  ∃ earlier b later, before = earlier ++ b :: later ∧ ¬w.nameOf data earlier b <+: data ∧
    w.parentOf (w.tree.remove w.cwd b.base) c = none

end Names

/-- In the tree that `Clean` finds: each cleaned path at or above an entry below `Dir` is, by its
name, at or above the resolved `Dir`, or cut off. -/
def PrivateState.NamedAbove (s : PrivateState) : Prop :=
  ∀ data, s.process.Resolves s.manager data → ∀ before c after,
    cleanedPaths = before ++ c :: after → ∀ l p, s.process.parentOf s.process.tree c = some l →
      Above s.home p → s.process.tree.node p ≠ none → l ++ [c.base] <+: p →
        s.process.nameOf data before c <+: data ∨ s.process.CutOff data before c

section Turns
variable {w : Process} {m : Manager} {data home : Loc Bytes} {t : Files Bytes}

theorem Process.getwd_eq (h : t.node w.cwd ≠ none) :
    ∃ wd, w.getwd t = some wd ∧ lexical wd = w.named (w.pwdLeads t) := by
  rw [Process.getwd, if_neg h, Process.named, Process.pwdLeads]
  cases w.pwd.map parsePath with
  | none => exact ⟨_, rfl, lexical_names w.cwd⟩
  | some pwd =>
    dsimp only [Option.any_some, Option.map_some, Option.getD_some]
    by_cases hleads : pwd.absolute = true ∧ w.stat t pwd = .ok w.cwd
    · rw [if_pos hleads]
      exact ⟨_, rfl, by simp [hleads]⟩
    · rw [if_neg hleads]
      refine ⟨_, rfl, ?_⟩
      rw [if_neg (by simpa using hleads), lexical_names]

theorem Process.abs_path (h : t.node w.cwd ≠ none) (c : Cleaned) :
    w.abs t c.path = some (w.named (w.pwdLeads t) ++ c.names) := by
  obtain ⟨wd, hwd, hlexical⟩ := Process.getwd_eq h
  rw [Process.abs, if_neg (by simp [Cleaned.path]), hwd, Option.map_some, Cleaned.path,
    lexical_append_names, hlexical]
  rfl

theorem Process.protectedPath_eq_some_iff :
    protectedPath w m = some data ↔ w.Resolves m data := by
  have hcwd : w.tree.node w.cwd ≠ none := by simp [w.cwd_dir]
  obtain ⟨wd, hwd, hlexical⟩ := Process.getwd_eq hcwd
  have habs : w.abs w.tree (parsePath m.dir) = some ((parsePath m.dir).parts.foldl enter
      (if (parsePath m.dir).absolute then [] else w.named (w.pwdLeads w.tree))) := by
    rw [Process.abs, hwd, Option.map_some, ← hlexical, lexical, lexical, List.foldl_append,
      lexical]
    split_ifs <;> rfl
  rw [protectedPath, habs, Option.bind_some, Process.Resolves]
  cases lookup w.tree evalLinks [] (names ((parsePath m.dir).parts.foldl enter
      (if (parsePath m.dir).absolute then [] else w.named (w.pwdLeads w.tree)))) with
  | ok real => simp
  | error e =>
    cases e with
    | notExist => exact ⟨fun h => .inr ⟨rfl, (Option.some.inj h).symm⟩, by
        rintro (h | ⟨-, rfl⟩)
        · cases h
        · rfl⟩
    | notDir => simp
    | tooManyLinks => simp

theorem Process.parentOf_eq_some_iff {c : Cleaned} {l : Loc Bytes} :
    w.parentOf t c = some l ↔
      lookup t kernelLinks w.cwd (names c.parents) = .ok l ∧ t.node l = some .dir := by
  rw [Process.parentOf]
  cases lookup t kernelLinks w.cwd (names c.parents) with
  | ok r =>
    simp only [Option.ite_none_right_eq_some, Option.some.injEq, Except.ok.injEq]
    constructor
    · rintro ⟨hdir, rfl⟩
      exact ⟨rfl, hdir⟩
    · rintro ⟨rfl, hdir⟩
      exact ⟨hdir, rfl⟩
  | error e => simp

theorem Process.parentOf_base {c : Cleaned} (hc : c.parents = []) (ht : t.node w.cwd = some .dir) :
    w.parentOf t c = some w.cwd := by
  rw [Process.parentOf_eq_some_iff, hc]
  exact ⟨by rfl, ht⟩

theorem remove_node_cwd (t : Files Bytes) (l : Loc Bytes) (n : Bytes) :
    (t.remove l n).node l = t.node l := by
  refine if_neg fun h => ?_
  have hlength := h.length_le
  simp at hlength

theorem Process.pwdLeads_iff : w.pwdLeads t = true ↔
    ∃ pwd ∈ w.pwd.map parsePath, pwd.absolute = true ∧ w.stat t pwd = .ok w.cwd := by
  rw [Process.pwdLeads, Option.any_eq_true]
  simp only [Bool.and_eq_true, decide_eq_true_iff, Option.mem_def]

theorem pwdLeads_remove (h : PartlyRemoved w.tree [] t) (l : Loc Bytes) (n : Bytes) :
    w.pwdLeads (t.remove l n) = (w.pwdLeads t && w.pwdLeads (w.tree.remove l n)) := by
  rw [Bool.eq_iff_iff, Bool.and_eq_true, Process.pwdLeads_iff, Process.pwdLeads_iff,
    Process.pwdLeads_iff]
  constructor
  · rintro ⟨pwd, hpwd, habsolute, hleads⟩
    obtain ⟨hthere, hwithout⟩ := (h.lookup_remove_iff l n).mp hleads
    exact ⟨⟨pwd, hpwd, habsolute, hthere⟩, pwd, hpwd, habsolute, hwithout⟩
  · rintro ⟨⟨pwd, hpwd, habsolute, hthere⟩, pwd', hpwd', -, hwithout⟩
    obtain rfl : pwd = pwd' := Option.mem_unique hpwd hpwd'
    exact ⟨pwd, hpwd, habsolute, (h.lookup_remove_iff l n).mpr ⟨hthere, hwithout⟩⟩

theorem parentOf_remove_iff (h : PartlyRemoved w.tree [] t) {c : Cleaned} {l m : Loc Bytes}
    {n : Bytes} : w.parentOf (t.remove m n) c = some l ↔
      w.parentOf t c = some l ∧ w.parentOf (w.tree.remove m n) c = some l := by
  simp only [Process.parentOf_eq_some_iff, h.lookup_remove_iff]
  constructor
  · rintro ⟨⟨hr, hr'⟩, hdir⟩
    have hgone : ¬m ++ [n] <+: l := fun hmem => by
      rw [remove_node_of_above t hmem] at hdir
      cases hdir
    have hdir' : t.node l = some .dir := (if_neg hgone).symm.trans hdir
    exact ⟨⟨hr, hdir'⟩, hr', (if_neg hgone).trans (h.node_eq_some hdir')⟩
  · rintro ⟨⟨hr, hdir⟩, hr', hdir'⟩
    have hgone : ¬m ++ [n] <+: l := fun hmem => by
      rw [remove_node_of_above w.tree hmem] at hdir'
      cases hdir'
    exact ⟨⟨hr, hr'⟩, (if_neg hgone).trans hdir⟩

/-- What the turns of the loop leave of the tree, told from the tree it began with. -/
structure AtTurn (w : Process) (data : Loc Bytes) (before : List Cleaned) (t : Files Bytes) :
    Prop where
  part : PartlyRemoved w.tree [] t
  cwd : t.node w.cwd = some .dir
  leads : w.pwdLeads t = w.leadsAfter data before
  parent : ∀ c l, w.parentOf t c = some l ↔
    w.parentOf w.tree c = some l ∧ ¬w.CutOff data before c

theorem leadsAfter_concat (before : List Cleaned) (b : Cleaned) :
    w.leadsAfter data (before ++ [b]) = (w.leadsAfter data before &&
      (decide (w.named true ++ b.names <+: data) || w.pwdLeads (w.tree.remove w.cwd b.base))) := by
  simp only [Process.leadsAfter, List.all_append, List.all_cons, List.all_nil, Bool.and_true,
    Bool.and_assoc]

theorem cutOff_concat (before : List Cleaned) (b c : Cleaned) :
    w.CutOff data (before ++ [b]) c ↔ w.CutOff data before c ∨
      ¬w.nameOf data before b <+: data ∧ w.parentOf (w.tree.remove w.cwd b.base) c = none := by
  constructor
  · rintro ⟨earlier, d, later, heq, hname, hcut⟩
    rcases List.eq_nil_or_concat later with rfl | ⟨later, d', rfl⟩
    · obtain ⟨rfl, hd⟩ := List.append_inj' heq rfl
      obtain rfl := (List.cons.inj hd).1
      exact .inr ⟨hname, hcut⟩
    · have hsplit : before ++ [b] = (earlier ++ d :: later) ++ [d'] := by
        rw [heq, List.concat_eq_append, List.append_assoc, List.cons_append]
      obtain ⟨rfl, -⟩ := List.append_inj' hsplit rfl
      exact .inl ⟨earlier, d, later, rfl, hname, hcut⟩
  · rintro (⟨earlier, d, later, rfl, hname, hcut⟩ | ⟨hname, hcut⟩)
    · exact ⟨earlier, d, later ++ [b], by simp, hname, hcut⟩
    · exact ⟨before, b, [], rfl, hname, hcut⟩

theorem AtTurn.abs_eq {before : List Cleaned} (h : AtTurn w data before t) (c : Cleaned) :
    w.abs t c.path = some (w.nameOf data before c) := by
  rw [Process.abs_path (by simp [h.cwd]), h.leads, Process.nameOf]

theorem AtTurn.next {before : List Cleaned} {b : Cleaned} (h : AtTurn w data before t)
    (hb : b.parents = []) : AtTurn w data (before ++ [b]) (next w data t b) := by
  have hnext : LocalDeps.next w data t b =
      if w.nameOf data before b <+: data then t else t.remove w.cwd b.base := by
    rw [LocalDeps.next, h.abs_eq]
    simp only [keep_iff, Process.removeAll, Process.parentOf_base hb h.cwd]
  have hnamed : w.leadsAfter data before = true →
      w.nameOf data before b = w.named true ++ b.names := by
    intro hleads
    rw [Process.nameOf, hleads]
  rw [hnext]
  split_ifs with hname
  · refine ⟨h.part, h.cwd, ?_, fun c l => ?_⟩
    · rw [h.leads, leadsAfter_concat]
      cases hleads : w.leadsAfter data before with
      | false => rfl
      | true =>
        rw [hnamed hleads] at hname
        simp [hname]
    · rw [h.parent, cutOff_concat]
      simp [hname]
  · refine ⟨h.part.trans (partlyRemoved_remove t _ _).below_root, ?_, ?_, fun c l => ?_⟩
    · rw [remove_node_cwd, h.cwd]
    · rw [pwdLeads_remove h.part, h.leads, leadsAfter_concat]
      cases hleads : w.leadsAfter data before with
      | false => rfl
      | true =>
        rw [hnamed hleads] at hname
        simp [hname]
    · rw [parentOf_remove_iff h.part, h.parent, cutOff_concat]
      have hsub : ∀ l', w.parentOf (w.tree.remove w.cwd b.base) c = some l' →
          w.parentOf w.tree c = some l' := fun l' hl' =>
        ((parentOf_remove_iff (.refl w.tree [])).mp hl').1
      constructor
      · rintro ⟨⟨hl, hcut⟩, hwithout⟩
        exact ⟨hl, by simp [hcut, hwithout]⟩
      · rintro ⟨hl, hcut⟩
        rw [not_or] at hcut
        refine ⟨⟨hl, hcut.1⟩, ?_⟩
        obtain ⟨l', hl'⟩ := Option.ne_none_iff_exists'.mp fun hnone => hcut.2 ⟨hname, hnone⟩
        rw [hl', ← hsub l' hl', hl]

theorem atTurn_foldl_next {before : List Cleaned} (hbefore : ∀ b ∈ before, b.parents = []) :
    AtTurn w data before (before.foldl (next w data) w.tree) := by
  induction before using List.reverseRecOn with
  | nil =>
    refine ⟨.refl w.tree [], w.cwd_dir, by simp [Process.leadsAfter], fun c l => ?_⟩
    have hnot : ¬w.CutOff data [] c := by
      rintro ⟨earlier, b, later, heq, -⟩
      simp at heq
    simp [hnot]
  | append_singleton before b ih =>
    rw [List.foldl_append]
    exact (ih fun b hb => hbefore b (List.mem_append_left _ hb)).next (hbefore b (by simp))

theorem parents_of_before {before after : List Cleaned} {c : Cleaned}
    (h : cleanedPaths = before ++ c :: after) : ∀ b ∈ before, b.parents = [] := by
  have hinit : before <+: cleanedPaths.dropLast := by
    rw [h, List.dropLast_append_of_ne_nil (List.cons_ne_nil c after)]
    exact List.prefix_append _ _
  have hall : ∀ b ∈ cleanedPaths.dropLast, b.parents = [] := by decide +kernel
  exact fun b hb => hall b (hinit.subset hb)

end Turns

theorem allRecognised_iff {w : Process} {data home : Loc Bytes} :
    AllRecognised w data home cleanedPaths w.tree ↔
      ∀ before c after, cleanedPaths = before ++ c :: after → ∀ l p,
        w.parentOf w.tree c = some l → Above home p → w.tree.node p ≠ none →
          l ++ [c.base] <+: p → w.nameOf data before c <+: data ∨ w.CutOff data before c := by
  constructor
  · intro h before c after heq l p hl habove hp hholds
    have hturn : AtTurn w data before (before.foldl (next w data) w.tree) :=
      atTurn_foldl_next (parents_of_before heq)
    rw [or_iff_not_imp_right]
    intro hcut
    -- the paths before are recognised, so the entry is still there
    have hbefore : AllRecognised w data home before w.tree := fun b d a hsplit =>
      h b d (a ++ c :: after) (by rw [heq, hsplit, List.append_assoc, List.cons_append])
    have hthere := (loop_foldl_next before w.tree).keeps_of_recognised hbefore p habove hp
    exact h before c after heq _ l p (hturn.abs_eq c) ((hturn.parent c l).mpr ⟨hl, hcut⟩) habove
      hthere hholds
  · intro h before c after heq absolute l p habs hl habove hp hholds
    have hturn : AtTurn w data before (before.foldl (next w data) w.tree) :=
      atTurn_foldl_next (parents_of_before heq)
    obtain rfl := Option.some.inj ((hturn.abs_eq c).symm.trans habs)
    obtain ⟨hl, hcut⟩ := (hturn.parent c l).mp hl
    exact (h before c after heq l p hl habove (hturn.part.node_ne_none hp) hholds).resolve_right
      hcut

theorem cleans_keeps_iff (s : PrivateState) :
    (∀ t, Cleans s.process s.manager t → Keeps s.home s.process.tree t) ↔ s.NamedAbove := by
  constructor
  · intro h data hdata
    rw [← Process.protectedPath_eq_some_iff] at hdata
    exact allRecognised_iff.mp ((loop_keeps_iff _ _).mp fun t hloop => h t (.loop hdata hloop))
  · intro h t hclean
    cases hclean with
    | protectFails => exact fun _ _ hp => hp
    | loop hdata hloop =>
      exact hloop.keeps_of_recognised
        (allRecognised_iff.mpr (h _ (Process.protectedPath_eq_some_iff.mp hdata)))

/-- Private state is kept exactly when, in the tree that `Clean` finds, every cleaned path that
holds some of it is above it by name too. -/
theorem kept_iff_namedAbove (s : PrivateState) (r : Reading) :
    s.Kept r ↔ s.AboveCleaned r ∨ s.NamedAbove :=
  or_congr_right (cleans_keeps_iff s)

/-- `$PWD` is not set, or names where the process really is. -/
def Process.Physical (w : Process) : Prop :=
  ∀ pwd ∈ w.pwd, lexical (parsePath pwd).parts = w.cwd

def Process.NoLinks (w : Process) : Prop :=
  ∀ c ∈ cleanedPaths, ∀ k, k <+: c.parents →
    ∀ target, w.tree.node (w.cwd ++ k) ≠ some (.link target)

section Physical
variable {w : Process} {m : Manager} {data home : Loc Bytes}

theorem RootLocated.resolves (h : RootLocated w m home) (hdata : w.Resolves m data) :
    data = home := by
  obtain ⟨absolute, habs, hlookup⟩ := h
  have hreal := lookup_mono (show kernelLinks ≤ evalLinks by decide) hlookup
  have hprotected : protectedPath w m = some home := by
    rw [protectedPath, habs, Option.bind_some, hreal]
  exact Option.some.inj ((Process.protectedPath_eq_some_iff.mpr hdata).symm.trans hprotected)

theorem Process.Physical.named_true (h : w.Physical) (hleads : w.pwdLeads w.tree = true) :
    w.named true = w.cwd := by
  obtain ⟨pwd, hpwd, -⟩ := Process.pwdLeads_iff.mp hleads
  obtain ⟨text, htext, rfl⟩ := Option.map_eq_some_iff.mp hpwd
  rw [Process.named, if_pos rfl, htext]
  exact h text htext

theorem Process.Physical.nameOf_eq (h : w.Physical) (before : List Cleaned) (c : Cleaned) :
    w.nameOf data before c = w.cwd ++ c.names := by
  rw [Process.nameOf]
  cases hleads : w.leadsAfter data before with
  | false => rfl
  | true =>
    rw [Process.leadsAfter, Bool.and_eq_true] at hleads
    rw [h.named_true hleads.1]

theorem Process.NoLinks.parentOf_eq (h : w.NoLinks) {c : Cleaned} (hc : c ∈ cleanedPaths)
    {l : Loc Bytes} (hl : w.parentOf w.tree c = some l) : l = w.cwd ++ c.parents :=
  lookup_names_of_no_link w.tree (h c hc) (Process.parentOf_eq_some_iff.mp hl).1

end Physical

/-- Without a link in the working directory or on the way to a cleaned path, the private
state at `Manager.root` is kept. -/
theorem kept_of_physical (s : PrivateState) (hwd : s.process.Physical)
    (hlinks : s.process.NoLinks) (hroot : RootLocated s.process s.manager s.home) :
    s.Kept .entry := by
  refine or_iff_not_imp_left.mpr fun hnot => (cleans_keeps_iff s).mpr ?_
  intro data hdata before c after heq l p hl habove hp hholds
  obtain rfl := hroot.resolves hdata
  have hc : c ∈ cleanedPaths := by simp [heq]
  have hentry : l ++ [c.base] = s.process.cwd ++ c.names := by
    rw [hlinks.parentOf_eq hc hl, Cleaned.names, List.append_assoc]
  rw [hwd.nameOf_eq, ← hentry]
  rcases habove.above_or_below hholds with hup | hbelow
  · exact .inl hup
  · exact (hnot ⟨c, hc, _, by rw [realLocation, hl]; rfl, hbelow⟩).elim

def linkedEntries : List (Loc Bytes × Node Bytes) :=
  [([bytes "data"], .dir), ([bytes "data", bytes ".tmp"], .dir),
    ([bytes "data", bytes ".tmp", bytes "owned-db"], .dir),
    ([bytes "data", bytes ".tmp", bytes "owned-db", bytes "retained-data"], .file),
    ([bytes "work"], .link (parsePath (bytes "/data")))]

def linkedProcess : Process where
  tree := Files.ofEntries linkedEntries (by decide +kernel)
  cwd := [bytes "data"]
  cwd_dir := by decide +kernel
  pwd := some (bytes "/work")

def linkedState : PrivateState where
  process := linkedProcess
  manager := ⟨bytes ".tmp/owned-db"⟩
  home := [bytes "data", bytes ".tmp", bytes "owned-db"]
  located := Or.inl (by decide +kernel)

theorem linkedState_not_kept (r : Reading) : ¬linkedState.Kept r := by
  intro hkept
  rcases hkept with ⟨c, hc, l, hl, habove⟩ | hkeeps
  · have hnone : cleanedPaths.all fun c =>
        (realLocation linkedProcess c r).all fun l => ¬Above linkedState.home l := by
      cases r <;> decide +kernel
    have := List.all_eq_true.mp hnone c hc
    rw [show realLocation linkedProcess c r = some l from hl] at this
    exact of_decide_eq_true this habove
  · have hdata : protectedPath linkedProcess linkedState.manager = some linkedState.home := by
      decide +kernel
    have hstill := hkeeps _ (.loop hdata (loop_foldl_next _ _))
      (linkedState.home ++ [bytes "retained-data"]) (by decide +kernel) (by decide +kernel)
    apply hstill
    decide +kernel

/-- `Clean` decides on `/work/.tmp` and removes `/data/.tmp`. -/
theorem linkedState_lost : ¬linkedState.Kept .entry ∧ ¬linkedState.Kept .target :=
  ⟨linkedState_not_kept .entry, linkedState_not_kept .target⟩

end Gaoming.LocalDeps
