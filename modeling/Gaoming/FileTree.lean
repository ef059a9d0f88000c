import Mathlib.Data.List.Infix
import Mathlib.Tactic.Common

/-!
# File trees with symbolic links

An entry is known by its location, the names from the root down. A look-up follows symbolic
links, `..` leads to the parent of the directory reached so far, and only so many links are
followed. The lexical operations do not look at the tree.
-/

namespace FileTree

abbrev Loc (α : Type*) := List α

inductive Step (α : Type*)
  | up
  | name (n : α)
  deriving DecidableEq

structure Path (α : Type*) where
  absolute : Bool
  parts : List (Step α)
  deriving DecidableEq

inductive Node (α : Type*)
  | dir
  | file
  | link (target : Path α)
  deriving DecidableEq

/-- The root is a directory, and so is the parent of every entry. -/
structure Files (α : Type*) where
  node : Loc α → Option (Node α)
  root : node [] = some .dir
  parent : ∀ l n, node (l ++ [n]) ≠ none → node l = some .dir

section Lexical
variable {α : Type*}

def names (l : Loc α) : List (Step α) := l.map .name

def enter (l : Loc α) : Step α → Loc α
  | .up => l.dropLast
  | .name n => l ++ [n]

/-- The cleaned form of a path from the root. -/
def lexical (parts : List (Step α)) : Loc α := parts.foldl enter []

theorem foldl_enter_names (l m : Loc α) : (names m).foldl enter l = l ++ m := by
  induction m generalizing l with
  | nil => simp [names]
  | cons n m ih =>
    change (names m).foldl enter (l ++ [n]) = l ++ n :: m
    rw [ih, List.append_assoc, List.singleton_append]

theorem lexical_append_names (parts : List (Step α)) (m : Loc α) :
    lexical (parts ++ names m) = lexical parts ++ m := by
  rw [lexical, List.foldl_append, foldl_enter_names]
  rfl

theorem lexical_names (l : Loc α) : lexical (names l) = l := foldl_enter_names [] l

/-- Strictly below a location. -/
def Above (l p : Loc α) : Prop := l <+: p ∧ l ≠ p

instance [DecidableEq α] (l p : Loc α) : Decidable (Above l p) :=
  inferInstanceAs (Decidable (_ ∧ _))

theorem Above.above_or_below {l p m : Loc α} (hp : Above l p) (hm : m <+: p) :
    m <+: l ∨ Above l m := by
  rcases List.prefix_or_prefix_of_prefix hm hp.1 with h | h
  · exact Or.inl h
  · by_cases heq : l = m
    · exact Or.inl (heq ▸ List.prefix_rfl)
    · exact Or.inr ⟨h, heq⟩

variable [DecidableEq α]

/-- The path from one location to another. -/
def relative : Loc α → Loc α → List (Step α)
  | b :: base, n :: target =>
    if b = n then relative base target
    else List.replicate (base.length + 1) .up ++ names (n :: target)
  | base, target => List.replicate base.length .up ++ names target

theorem relative_head_ne_up_iff (base target : Loc α) :
    (relative base target).head? ≠ some .up ↔ base <+: target := by
  fun_induction relative base target with
  | case1 base n target ih => rw [ih, List.cons_prefix_cons, and_iff_right rfl]
  | case2 b base n target hne => simp [List.replicate_succ, List.cons_prefix_cons, hne]
  | case3 base target h =>
    cases base with
    | nil => cases target <;> simp [names]
    | cons b base =>
      cases target with
      | nil => simp [List.replicate_succ]
      | cons n target => exact (h b base n target rfl rfl).elim

end Lexical

section Lookup
variable {α : Type*}

inductive LookupError
  | notExist
  | notDir
  | tooManyLinks
  deriving DecidableEq

/-- The walk along a path; `onLink` goes on from where a link leads. -/
def walk (t : Files α) (onLink : Loc α → List (Step α) → Except LookupError (Loc α)) :
    Loc α → List (Step α) → Except LookupError (Loc α)
  | l, [] => .ok l
  | l, .up :: rest => walk t onLink l.dropLast rest
  | l, .name n :: rest =>
    match t.node (l ++ [n]) with
    | none => .error .notExist
    | some .dir => walk t onLink (l ++ [n]) rest
    | some .file => if rest.isEmpty then .ok (l ++ [n]) else .error .notDir
    | some (.link target) => onLink (if target.absolute then [] else l) (target.parts ++ rest)

/-- The location of a path from a directory, over at most so many links. -/
def lookup (t : Files α) : ℕ → Loc α → List (Step α) → Except LookupError (Loc α)
  | 0 => walk t fun _ _ => .error .tooManyLinks
  | links + 1 => walk t (lookup t links)

theorem walk_mono {t : Files α} {f g : Loc α → List (Step α) → Except LookupError (Loc α)}
    (hfg : ∀ l parts r, f l parts = .ok r → g l parts = .ok r) {l r : Loc α}
    {parts : List (Step α)} (h : walk t f l parts = .ok r) : walk t g l parts = .ok r := by
  fun_induction walk t f l parts with
  | case1 l => exact h
  | case2 l rest ih => exact ih h
  | case3 l n rest hnode => cases h
  | case4 l n rest hnode ih =>
    rw [walk, hnode]
    exact ih h
  | case5 l n rest hnode hrest =>
    rw [walk, hnode]
    exact (if_pos hrest).trans h
  | case6 l n rest hnode hrest => cases h
  | case7 l n rest target hnode =>
    rw [walk, hnode]
    exact hfg _ _ _ h

theorem lookup_succ {t : Files α} {links : ℕ} {l r : Loc α} {parts : List (Step α)}
    (h : lookup t links l parts = .ok r) : lookup t (links + 1) l parts = .ok r := by
  induction links generalizing l parts r with
  | zero =>
    apply walk_mono _ h
    intro l parts r hlink
    cases hlink
  | succ links ih =>
    apply walk_mono _ h
    intro l parts r hlink
    exact ih hlink

theorem lookup_mono {t : Files α} {links more : ℕ} (hle : links ≤ more) {l r : Loc α}
    {parts : List (Step α)} (h : lookup t links l parts = .ok r) :
    lookup t more l parts = .ok r := by
  induction hle with
  | refl => exact h
  | step _ ih => exact lookup_succ ih

theorem walk_meet {t t₁ t₂ : Files α} {f f₁ f₂ : Loc α → List (Step α) → Except LookupError (Loc α)}
    (hmeet : ∀ p n, t₁.node p = some n → t₂.node p ≠ none → t.node p = some n)
    (hagree : ∀ p n, t₁.node p = some n → t₂.node p ≠ none → t₂.node p = some n)
    (hf : ∀ l parts r r', f₁ l parts = .ok r → f₂ l parts = .ok r' → f l parts = .ok r)
    {l r r' : Loc α} {parts : List (Step α)} (h₁ : walk t₁ f₁ l parts = .ok r)
    (h₂ : walk t₂ f₂ l parts = .ok r') : walk t f l parts = .ok r := by
  fun_induction walk t₁ f₁ l parts with
  | case1 l => exact h₁
  | case2 l rest ih => exact ih h₁ h₂
  | case3 l n rest hnode => cases h₁
  | case4 l n rest hnode ih =>
    have hne : t₂.node (l ++ [n]) ≠ none := by
      intro hnone
      rw [walk, hnone] at h₂
      cases h₂
    rw [walk, hagree _ _ hnode hne] at h₂
    rw [walk, hmeet _ _ hnode hne]
    exact ih h₁ h₂
  | case5 l n rest hnode hrest =>
    have hne : t₂.node (l ++ [n]) ≠ none := by
      intro hnone
      rw [walk, hnone] at h₂
      cases h₂
    rw [walk, hmeet _ _ hnode hne]
    exact (if_pos hrest).trans h₁
  | case6 l n rest hnode hrest => cases h₁
  | case7 l n rest target hnode =>
    have hne : t₂.node (l ++ [n]) ≠ none := by
      intro hnone
      rw [walk, hnone] at h₂
      cases h₂
    rw [walk, hagree _ _ hnode hne] at h₂
    rw [walk, hmeet _ _ hnode hne]
    exact hf _ _ _ _ h₁ h₂

theorem lookup_meet {t t₁ t₂ : Files α}
    (hmeet : ∀ p n, t₁.node p = some n → t₂.node p ≠ none → t.node p = some n)
    (hagree : ∀ p n, t₁.node p = some n → t₂.node p ≠ none → t₂.node p = some n)
    {links : ℕ} {l r r' : Loc α} {parts : List (Step α)} (h₁ : lookup t₁ links l parts = .ok r)
    (h₂ : lookup t₂ links l parts = .ok r') : lookup t links l parts = .ok r := by
  induction links generalizing l parts r r' with
  | zero =>
    refine walk_meet hmeet hagree ?_ h₁ h₂
    intro l parts r r' h
    cases h
  | succ links ih =>
    refine walk_meet hmeet hagree ?_ h₁ h₂
    intro l parts r r' h h'
    exact ih h h'

theorem walk_names_of_no_link (t : Files α)
    (f : Loc α → List (Step α) → Except LookupError (Loc α)) {l m r : Loc α}
    (hlink : ∀ k, k <+: m → ∀ target, t.node (l ++ k) ≠ some (.link target))
    (h : walk t f l (names m) = .ok r) : r = l ++ m := by
  induction m generalizing l with
  | nil =>
    cases h
    rw [List.append_nil]
  | cons n m ih =>
    change walk t f l (.name n :: names m) = _ at h
    rw [walk] at h
    cases hnode : t.node (l ++ [n]) with
    | none => rw [hnode] at h; cases h
    | some node =>
      rw [hnode] at h
      cases node with
      | dir =>
        rw [ih (fun k hk target => ?_) h, List.append_assoc, List.singleton_append]
        rw [List.append_assoc]
        exact hlink (n :: k) (List.cons_prefix_cons.mpr ⟨rfl, hk⟩) target
      | file =>
        cases m with
        | nil => cases h; rfl
        | cons k m => cases h
      | link target =>
        exact (hlink [n] (List.cons_prefix_cons.mpr ⟨rfl, List.nil_prefix⟩) target hnode).elim

theorem lookup_names_of_no_link (t : Files α) {links : ℕ} {l m r : Loc α}
    (hlink : ∀ k, k <+: m → ∀ target, t.node (l ++ k) ≠ some (.link target))
    (h : lookup t links l (names m) = .ok r) : r = l ++ m := by
  cases links <;> exact walk_names_of_no_link t _ hlink h

end Lookup

section Remove
variable {α : Type*}

/-- Entries at or below a location are gone, perhaps not all of them. -/
def PartlyRemoved (t : Files α) (l : Loc α) (t' : Files α) : Prop :=
  ∀ p, t'.node p = t.node p ∨ l <+: p ∧ t'.node p = none

theorem PartlyRemoved.refl (t : Files α) (l : Loc α) : PartlyRemoved t l t :=
  fun _ => Or.inl rfl

theorem PartlyRemoved.trans {t t' t'' : Files α} {l : Loc α} (h : PartlyRemoved t l t')
    (h' : PartlyRemoved t' l t'') : PartlyRemoved t l t'' := by
  intro p
  rcases h' p with heq | hgone
  · rw [heq]
    exact h p
  · exact Or.inr hgone

theorem PartlyRemoved.below_root {t t' : Files α} {l : Loc α} (h : PartlyRemoved t l t') :
    PartlyRemoved t [] t' := by
  intro p
  rcases h p with heq | ⟨-, hnone⟩
  · exact Or.inl heq
  · exact Or.inr ⟨List.nil_prefix, hnone⟩

theorem PartlyRemoved.node_eq_some {t t' : Files α} {l p : Loc α} (h : PartlyRemoved t l t')
    {node : Node α} (hp : t'.node p = some node) : t.node p = some node := by
  rcases h p with heq | ⟨-, hnone⟩
  · rw [← heq, hp]
  · cases hp.symm.trans hnone

theorem PartlyRemoved.node_ne_none {t t' : Files α} {l p : Loc α} (h : PartlyRemoved t l t')
    (hp : t'.node p ≠ none) : t.node p ≠ none := by
  obtain ⟨node, hnode⟩ := Option.ne_none_iff_exists'.mp hp
  rw [h.node_eq_some hnode]
  simp

theorem PartlyRemoved.lookup_eq_ok {t t' : Files α} {l : Loc α} (h : PartlyRemoved t l t')
    {links : ℕ} {start r : Loc α} {parts : List (Step α)}
    (hr : lookup t' links start parts = .ok r) : lookup t links start parts = .ok r :=
  lookup_meet (fun _ _ hn _ => h.node_eq_some hn) (fun _ _ hn _ => hn) hr hr

variable [DecidableEq α]

/-- The tree without an entry and what is below it. -/
def Files.remove (t : Files α) (l : Loc α) (n : α) : Files α where
  node p := if l ++ [n] <+: p then none else t.node p
  root := by rw [if_neg (by simp), t.root]
  parent p m h := by
    have hnot : ¬l ++ [n] <+: p ++ [m] := by
      intro hmem
      rw [if_pos hmem] at h
      exact h rfl
    rw [if_neg hnot] at h
    rw [if_neg fun hmem => hnot (hmem.trans (List.prefix_append p [m])), t.parent p m h]

theorem partlyRemoved_remove (t : Files α) (l : Loc α) (n : α) :
    PartlyRemoved t (l ++ [n]) (t.remove l n) := by
  intro p
  by_cases h : l ++ [n] <+: p
  · exact Or.inr ⟨h, if_pos h⟩
  · exact Or.inl (if_neg h)

/-- A part of a tree, without an entry, leads where both the part and the tree without that
entry lead. -/
theorem PartlyRemoved.lookup_remove_iff {t t' : Files α} (h : PartlyRemoved t [] t') (m : Loc α)
    (n : α) {links : ℕ} {start r : Loc α} {parts : List (Step α)} :
    lookup (t'.remove m n) links start parts = .ok r ↔
      lookup t' links start parts = .ok r ∧ lookup (t.remove m n) links start parts = .ok r := by
  have hboth : ∀ p k, t'.node p = some k → (t.remove m n).node p ≠ none →
      ¬m ++ [n] <+: p ∧ t.node p = some k := fun p k hk hne =>
    ⟨fun hmem => hne (if_pos hmem), h.node_eq_some hk⟩
  constructor
  · intro hr
    refine ⟨(partlyRemoved_remove t' m n).lookup_eq_ok hr, ?_⟩
    refine PartlyRemoved.lookup_eq_ok (l := []) (fun p => ?_) hr
    by_cases hmem : m ++ [n] <+: p
    · exact .inl ((if_pos hmem).trans (if_pos hmem).symm)
    · change (if _ then _ else _) = (if _ then _ else _) ∨ _ ∧ (if _ then _ else _) = _
      rw [if_neg hmem, if_neg hmem]
      exact h p
  · rintro ⟨hr, hr'⟩
    refine lookup_meet (fun p k hk hne => ?_) (fun p k hk hne => ?_) hr hr'
    · exact (if_neg (hboth p k hk hne).1).trans hk
    · exact (if_neg (hboth p k hk hne).1).trans (hboth p k hk hne).2

theorem remove_node_of_above (t : Files α) {l p : Loc α} {n : α} (h : l ++ [n] <+: p) :
    (t.remove l n).node p = none := if_pos h

end Remove

section Entries
variable {α : Type*} [DecidableEq α]

def entryAt (entries : List (Loc α × Node α)) (l : Loc α) : Option (Node α) :=
  if l = [] then some .dir else entries.lookup l

/-- A tree with these entries below the root. -/
def Files.ofEntries (entries : List (Loc α × Node α))
    (h : entries.all fun e => entryAt entries e.1.dropLast = some .dir) : Files α where
  node := entryAt entries
  root := rfl
  parent l n hne := by
    obtain ⟨node, hnode⟩ := Option.ne_none_iff_exists'.mp hne
    rw [entryAt, if_neg (by simp)] at hnode
    obtain ⟨before, after, heq, -⟩ := List.lookup_eq_some_iff.mp hnode
    have hparent := List.all_eq_true.mp h (l ++ [n], node) (by simp [heq])
    simpa using hparent

end Entries

end FileTree
