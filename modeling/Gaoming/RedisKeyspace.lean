import Mathlib.Data.Int.Notation
import Mathlib.Data.Nat.Notation
import Mathlib.Logic.Function.Basic
import Mathlib.Tactic.Common

/-!
# Strings and lists in Redis

The commands `SET`, `GET`, `LPUSH`, `LTRIM` and `LRANGE` on a keyspace without
expiry. A list that becomes empty is removed with its key, and a command for the
other type is refused. A pipeline sends its commands one after the other, whether or
not one of them is refused, and reports the first refusal.
-/

namespace Redis

inductive Value
  | string (body : String)
  | list (items : List String)
  deriving DecidableEq

abbrev Keyspace := String → Option Value

inductive Refusal
  | wrongType
  deriving DecidableEq, Repr

inductive Command
  | set (key body : String)
  | lpush (key body : String)
  | ltrim (key : String) (start stop : ℤ)
  | expire (key : String)
  deriving DecidableEq

/-- The position that an index from the end stands for. -/
def position (length : ℕ) (i : ℤ) : ℤ := if i < 0 then i + length else i

/-- The elements from one index to another, both included. -/
def range {α : Type} (l : List α) (start stop : ℤ) : List α :=
  let first := (position l.length start).toNat
  let last := position l.length stop
  (l.drop first).take (last + 1 - first).toNat

theorem range_all {α : Type} (l : List α) : range l 0 (-1) = l := by
  have hfirst : position l.length 0 = 0 := rfl
  have hlast : position l.length (-1) = l.length - 1 := by
    unfold position
    rw [if_pos (by decide)]
    omega
  have hcount : ((l.length : ℤ) - 1 + 1 - ((0 : ℤ).toNat : ℤ)).toNat = l.length := by
    rw [Int.toNat_zero]
    omega
  rw [range, hfirst, hlast]
  rw [hcount, Int.toNat_zero, List.drop_zero, List.take_length]

theorem range_first {α : Type} (l : List α) {n : ℕ} (hn : 0 < n) :
    range l 0 ((n : ℤ) - 1) = l.take n := by
  have hfirst : position l.length 0 = 0 := rfl
  have hlast : position l.length ((n : ℤ) - 1) = n - 1 := by
    unfold position
    rw [if_neg (by omega)]
  have hcount : ((n : ℤ) - 1 + 1 - ((0 : ℤ).toNat : ℤ)).toNat = n := by
    rw [Int.toNat_zero]
    omega
  rw [range, hfirst, hlast]
  rw [hcount, Int.toNat_zero, List.drop_zero]

/-- A list as it is kept. -/
def kept (items : List String) : Option Value := if items = [] then none else some (.list items)

def listAt (db : Keyspace) (key : String) : Except Refusal (List String) :=
  match db key with
  | none => .ok []
  | some (.list items) => .ok items
  | some (.string _) => .error .wrongType

def exec (db : Keyspace) : Command → Except Refusal Keyspace
  | .set key body => .ok (Function.update db key (some (.string body)))
  | .lpush key body => (listAt db key).map fun items =>
      Function.update db key (kept (body :: items))
  | .ltrim key start stop =>
    (listAt db key).map fun items => Function.update db key (kept (range items start stop))
  | .expire _ => .ok db

def lrange (db : Keyspace) (key : String) (start stop : ℤ) : Except Refusal (List String) :=
  (listAt db key).map fun items => range items start stop

def get (db : Keyspace) (key : String) : Except Refusal (Option String) :=
  match db key with
  | none => .ok none
  | some (.string body) => .ok (some body)
  | some (.list _) => .error .wrongType

def pipeline (db : Keyspace) : List Command → Keyspace × Option Refusal
  | [] => (db, none)
  | c :: rest =>
    match exec db c with
    | .ok db' => pipeline db' rest
    | .error e => ((pipeline db rest).1, some e)

theorem listAt_of_kept {db : Keyspace} {key : String} {items : List String}
    (h : db key = kept items) : listAt db key = .ok items := by
  unfold kept at h
  split_ifs at h with hempty
  · rw [listAt, h, hempty]
  · rw [listAt, h]

theorem pipeline_of_ok {db db' : Keyspace} {c : Command} {rest : List Command}
    (h : exec db c = .ok db') : pipeline db (c :: rest) = pipeline db' rest := by
  rw [pipeline, h]

/-- Pushing and trimming keeps the first of the items. -/
theorem pipeline_push {db : Keyspace} {key body : String} {items : List String} {n : ℕ}
    (hn : 0 < n) (h : db key = kept items) (rest : List Command) :
    pipeline db (.lpush key body :: .ltrim key 0 ((n : ℤ) - 1) :: .expire key :: rest) =
      pipeline (Function.update db key (kept ((body :: items).take n))) rest := by
  have hpush : exec db (.lpush key body) = .ok (Function.update db key (kept (body :: items))) := by
    rw [exec, listAt_of_kept h]
    rfl
  have htrim : exec (Function.update db key (kept (body :: items))) (.ltrim key 0 ((n : ℤ) - 1)) =
      .ok (Function.update db key (kept ((body :: items).take n))) := by
    rw [exec, listAt_of_kept (Function.update_self key _ _), ← range_first _ hn]
    simp only [Except.map, Function.update_idem]
  rw [pipeline_of_ok hpush, pipeline_of_ok htrim, pipeline_of_ok rfl]

end Redis
