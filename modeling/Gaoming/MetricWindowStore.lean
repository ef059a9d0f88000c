import Gaoming.Delimited
import Gaoming.MasterRead
import Gaoming.RedisKeyspace

/-!
# The metric window in Redis

`pkg/hostruntime/repository/redis/history.go` on the keyspace: a list for each host
and metric and the last batch of each host, all under keys joined by colons. The
map that `AppendHeartbeatMetrics` ranges over has no order, so a call names the one it
happened to take. The window that the read side of the master works with is what
these keys represent.
-/

namespace Gaoming

/-- `encoding/json` for one type: some values have no encoding, and what was encoded is
decoded again. -/
structure JsonCodec (α : Type) where
  marshal : α → Option String
  unmarshal : String → Option α
  roundtrip : ∀ a body, marshal a = some body → unmarshal body = some a

/-- A value that does not come back has no encoding, as those that no number of JSON is. -/
def JsonCodec.checked {α : Type} [DecidableEq α] (write : α → String) (read : String → Option α) :
    JsonCodec α where
  marshal := fun a => if read (write a) = some a then some (write a) else none
  unmarshal := read
  roundtrip := by
    intro a body h
    split_ifs at h with hread
    cases h
    exact hread

structure Json where
  point : JsonCodec HistoryPoint
  snapshot : JsonCodec MetricSnapshot

structure MetricWindowStore where
  keyPrefix : String
  maxPoints : ℕ
  positive : 0 < maxPoints

inductive WindowError
  | json
  | redis (e : Redis.Refusal)
  deriving DecidableEq

/-- An order in which all keys of the map come up. -/
abbrev KeyOrder := { order : List MetricKey // order.Perm metricKeys }

namespace MetricWindowStore

def new (keyPrefix : String) (maxPoints : Int64) : MetricWindowStore where
  keyPrefix := if keyPrefix = "" then "gaoming:metrics" else keyPrefix
  maxPoints := if maxPoints.toInt ≤ 0 then 3600 else maxPoints.toInt.toNat
  positive := by split_ifs <;> omega

variable (s : MetricWindowStore) (json : Json)

def metricKey (hostUID : String) (key : MetricKey) : String :=
  s.keyPrefix ++ ":" ++ hostUID ++ ":" ++ key.text

def snapshotKey (hostUID : String) : String := s.keyPrefix ++ ":" ++ hostUID ++ ":" ++ "snapshot"

/-- One round of the loop of `AppendHeartbeatMetrics`. -/
def pushCommands (hostUID : String) (now : Time) (digest : AgentDigest) (key : MetricKey) :
    Option (List Redis.Command) := do
  let body ← json.point.marshal ⟨now, digestMetricValues digest key⟩
  let redisKey := s.metricKey hostUID key
  return [.lpush redisKey body, .ltrim redisKey 0 ((s.maxPoints : ℤ) - 1), .expire redisKey]

def appendHeartbeatMetrics (order : KeyOrder) (hostUID : String) (now : Time)
    (digest : AgentDigest) (db : Redis.Keyspace) : Redis.Keyspace × Option WindowError :=
  match order.1.mapM (s.pushCommands json hostUID now digest) with
  | none => (db, some .json)
  | some commands =>
    let (db, refusal) := Redis.pipeline db commands.flatten
    (db, refusal.map .redis)

def saveMetricSnapshot (hostUID : String) (snapshot : MetricSnapshot) (db : Redis.Keyspace) :
    Redis.Keyspace × Option WindowError :=
  match json.snapshot.marshal snapshot with
  | none => (db, some .json)
  | some body =>
    let (db, refusal) := Redis.pipeline db [.set (s.snapshotKey hostUID) body]
    (db, refusal.map .redis)

def getMetricSnapshot (hostUID : String) (db : Redis.Keyspace) :
    Except WindowError (Option MetricSnapshot) :=
  match Redis.get db (s.snapshotKey hostUID) with
  | .error e => .error (.redis e)
  | .ok none => .ok none
  | .ok (some body) =>
    match json.snapshot.unmarshal body with
    | none => .error .json
    | some snapshot => .ok (some snapshot)

/-- The list is read back from its end. -/
def decodeMetricPoints (raw : List String) : Except WindowError (List HistoryPoint) :=
  match raw.reverse.mapM json.point.unmarshal with
  | none => .error .json
  | some points => .ok points

def getHostMetricHistory (hostUID : String) (db : Redis.Keyspace) :
    Except WindowError MetricHistory := do
  let cmds ← (metricKeys.mapM fun key => do
    let raw ← Redis.lrange db (s.metricKey hostUID key) 0 (-1)
    return (key, raw)).mapError .redis
  let result ← cmds.mapM fun (key, raw) => do
    let points ← decodeMetricPoints json raw
    return (key, points)
  return fun key => (result.lookup key).filter fun points => !points.isEmpty

end MetricWindowStore

inductive WindowCall
  | append (order : KeyOrder) (hostUID : String) (now : Time) (digest : AgentDigest)
  | save (hostUID : String) (snapshot : MetricSnapshot)

def MetricWindowStore.call (s : MetricWindowStore) (json : Json) (db : Redis.Keyspace) :
    WindowCall → Redis.Keyspace × Option WindowError
  | .append order hostUID now digest => s.appendHeartbeatMetrics json order hostUID now digest db
  | .save hostUID snapshot => s.saveMetricSnapshot json hostUID snapshot db

def MetricWindowStore.run (s : MetricWindowStore) (json : Json) (db : Redis.Keyspace)
    (calls : List WindowCall) : Redis.Keyspace :=
  calls.foldl (fun db c => (s.call json db c).1) db

theorem colon_notMem_text (key : MetricKey) : ':' ∉ key.text.toList := by
  cases key <;> decide

theorem text_ne_snapshot (key : MetricKey) : key.text ≠ "snapshot" := by
  cases key <;> decide

theorem text_injective : Function.Injective MetricKey.text := by
  intro k k' h
  cases k <;> cases k' <;> first | rfl | exact absurd h (by decide)

section Keys
variable {s : MetricWindowStore} {uid uid' : String}

theorem hostUID_of_joined (h : s.keyPrefix ++ ":" ++ uid = s.keyPrefix ++ ":" ++ uid') :
    uid = uid' := by
  have hlist := congrArg String.toList h
  rw [String.toList_append, String.toList_append (t := uid'), List.append_cancel_left_eq] at hlist
  exact String.toList_inj.mp hlist

theorem metricKey_injective {key key' : MetricKey}
    (h : s.metricKey uid key = s.metricKey uid' key') :
    uid = uid' ∧ key = key' := by
  obtain ⟨hjoined, htext⟩ := Delimited.last_part_inj (c := ':') (colon_notMem_text key)
    (colon_notMem_text key') h
  exact ⟨hostUID_of_joined hjoined, text_injective htext⟩

theorem snapshotKey_injective (h : s.snapshotKey uid = s.snapshotKey uid') : uid = uid' :=
  hostUID_of_joined (Delimited.last_part_inj (c := ':') (by decide) (by decide) h).1

theorem metricKey_ne_snapshotKey (key : MetricKey) : s.metricKey uid key ≠ s.snapshotKey uid' :=
  fun h => text_ne_snapshot key
    (Delimited.last_part_inj (c := ':') (colon_notMem_text key) (by decide) h).2

end Keys

/-- The call's values can be encoded, so that it is not refused before anything is sent. -/
def WindowCall.encodable (json : Json) : WindowCall → Bool
  | .append _ _ now digest =>
    metricKeys.all fun key => (json.point.marshal ⟨now, digestMetricValues digest key⟩).isSome
  | .save _ snapshot => (json.snapshot.marshal snapshot).isSome

/-- The point that the call appends to a list, if any. -/
def WindowCall.appended (json : Json) (hostUID : String) (key : MetricKey) (c : WindowCall) :
    Option HistoryPoint :=
  match c with
  | .append _ uid now digest =>
    if uid = hostUID ∧ c.encodable json then some ⟨now, digestMetricValues digest key⟩ else none
  | .save _ _ => none

/-- The batch that the call saves for a host, if any. -/
def WindowCall.saved (json : Json) (hostUID : String) (c : WindowCall) : Option MetricSnapshot :=
  match c with
  | .append _ _ _ _ => none
  | .save uid snapshot => if uid = hostUID ∧ c.encodable json then some snapshot else none

def MetricWindow.step (maxPoints : ℕ) (json : Json) (w : MetricWindow) (c : WindowCall) :
    MetricWindow where
  lists hostUID key := ((c.appended json hostUID key).toList ++ w.lists hostUID key).take maxPoints
  snapshots hostUID := (c.saved json hostUID).or (w.snapshots hostUID)

/-- The keys hold the window. -/
structure Represents (s : MetricWindowStore) (json : Json) (db : Redis.Keyspace)
    (w : MetricWindow) :
    Prop where
  lists : ∀ hostUID key, ∃ raw, db (s.metricKey hostUID key) = Redis.kept raw ∧
    List.Forall₂ (fun body p => json.point.unmarshal body = some p) raw (w.lists hostUID key)
  snapshots : ∀ hostUID, ∃ raw, db (s.snapshotKey hostUID) = raw.map .string ∧
    Option.Rel (fun body x => json.snapshot.unmarshal body = some x) raw (w.snapshots hostUID)
  within : ∀ hostUID key, (w.lists hostUID key).length ≤ s.maxPoints

theorem mapM_of_forall {α β : Type} {f : α → Option β} {g : α → β} {l : List α}
    (h : ∀ a ∈ l, f a = some (g a)) : l.mapM f = some (l.map g) := by
  induction l with
  | nil => rfl
  | cons a l ih =>
    rw [List.mapM_cons, h a List.mem_cons_self, ih fun b hb => h b (List.mem_cons_of_mem _ hb)]
    rfl

theorem mapM_eq_none {α β : Type} {f : α → Option β} {l : List α} {a : α} (ha : a ∈ l)
    (h : f a = none) : l.mapM f = none := by
  induction l with
  | nil => cases ha
  | cons b l ih =>
    rw [List.mapM_cons]
    rcases List.mem_cons.mp ha with rfl | ha
    · rw [h]
      rfl
    · rw [ih ha]
      cases f b <;> rfl

section Append
variable {s : MetricWindowStore} {json : Json} {db : Redis.Keyspace} {w : MetricWindow}
variable {hostUID : String} {body : MetricKey → String}

/-- The keyspace after the lists of some metrics have been pushed to and trimmed. -/
def trimmedLists (s : MetricWindowStore) (hostUID : String) (body : MetricKey → String)
    (raw : MetricKey → List String) (keys : List MetricKey) (db : Redis.Keyspace) :
    Redis.Keyspace :=
  keys.foldl (fun db key => Function.update db (s.metricKey hostUID key)
    (Redis.kept ((body key :: raw key).take s.maxPoints))) db

theorem trimmedLists_of_ne {raw : MetricKey → List String} {keys : List MetricKey} {k : String}
    (h : ∀ key ∈ keys, s.metricKey hostUID key ≠ k) :
    trimmedLists s hostUID body raw keys db k = db k := by
  induction keys generalizing db with
  | nil => rfl
  | cons key keys ih =>
    refine (ih fun x hx => h x (List.mem_cons_of_mem _ hx)).trans ?_
    exact Function.update_of_ne (h key List.mem_cons_self).symm _ _

theorem trimmedLists_of_mem {raw : MetricKey → List String} {keys : List MetricKey}
    {key : MetricKey}
    (hkeys : keys.Nodup) (hkey : key ∈ keys) :
    trimmedLists s hostUID body raw keys db (s.metricKey hostUID key) =
      Redis.kept ((body key :: raw key).take s.maxPoints) := by
  induction keys generalizing db with
  | nil => cases hkey
  | cons x keys ih =>
    obtain ⟨hx, hkeys⟩ := List.nodup_cons.mp hkeys
    rcases List.mem_cons.mp hkey with rfl | hkey
    · have hnot : ∀ y ∈ keys, s.metricKey hostUID y ≠ s.metricKey hostUID key :=
        fun y hy heq => hx ((metricKey_injective heq).2 ▸ hy)
      exact (trimmedLists_of_ne hnot).trans (Function.update_self _ _ _)
    · exact ih hkeys hkey

theorem pipeline_trimmedLists {raw : MetricKey → List String} {keys : List MetricKey}
    (hkeys : keys.Nodup) (h : ∀ key ∈ keys, db (s.metricKey hostUID key) = Redis.kept (raw key)) :
    Redis.pipeline db (keys.map fun key =>
        [Redis.Command.lpush (s.metricKey hostUID key) (body key),
          .ltrim (s.metricKey hostUID key) 0 ((s.maxPoints : ℤ) - 1),
          .expire (s.metricKey hostUID key)]).flatten =
      (trimmedLists s hostUID body raw keys db, none) := by
  induction keys generalizing db with
  | nil => rfl
  | cons key keys ih =>
    obtain ⟨hkey, hkeys⟩ := List.nodup_cons.mp hkeys
    rw [List.map_cons, List.flatten_cons]
    refine (Redis.pipeline_push s.positive (h key List.mem_cons_self) _).trans (ih hkeys ?_)
    intro x hx
    rw [← h x (List.mem_cons_of_mem _ hx)]
    refine Function.update_of_ne (fun heq => hkey ?_) _ _
    exact (metricKey_injective heq).2 ▸ hx

end Append

section Calls
variable {s : MetricWindowStore} {json : Json} {db : Redis.Keyspace} {w : MetricWindow}

theorem mem_metricKeys (key : MetricKey) : key ∈ metricKeys := by cases key <;> decide

theorem nodup_of_order (order : KeyOrder) : order.1.Nodup :=
  order.2.nodup_iff.mpr (by decide)

theorem mem_of_order (order : KeyOrder) (key : MetricKey) : key ∈ order.1 :=
  order.2.mem_iff.mpr (mem_metricKeys key)

/-- A call whose values have no encoding changes nothing. -/
theorem call_of_not_encodable {c : WindowCall} (hc : c.encodable json = false) :
    s.call json db c = (db, some .json) := by
  cases c with
  | save hostUID snapshot =>
    have hnone : json.snapshot.marshal snapshot = none := by simpa [WindowCall.encodable] using hc
    rw [MetricWindowStore.call, MetricWindowStore.saveMetricSnapshot, hnone]
  | append order hostUID now digest =>
    obtain ⟨key, -, hkey⟩ : ∃ key ∈ metricKeys,
        ¬ (json.point.marshal ⟨now, digestMetricValues digest key⟩).isSome = true := by
      simpa [WindowCall.encodable] using hc
    have hnone : s.pushCommands json hostUID now digest key = none := by
      rw [MetricWindowStore.pushCommands, Option.not_isSome_iff_eq_none.mp hkey]
      rfl
    rw [MetricWindowStore.call, MetricWindowStore.appendHeartbeatMetrics,
      mapM_eq_none (mem_of_order order key) hnone]

theorem step_of_not_encodable {c : WindowCall} (hc : c.encodable json = false)
    (h : Represents s json db w) : Represents s json db (w.step s.maxPoints json c) := by
  have happended : ∀ hostUID key, c.appended json hostUID key = none := by
    intro hostUID key
    cases c with
    | append => simp [WindowCall.appended, hc]
    | save => rfl
  have hsaved : ∀ hostUID, c.saved json hostUID = none := by
    intro hostUID
    cases c with
    | append => rfl
    | save => simp [WindowCall.saved, hc]
  have hsame : w.step s.maxPoints json c = w := by
    have hlists : ∀ hostUID key, (w.step s.maxPoints json c).lists hostUID key =
        w.lists hostUID key := by
      intro hostUID key
      change ((c.appended json hostUID key).toList ++ _).take _ = _
      rw [happended, Option.toList_none, List.nil_append]
      exact List.take_of_length_le (h.within hostUID key)
    have hsnapshots : (w.step s.maxPoints json c).snapshots = w.snapshots := by
      funext hostUID
      change (c.saved json hostUID).or _ = _
      rw [hsaved, Option.none_or]
    cases w
    exact congr (congrArg MetricWindow.mk (funext fun u => funext fun k => hlists u k)) hsnapshots
  rw [hsame]
  exact h

theorem save_represents (hostUID : String) (snapshot : MetricSnapshot)
    (hc : (WindowCall.save hostUID snapshot).encodable json = true) (h : Represents s json db w) :
    Represents s json (s.call json db (.save hostUID snapshot)).1
        (w.step s.maxPoints json (.save hostUID snapshot)) ∧
      (s.call json db (.save hostUID snapshot)).2 = none := by
  obtain ⟨body, hbody⟩ := Option.isSome_iff_exists.mp hc
  have hcall : s.call json db (.save hostUID snapshot) =
      (Function.update db (s.snapshotKey hostUID) (some (.string body)), none) := by
    rw [MetricWindowStore.call, MetricWindowStore.saveMetricSnapshot, hbody]
    rfl
  rw [hcall]
  refine ⟨⟨fun uid key => ?_, fun uid => ?_, fun uid key => ?_⟩, rfl⟩
  · obtain ⟨raw, hraw, hpoints⟩ := h.lists uid key
    refine ⟨raw, (Function.update_of_ne (metricKey_ne_snapshotKey key) _ _).trans hraw, ?_⟩
    change List.Forall₂ _ raw ((w.lists uid key).take s.maxPoints)
    rw [List.take_of_length_le (h.within uid key)]
    exact hpoints
  · by_cases huid : hostUID = uid
    · subst huid
      refine ⟨some body, Function.update_self _ _ _, ?_⟩
      change Option.Rel _ (some body) ((WindowCall.saved json hostUID _).or _)
      rw [WindowCall.saved, if_pos ⟨rfl, hc⟩, Option.some_or]
      exact .some (json.snapshot.roundtrip _ _ hbody)
    · obtain ⟨raw, hraw, hsnapshot⟩ := h.snapshots uid
      have hne : s.snapshotKey uid ≠ s.snapshotKey hostUID :=
        fun heq => huid (snapshotKey_injective heq).symm
      refine ⟨raw, (Function.update_of_ne hne _ _).trans hraw, ?_⟩
      change Option.Rel _ raw ((WindowCall.saved json uid _).or _)
      rw [WindowCall.saved, if_neg fun hc => huid hc.1, Option.none_or]
      exact hsnapshot
  · exact List.length_take_le _ _

theorem append_represents (order : KeyOrder) (hostUID : String) (now : Time) (digest : AgentDigest)
    (hc : (WindowCall.append order hostUID now digest).encodable json = true)
    (h : Represents s json db w) :
    Represents s json (s.call json db (.append order hostUID now digest)).1
        (w.step s.maxPoints json (.append order hostUID now digest)) ∧
      (s.call json db (.append order hostUID now digest)).2 = none := by
  have hsome : ∀ key, ∃ body, json.point.marshal ⟨now, digestMetricValues digest key⟩ = some body :=
    fun key => Option.isSome_iff_exists.mp (List.all_eq_true.mp hc key (mem_metricKeys key))
  choose body hbody using hsome
  choose raw hraw hpoints using h.lists hostUID
  have hcommands := mapM_of_forall (f := s.pushCommands json hostUID now digest)
    (g := fun key => [Redis.Command.lpush (s.metricKey hostUID key) (body key),
      .ltrim (s.metricKey hostUID key) 0 ((s.maxPoints : ℤ) - 1),
      .expire (s.metricKey hostUID key)]) (l := order.1) fun key _ => by
        rw [MetricWindowStore.pushCommands, hbody key]
        rfl
  have hcall : s.call json db (.append order hostUID now digest) =
      (trimmedLists s hostUID body raw order.1 db, none) := by
    rw [MetricWindowStore.call, MetricWindowStore.appendHeartbeatMetrics, hcommands]
    dsimp only
    rw [pipeline_trimmedLists (nodup_of_order order) fun key _ => hraw key]
    rfl
  rw [hcall]
  refine ⟨⟨fun uid key => ?_, fun uid => ?_, fun uid key => List.length_take_le _ _⟩, rfl⟩
  · by_cases huid : hostUID = uid
    · subst huid
      refine ⟨_, trimmedLists_of_mem (nodup_of_order order) (mem_of_order order key), ?_⟩
      change List.Forall₂ _ _ (((WindowCall.appended json hostUID key _).toList ++ _).take _)
      rw [WindowCall.appended, if_pos ⟨rfl, hc⟩]
      exact List.forall₂_take s.maxPoints
        (.cons (json.point.roundtrip _ _ (hbody key)) (hpoints key))
    · obtain ⟨raw', hraw', hpoints'⟩ := h.lists uid key
      refine ⟨raw', ?_, ?_⟩
      · rw [← hraw']
        exact trimmedLists_of_ne fun x _ heq => huid (metricKey_injective heq).1
      · change List.Forall₂ _ _ (((WindowCall.appended json uid key _).toList ++ _).take _)
        rw [WindowCall.appended, if_neg fun hc => huid hc.1, Option.toList_none, List.nil_append,
          List.take_of_length_le (h.within uid key)]
        exact hpoints'
  · obtain ⟨raw', hraw', hsnapshot⟩ := h.snapshots uid
    refine ⟨raw', ?_, hsnapshot⟩
    rw [← hraw']
    exact trimmedLists_of_ne fun x _ => metricKey_ne_snapshotKey x

/-- One call: the keys follow the window, and an error is always one of the encoding. -/
theorem call_represents (c : WindowCall) (h : Represents s json db w) :
    Represents s json (s.call json db c).1 (w.step s.maxPoints json c) ∧
      ((s.call json db c).2 = none ↔ c.encodable json = true) := by
  cases hc : c.encodable json with
  | false =>
    rw [call_of_not_encodable hc]
    exact ⟨step_of_not_encodable hc h, by simp⟩
  | true =>
    cases c with
    | append order hostUID now digest =>
      obtain ⟨hrep, hnone⟩ := append_represents order hostUID now digest hc h
      exact ⟨hrep, by simp [hnone]⟩
    | save hostUID snapshot =>
      obtain ⟨hrep, hnone⟩ := save_represents hostUID snapshot hc h
      exact ⟨hrep, by simp [hnone]⟩

theorem run_represents (calls : List WindowCall) (h : Represents s json db w) :
    Represents s json (s.run json db calls)
      (calls.foldl (MetricWindow.step s.maxPoints json) w) := by
  induction calls generalizing db w with
  | nil => exact h
  | cons c calls ih => exact ih (call_represents c h).1

end Calls

section Reads
variable {s : MetricWindowStore} {json : Json} {db : Redis.Keyspace} {w : MetricWindow}

theorem mapM_of_forall₂ {α β : Type} {f : α → Option β} {l : List α} {r : List β}
    (h : List.Forall₂ (fun a b => f a = some b) l r) : l.mapM f = some r := by
  induction h with
  | nil => rfl
  | cons hab _ ih =>
    rw [List.mapM_cons, hab, ih]
    rfl

theorem mapM_of_forall_ok {α β ε : Type} {f : α → Except ε β} {g : α → β} {l : List α}
    (h : ∀ a ∈ l, f a = .ok (g a)) : l.mapM f = .ok (l.map g) := by
  induction l with
  | nil => rfl
  | cons a l ih =>
    rw [List.mapM_cons, h a List.mem_cons_self, ih fun b hb => h b (List.mem_cons_of_mem _ hb)]
    rfl

theorem lookup_metricKeys {β : Type} (f : MetricKey → β) (key : MetricKey) :
    (metricKeys.map fun k => (k, f k)).lookup key = some (f key) := by
  cases key <;> rfl

theorem Represents.getHostMetricHistory (h : Represents s json db w) (hostUID : String) :
    s.getHostMetricHistory json hostUID db = .ok (w.getHostMetricHistory hostUID) := by
  choose raw hraw hpoints using h.lists hostUID
  have hcmds : (metricKeys.mapM fun key => do
      let raw ← Redis.lrange db (s.metricKey hostUID key) 0 (-1)
      return (key, raw)) = .ok (metricKeys.map fun key => (key, raw key)) := by
    refine mapM_of_forall_ok fun key _ => ?_
    rw [Redis.lrange, Redis.listAt_of_kept (hraw key)]
    simp only [Except.map, Redis.range_all]
    rfl
  have hdecode : ((metricKeys.map fun key => (key, raw key)).mapM fun (key, raw) => do
      let points ← MetricWindowStore.decodeMetricPoints json raw
      return (key, points)) =
      .ok (metricKeys.map fun key => (key, (w.lists hostUID key).reverse)) := by
    rw [List.mapM_map]
    refine mapM_of_forall_ok fun key _ => ?_
    have hreverse := mapM_of_forall₂ (List.forall₂_reverse_iff.mpr (hpoints key))
    simp only [Function.comp_apply, MetricWindowStore.decodeMetricPoints, hreverse]
    rfl
  have hrun : s.getHostMetricHistory json hostUID db = .ok (fun key =>
      ((metricKeys.map fun key => (key, (w.lists hostUID key).reverse)).lookup key).filter
        fun points => !points.isEmpty) := by
    rw [MetricWindowStore.getHostMetricHistory, hcmds]
    change Except.bind ((metricKeys.map fun key => (key, raw key)).mapM _) _ = _
    rw [hdecode]
    rfl
  rw [hrun]
  congr 1
  funext key
  rw [lookup_metricKeys, MetricWindow.getHostMetricHistory]
  cases (w.lists hostUID key).reverse <;> rfl

theorem Represents.getMetricSnapshot (h : Represents s json db w) (hostUID : String) :
    s.getMetricSnapshot json hostUID db = .ok (w.snapshots hostUID) := by
  obtain ⟨raw, hraw, hsnapshot⟩ := h.snapshots hostUID
  rw [MetricWindowStore.getMetricSnapshot, Redis.get, hraw]
  generalize w.snapshots hostUID = snapshot at hsnapshot
  cases hsnapshot with
  | none => rfl
  | some hbody => simp only [Option.map_some, hbody]

end Reads

theorem represents_empty (s : MetricWindowStore) (json : Json) :
    Represents s json (fun _ => none) {} where
  lists := fun _ _ => ⟨[], rfl, .nil⟩
  snapshots := fun _ => ⟨none, rfl, .none⟩
  within := fun _ _ => Nat.zero_le _

section Runs
variable (s : MetricWindowStore) (json : Json) (calls : List WindowCall) (hostUID : String)

/-- The values appended for a host, in order. -/
def appendedPoints (key : MetricKey) : List HistoryPoint :=
  calls.filterMap (WindowCall.appended json hostUID key)

def savedSnapshots : List MetricSnapshot := calls.filterMap (WindowCall.saved json hostUID)

theorem lists_foldl_step (key : MetricKey) :
    (calls.foldl (MetricWindow.step s.maxPoints json) {}).lists hostUID key =
      (appendedPoints json calls hostUID key).reverse.take s.maxPoints := by
  induction calls using List.reverseRecOn with
  | nil => exact List.take_nil.symm
  | append_singleton calls c ih =>
    rw [List.foldl_append, List.foldl_cons, List.foldl_nil, appendedPoints, List.filterMap_append,
      List.reverse_append]
    change ((c.appended json hostUID key).toList ++ _).take _ = _
    rw [ih]
    cases hc : c.appended json hostUID key with
    | none => simp [hc, appendedPoints]
    | some p =>
      -- the point comes first; the last one of a full window falls out
      have hlast : [c].filterMap (WindowCall.appended json hostUID key) = [p] := by simp [hc]
      obtain ⟨m, hm⟩ := Nat.exists_eq_add_one_of_ne_zero s.positive.ne'
      rw [hlast, hm, Option.toList_some, List.reverse_singleton, List.singleton_append,
        List.singleton_append, List.take_succ_cons, List.take_succ_cons, List.take_take,
        Nat.min_eq_left (Nat.le_succ m)]
      rfl

theorem snapshots_foldl_step :
    (calls.foldl (MetricWindow.step s.maxPoints json) {}).snapshots hostUID =
      (savedSnapshots json calls hostUID).getLast? := by
  induction calls using List.reverseRecOn with
  | nil => rfl
  | append_singleton calls c ih =>
    rw [List.foldl_append, List.foldl_cons, List.foldl_nil, savedSnapshots, List.filterMap_append]
    change (c.saved json hostUID).or _ = _
    rw [ih, List.getLast?_append]
    cases hc : c.saved json hostUID with
    | none => simp [hc, savedSnapshots]
    | some x => simp [hc]

/-- After any calls for any hosts, the history of a host is the last points appended for it,
in order, and its snapshot the last one saved for it; a call fails only when its own values
have no encoding. -/
theorem metric_window_exact :
    s.getHostMetricHistory json hostUID (s.run json (fun _ => none) calls) = .ok (fun key =>
      let points := appendedPoints json calls hostUID key
      if points = [] then none else some (points.drop (points.length - s.maxPoints))) ∧
    s.getMetricSnapshot json hostUID (s.run json (fun _ => none) calls) =
      .ok (savedSnapshots json calls hostUID).getLast? ∧
    ∀ c, (s.call json (s.run json (fun _ => none) calls) c).2 = none ↔ c.encodable json = true := by
  have hrep := run_represents calls (represents_empty s json)
  refine ⟨?_, ?_, fun c => (call_represents c hrep).2⟩
  · rw [hrep.getHostMetricHistory]
    congr 1
    funext key
    dsimp only
    rw [MetricWindow.getHostMetricHistory, lists_foldl_step, List.take_reverse,
      List.reverse_reverse]
    by_cases hpoints : appendedPoints json calls hostUID key = []
    · rw [if_pos hpoints, hpoints, List.drop_nil]
    · rw [if_neg hpoints]
      have hpos := s.positive
      have hlength := List.length_pos_iff.mpr hpoints
      cases hdrop : (appendedPoints json calls hostUID key).drop
          ((appendedPoints json calls hostUID key).length - s.maxPoints) with
      | nil =>
        have hshort := List.drop_eq_nil_iff.mp hdrop
        omega
      | cons p rest => rfl
  · rw [hrep.getMetricSnapshot, snapshots_foldl_step]

end Runs

def digitOf (c : Char) : Option ℕ := (List.range 10).find? fun n => n.digitChar = c

/-- Pairs of one digit each. -/
def readPoint (body : String) : Option HistoryPoint :=
  match body.toList with
  | ['[', t, ',', v, ']'] => do return ⟨← digitOf t, Float.ofNat (← digitOf v)⟩
  | _ => none

def readSnapshot (body : String) : Option MetricSnapshot :=
  match body.toList with
  | ['[', t, ']'] => do return ⟨← digitOf t, [], []⟩
  | _ => none

def digitJson : Json where
  point := .checked (fun p => String.ofList
    ['[', p.ts.toNat.digitChar, ',', p.value.toUInt64.toNat.digitChar, ']']) readPoint
  snapshot := .checked (fun x => String.ofList ['[', x.collectedAt.toNat.digitChar, ']'])
    readSnapshot

def smallWindow : MetricWindowStore := ⟨"gaoming:metrics", 2, by decide⟩

def appendAt (hostUID : String) (now : Time) (cpu : Float) : WindowCall :=
  .append ⟨metricKeys, .refl _⟩ hostUID now { cpuUsagePct := cpu }

/-- Three points for one host and one for another; the last append has no encoding. -/
def windowCalls : List WindowCall :=
  [appendAt "web:cpu" 1 4, appendAt "web" 1 7, appendAt "web:cpu" 2 5, .save "web:cpu" ⟨1, [], []⟩,
    .save "web:cpu" ⟨2, [], []⟩, appendAt "web:cpu" 3 6, appendAt "web:cpu" 4 0.5]

theorem metric_window_two_hosts :
    let db := smallWindow.run digitJson (fun _ => none) windowCalls
    (smallWindow.getHostMetricHistory digitJson "web:cpu" db).map (fun h => h .cpuUsagePct) =
        .ok (some [⟨2, 5⟩, ⟨3, 6⟩]) ∧
      (smallWindow.getHostMetricHistory digitJson "web" db).map (fun h => h .cpuUsagePct) =
        .ok (some [⟨1, 7⟩]) ∧
      smallWindow.getMetricSnapshot digitJson "web:cpu" db = .ok (some ⟨2, [], []⟩) ∧
      smallWindow.getMetricSnapshot digitJson "web" db = .ok none ∧
      (smallWindow.call digitJson db (appendAt "web" 4 0.5)).2 ≠ none := by
  obtain ⟨hcpu, hsnapshot, hcalls⟩ :=
    metric_window_exact smallWindow digitJson windowCalls "web:cpu"
  obtain ⟨hweb, hnone, -⟩ := metric_window_exact smallWindow digitJson windowCalls "web"
  dsimp only
  rw [hcpu, hweb, hsnapshot, hnone, Ne, hcalls]
  decide +kernel

end Gaoming
