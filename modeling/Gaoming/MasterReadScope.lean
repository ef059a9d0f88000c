import Gaoming.MasterRead

/-!
# What a principal may read

The scope of a principal is stated on the stored rows and the metric window, apart
from the handlers: for each host that the principal may name, whether it is in the
tenant, and its data (for a user) or the granted groups of its data. Two states
with the same scope give the principal the same answers.
-/

namespace Gaoming
open Relational Transaction

structure StatusGroup where
  agentState : Code := .unknown
  reachabilityState : Code := .unknown
  serviceState : Code := .unknown
  overallState : Code := .unknown
  lastAgentSeenAt : Time := 0
  lastProbeAt : Time := 0
  openAlertCount : Int64 := 0
  version : Int64 := 0

structure MetricGroup extends SummaryMetrics where
  lastMetricAt : Time := 0

def statusGroup : Option HostStatusRow → StatusGroup
  | none => {}
  | some row => {
      agentState := row.agentState, reachabilityState := row.reachabilityState
      serviceState := row.serviceState, overallState := row.overallState
      lastAgentSeenAt := row.lastAgentSeenAt.getD 0, lastProbeAt := row.lastProbeAt.getD 0
      openAlertCount := row.openAlertCount, version := row.version }

def metricGroup : Option HostStatusRow → MetricGroup
  | none => {}
  | some row => {
      toSummaryMetrics := row.toSummaryMetrics, lastMetricAt := row.lastMetricAt.getD 0 }

structure Granted where
  hostname : Option String
  status : Option StatusGroup
  metrics : Option MetricGroup

/-- The groups of the fields that the principal was given. -/
def granted (p : Principal) (hostname : String) (status : StatusGroup) (metrics : MetricGroup) :
    Granted where
  hostname := if p.allowsField "hostname" then some hostname else none
  status := if p.allowsField "status" then some status else none
  metrics := if p.allowsField "metrics" then some metrics else none

/-- All that is stored of a host, without the serial numbers that link its rows. -/
structure HostData where
  host : HostRow
  status : Option HostStatusRow
  labels : String → Option String
  window : MetricKey → List HistoryPoint
  batch : Option MetricSnapshot

inductive Scope
  | full (data : HostData)
  | shared (groups : Granted) (histories : Option (MetricKey → List HistoryPoint))

def HostData.scope (p : Principal) (d : HostData) : Scope :=
  if p.isUser then .full d
  else .shared (granted p d.host.hostname (statusGroup d.status) (metricGroup d.status))
    (if p.allowsField "metrics" then some d.window else none)

namespace ReadState

def dataOf (σ : ReadState) (h : HostRow) : HostData where
  host := { h with id := 1, tenantID := 1 }
  status := (σ.db.hostStatusCurrent.get? h.id).map fun row => { row with hostID := 1 }
  labels := fun k => (σ.db.hostLabels.get? (h.id, k)).map HostLabelRow.labelValue
  window := σ.window.lists h.hostUID
  batch := σ.window.snapshots h.hostUID

def inTenant (σ : ReadState) (tenantCode : String) (h : HostRow) : Bool :=
  σ.db.tenants.rows.any fun t => t.id = h.tenantID && t.tenantCode = tenantCode

def host? (σ : ReadState) (tenantCode uid : String) : Option HostRow :=
  σ.db.hosts.first HostRow.id fun h => h.hostUID = uid && σ.inTenant tenantCode h

def scope (σ : ReadState) (p : Principal) (uid : String) : Option Scope :=
  (σ.host? p.tenantCode uid).map fun h => (σ.dataOf h).scope p

end ReadState

/-- The two states are the same as far as the principal may read. -/
def Agree (p : Principal) (σ σ' : ReadState) : Prop :=
  ∀ uid, p.allowsHost p.tenantCode uid = true → σ.scope p uid = σ'.scope p uid

def HostSnapshot.statusGroup (s : HostSnapshot) : StatusGroup where
  agentState := s.agentState
  reachabilityState := s.reachabilityState
  serviceState := s.serviceState
  overallState := s.overallState
  lastAgentSeenAt := s.lastAgentSeenAt
  lastProbeAt := s.lastProbeAt
  openAlertCount := s.openAlertCount
  version := s.version

def HostSnapshot.metricGroup (s : HostSnapshot) : MetricGroup where
  toSummaryMetrics := s.toSummaryMetrics
  lastMetricAt := s.lastMetricAt

inductive SnapshotScope
  | full (snapshot : HostSnapshot)
  | shared (hostUID : String) (groups : Granted)

def HostSnapshot.scope (p : Principal) (s : HostSnapshot) : SnapshotScope :=
  if p.isUser then .full s
  else .shared s.hostUID (granted p s.hostname s.statusGroup s.metricGroup)

/-- The snapshots of hosts in scope that are pushed while the access lasts. -/
def pushed (p : Principal) : List StreamInput → List (HostSnapshot × Time)
  | [] | .done :: _ => []
  | .keepAlive :: rest => pushed p rest
  | .recheck access :: rest => if access then pushed p rest else []
  | .update event now access :: rest =>
    if access then
      match event.type, event.snapshot with
      | .upsert, some s =>
        if p.allowsHost s.tenantCode s.hostUID then (s, now) :: pushed p rest else pushed p rest
      | _, _ => pushed p rest
    else []

def pushedScopes (p : Principal) (inputs : List StreamInput) : List SnapshotScope :=
  (pushed p inputs).map fun s => s.1.scope p

section Views
variable {p : Principal} {s s' : HostSnapshot}

theorem scope_eq_iff (hu : ¬ p.isUser = true) : s.scope p = s'.scope p ↔
    s.hostUID = s'.hostUID ∧ (p.allowsField "hostname" = true → s.hostname = s'.hostname) ∧
    (p.allowsField "status" = true → s.statusGroup = s'.statusGroup) ∧
    (p.allowsField "metrics" = true → s.metricGroup = s'.metricGroup) := by
  have hite : ∀ {α : Type} (c : Prop) [Decidable c] (x y : α),
      (if c then some x else none) = (if c then some y else none) ↔ (c → x = y) := by
    intro α c _ x y
    by_cases hc : c <;> simp [hc]
  rw [HostSnapshot.scope, HostSnapshot.scope, if_neg hu, if_neg hu, SnapshotScope.shared.injEq,
    granted, granted, Granted.mk.injEq, hite, hite, hite]

theorem hostUID_of_scope (h : s.scope p = s'.scope p) : s.hostUID = s'.hostUID := by
  by_cases hu : p.isUser = true
  · rw [HostSnapshot.scope, HostSnapshot.scope, if_pos hu, if_pos hu] at h
    rw [SnapshotScope.full.inj h]
  · exact ((scope_eq_iff hu).mp h).1

theorem metricGroup_of_scope (hm : p.allowsField "metrics" = true) (h : s.scope p = s'.scope p) :
    s.metricGroup = s'.metricGroup := by
  by_cases hu : p.isUser = true
  · rw [HostSnapshot.scope, HostSnapshot.scope, if_pos hu, if_pos hu] at h
    rw [SnapshotScope.full.inj h]
  · exact ((scope_eq_iff hu).mp h).2.2.2 hm

theorem latest_of_metricGroup (h : s.metricGroup = s'.metricGroup) :
    latestMetricPointsFromSnapshot s = latestMetricPointsFromSnapshot s' ∧
      s.lastMetricAt = s'.lastMetricAt := by
  have hat : s.lastMetricAt = s'.lastMetricAt := congrArg MetricGroup.lastMetricAt h
  have hvalues : s.toSummaryMetrics = s'.toSummaryMetrics := congrArg MetricGroup.toSummaryMetrics h
  simp only [latestMetricPointsFromSnapshot, hat, hvalues, and_self]

theorem insertStatus_of_statusGroup (h : s.statusGroup = s'.statusGroup) :
    insertStatus s = insertStatus s' := by
  simp only [HostSnapshot.statusGroup, StatusGroup.mk.injEq] at h
  obtain ⟨hagent, hreach, hservice, hoverall, hseen, hprobe, hcount, hversion⟩ := h
  funext view
  rw [insertStatus, insertStatus, hagent, hreach, hservice, hoverall, hseen, hprobe, hcount,
    hversion]

theorem insertMetrics_of_metricGroup (h : s.metricGroup = s'.metricGroup) :
    insertMetrics s = insertMetrics s' := by
  have hat : s.lastMetricAt = s'.lastMetricAt := congrArg MetricGroup.lastMetricAt h
  have hvalues : s.toSummaryMetrics = s'.toSummaryMetrics := congrArg MetricGroup.toSummaryMetrics h
  funext view
  rw [insertMetrics, insertMetrics, digestFromSnapshot, digestFromSnapshot, hat, hvalues]

theorem projectHost_of_scope (h : s.scope p = s'.scope p) : projectHost p s = projectHost p s' := by
  by_cases hu : p.isUser = true
  · rw [HostSnapshot.scope, HostSnapshot.scope, if_pos hu, if_pos hu] at h
    rw [SnapshotScope.full.inj h]
  · obtain ⟨huid, hname, hstatus, hmetrics⟩ := (scope_eq_iff hu).mp h
    -- Each group is read under its own grant, where the two snapshots have it in common.
    have hview₁ : ∀ view : FieldMap,
        (if p.allowsField "hostname" then view.insert "hostname" (.text s.hostname) else view) =
        (if p.allowsField "hostname" then view.insert "hostname" (.text s'.hostname)
          else view) := by
      intro view
      split_ifs with hf
      · rw [hname hf]
      · rfl
    have hview₂ : ∀ view : FieldMap,
        (if p.allowsField "status" then insertStatus s view else view) =
        (if p.allowsField "status" then insertStatus s' view else view) := by
      intro view
      split_ifs with hf
      · rw [insertStatus_of_statusGroup (hstatus hf)]
      · rfl
    have hview₃ : ∀ view : FieldMap,
        (if p.allowsField "metrics" && !Time.isZero s.lastMetricAt then insertMetrics s view
          else view) =
        (if p.allowsField "metrics" && !Time.isZero s'.lastMetricAt then insertMetrics s' view
          else view) := by
      intro view
      by_cases hf : p.allowsField "metrics" = true
      · rw [insertMetrics_of_metricGroup (hmetrics hf), (latest_of_metricGroup (hmetrics hf)).2]
      · simp only [hf, Bool.false_and, Bool.false_eq_true, if_false]
    rw [projectHost, projectHost, if_neg hu, if_neg hu, huid]
    simp only [hview₁, hview₂, hview₃]

end Views

section Rows
variable {σ σ' : ReadState} {p : Principal} {h h' : HostRow}

theorem inTenant_iff {tenantCode : String} :
    σ.inTenant tenantCode h = true ↔ (σ.db.snapshotOf h).tenantCode = tenantCode ∧
      ∃ t ∈ σ.db.tenants.rows, t.id = h.tenantID := by
  have hcode : (σ.db.snapshotOf h).tenantCode =
      ((σ.db.tenants.get? h.tenantID).map TenantRow.tenantCode).getD "" := by
    unfold Database.snapshotOf hostSnapshotFromModel
    cases σ.db.hostStatusCurrent.get? h.id <;> rfl
  rw [hcode, ReadState.inTenant, List.any_eq_true]
  constructor
  · rintro ⟨t, ht, heq⟩
    simp only [Bool.and_eq_true, decide_eq_true_eq] at heq
    refine ⟨?_, t, ht, heq.1⟩
    rw [← heq.1, Table.get?_of_mem ht]
    exact heq.2
  · rintro ⟨hcode, t, ht, hid⟩
    rw [← hid, Table.get?_of_mem ht] at hcode
    exact ⟨t, ht, by simp only [hid, decide_true, Bool.true_and, decide_eq_true_eq]; exact hcode⟩

theorem labels_getElem? (k : String) : (Std.ExtTreeMap.ofList ((σ.db.hostLabels.select fun l =>
    l.hostID = h.id).map fun l => (l.labelKey, l.labelValue)))[k]? = (σ.dataOf h).labels k := by
  change _ = (σ.db.hostLabels.get? (h.id, k)).map HostLabelRow.labelValue
  cases hl : σ.db.hostLabels.get? (h.id, k) with
  | none =>
    refine Std.ExtTreeMap.getElem?_ofList_of_contains_eq_false ?_
    simp only [List.map_map, List.contains_eq_mem, List.mem_map, Table.mem_select,
      decide_eq_true_eq, Function.comp_apply, decide_eq_false_iff_not]
    rintro ⟨l, ⟨hl', hid⟩, rfl⟩
    exact Table.get?_eq_none_iff.mp hl l hl' (by rw [HostLabelRow.key, hid])
  | some l =>
    have hkey : HostLabelRow.key l = (h.id, k) := Table.key_of_get? hl
    rw [HostLabelRow.key, Prod.mk.injEq] at hkey
    refine Std.ExtTreeMap.getElem?_ofList_of_mem (k := k) (by simp) ?_ ?_
    · rw [List.pairwise_map]
      have hnodup :
          ((σ.db.hostLabels.select fun l => l.hostID = h.id).map HostLabelRow.key).Nodup :=
        σ.db.hostLabels.nodup.sublist (List.filter_sublist.map _)
      refine (List.pairwise_map.mp hnodup).imp_of_mem fun ha hb hne heq => hne ?_
      simp only [Table.mem_select, decide_eq_true_eq] at ha hb
      have hkeys := Std.LawfulEqCmp.eq_of_compare heq
      exact Prod.ext (ha.2.trans hb.2.symm) hkeys
    · refine List.mem_map.mpr ⟨l, Table.mem_select.mpr ⟨Table.mem_of_get? hl, ?_⟩, ?_⟩
      · simp only [hkey.1, decide_true]
      · rw [hkey.2]

theorem snapshotOf_statusGroup :
    (σ.db.snapshotOf h).statusGroup = statusGroup (σ.dataOf h).status := by
  unfold Database.snapshotOf hostSnapshotFromModel ReadState.dataOf
  cases σ.db.hostStatusCurrent.get? h.id <;> rfl

theorem snapshotOf_metricGroup :
    (σ.db.snapshotOf h).metricGroup = metricGroup (σ.dataOf h).status := by
  unfold Database.snapshotOf hostSnapshotFromModel ReadState.dataOf
  cases σ.db.hostStatusCurrent.get? h.id <;> rfl

theorem snapshotOf_hostname : (σ.db.snapshotOf h).hostname = (σ.dataOf h).host.hostname := by
  unfold Database.snapshotOf hostSnapshotFromModel ReadState.dataOf
  cases σ.db.hostStatusCurrent.get? h.id <;> rfl

/-- A snapshot in terms of its parts. -/
theorem snapshotOf_eq : σ.db.snapshotOf h = {
    hostUID := h.hostUID, tenantCode := (σ.db.snapshotOf h).tenantCode
    hostname := (σ.dataOf h).host.hostname, primaryIP := (σ.dataOf h).host.primaryIP
    agentState := (statusGroup (σ.dataOf h).status).agentState
    reachabilityState := (statusGroup (σ.dataOf h).status).reachabilityState
    serviceState := (statusGroup (σ.dataOf h).status).serviceState
    overallState := (statusGroup (σ.dataOf h).status).overallState
    toSummaryMetrics := (metricGroup (σ.dataOf h).status).toSummaryMetrics
    openAlertCount := (statusGroup (σ.dataOf h).status).openAlertCount
    version := (statusGroup (σ.dataOf h).status).version
    lastAgentSeenAt := (statusGroup (σ.dataOf h).status).lastAgentSeenAt
    lastMetricAt := (metricGroup (σ.dataOf h).status).lastMetricAt
    lastProbeAt := (statusGroup (σ.dataOf h).status).lastProbeAt
    labels := (σ.db.snapshotOf h).labels } := by
  unfold Database.snapshotOf hostSnapshotFromModel ReadState.dataOf
  cases σ.db.hostStatusCurrent.get? h.id <;> rfl

theorem snapshotOf_labels (k : String) :
    (σ.db.snapshotOf h).labels[k]? = (σ.dataOf h).labels k := by
  rw [← labels_getElem?]
  unfold Database.snapshotOf hostSnapshotFromModel
  cases σ.db.hostStatusCurrent.get? h.id <;> rfl

/-- Hosts of one UID and tenant code with the same scope have snapshots with the same scope. -/
theorem snapshotOf_scope (huid : h.hostUID = h'.hostUID)
    (hcode : (σ.db.snapshotOf h).tenantCode = (σ'.db.snapshotOf h').tenantCode)
    (hs : (σ.dataOf h).scope p = (σ'.dataOf h').scope p) :
    (σ.db.snapshotOf h).scope p = (σ'.db.snapshotOf h').scope p := by
  by_cases hu : p.isUser = true
  · rw [HostData.scope, HostData.scope, if_pos hu, if_pos hu, Scope.full.injEq] at hs
    have hlabels : (σ.db.snapshotOf h).labels = (σ'.db.snapshotOf h').labels := by
      refine Std.ExtTreeMap.ext_getElem? fun k => ?_
      rw [snapshotOf_labels, snapshotOf_labels, hs]
    rw [snapshotOf_eq, hs, hcode, hlabels, huid, ← snapshotOf_eq]
  · rw [HostData.scope, HostData.scope, if_neg hu, if_neg hu, Scope.shared.injEq] at hs
    rw [HostSnapshot.scope, HostSnapshot.scope, if_neg hu, if_neg hu, snapshotOf_hostUID,
      snapshotOf_hostUID, snapshotOf_hostname, snapshotOf_hostname, snapshotOf_statusGroup,
      snapshotOf_statusGroup, snapshotOf_metricGroup, snapshotOf_metricGroup, huid, hs.1]

theorem window_of_scope (hm : p.allowsField "metrics" = true) (huid : h.hostUID = h'.hostUID)
    (hs : (σ.dataOf h).scope p = (σ'.dataOf h').scope p) :
    σ.window.lists h.hostUID = σ'.window.lists h.hostUID := by
  by_cases hu : p.isUser = true
  · rw [HostData.scope, HostData.scope, if_pos hu, if_pos hu, Scope.full.injEq] at hs
    have hwindow : σ.window.lists h.hostUID = σ'.window.lists h'.hostUID :=
      congrArg HostData.window hs
    rw [hwindow, huid]
  · rw [HostData.scope, HostData.scope, if_neg hu, if_neg hu, Scope.shared.injEq, if_pos hm,
      if_pos hm, Option.some.injEq] at hs
    have hwindow : σ.window.lists h.hostUID = σ'.window.lists h'.hostUID := hs.2
    rw [hwindow, huid]

end Rows

section Reads
variable {σ σ' : ReadState} {p : Principal} {h : HostRow} {uid : String}

theorem host?_eq_some_iff {tenantCode : String} : σ.host? tenantCode uid = some h ↔
    h ∈ σ.db.hosts.rows ∧ h.hostUID = uid ∧ σ.inTenant tenantCode h = true := by
  constructor
  · intro hf
    obtain ⟨hmem, heq⟩ := Table.mem_of_first hf
    simp only [Bool.and_eq_true, decide_eq_true_eq] at heq
    exact ⟨hmem, heq.1, heq.2⟩
  · rintro ⟨hmem, rfl, htenant⟩
    refine Table.first_eq_some_of_unique hmem (by simp [htenant]) fun g hg heq => ?_
    simp only [Bool.and_eq_true, decide_eq_true_eq] at heq
    exact σ.consistent.hostUID_inj g hg h hmem heq.1

theorem tenantCode_ne (hp : validReader p = true) : p.tenantCode ≠ "" := by
  simp only [validReader, Bool.and_eq_true, decide_eq_true_eq] at hp
  exact hp.1

theorem mem_hostsListed_iff (hp : validReader p = true) : h ∈ σ.db.hostsListed uid p.tenantCode ↔
    h ∈ σ.db.hosts.rows ∧ zeroOrEq uid h.hostUID = true ∧ σ.inTenant p.tenantCode h = true := by
  simp only [Database.hostsListed, List.mem_insertionSort, Table.mem_select, Bool.and_eq_true,
    tenantCode_ne hp, decide_false, Bool.false_or, ReadState.inTenant]

/-- The hosts of the tenant that the principal may name, in the order of their UIDs. -/
def visible (σ : ReadState) (p : Principal) : List HostRow :=
  (σ.db.hostsListed "" p.tenantCode).filter fun h => p.allowsHost p.tenantCode h.hostUID

theorem mem_visible_iff (hp : validReader p = true) : h ∈ visible σ p ↔
    σ.host? p.tenantCode h.hostUID = some h ∧ p.allowsHost p.tenantCode h.hostUID = true := by
  rw [visible, List.mem_filter, mem_hostsListed_iff hp, host?_eq_some_iff]
  simp only [zeroOrEq, decide_true, Bool.true_or, true_and]

theorem visible_sorted : (visible σ p).Pairwise fun g h => g.hostUID < h.hostUID := by
  refine List.Pairwise.filter _ (Table.pairwise_lt_insertionSort ?_)
  have hnodup : (σ.db.hosts.rows.map HostRow.hostUID).Nodup := by
    refine List.Nodup.map_on ?_ σ.db.hosts.nodup.of_map
    exact fun g hg h hh heq => σ.consistent.hostUID_inj g hg h hh heq
  exact hnodup.sublist (List.filter_sublist.map _)

theorem readHosts_eq (hp : validReader p = true) :
    readHosts σ p = .ok ((visible σ p).map σ.db.snapshotOf) := by
  have hfilter : ((σ.db.hostsListed "" p.tenantCode).map σ.db.snapshotOf).filter
      (fun item => p.allowsHost item.tenantCode item.hostUID) =
      (visible σ p).map σ.db.snapshotOf := by
    rw [visible, List.filter_map]
    congr 1
    refine List.filter_congr fun h hh => ?_
    rw [Function.comp_apply, snapshotOf_hostUID,
      (inTenant_iff.mp ((mem_hostsListed_iff hp).mp hh).2.2).1]
  rw [readHosts, hp, run_listHosts]
  simp only [Bool.not_true, Bool.false_eq_true, if_false, hfilter]

theorem getHostByUID_eq (hp : validReader p = true) (huid : uid ≠ "") :
    (getHostByUID uid p.tenantCode).run σ.db =
      .ok ((σ.host? p.tenantCode uid).map σ.db.snapshotOf, σ.db) := by
  have hmem : ∀ g, g ∈ σ.db.hostsListed uid p.tenantCode ↔ σ.host? p.tenantCode uid = some g := by
    intro g
    rw [mem_hostsListed_iff hp, host?_eq_some_iff]
    simp only [zeroOrEq, huid, decide_false, Bool.false_or, decide_eq_true_eq]
    rw [eq_comm (a := uid)]
  rw [run_getHostByUID, List.head?_map]
  congr 3
  cases hl : σ.db.hostsListed uid p.tenantCode with
  | nil =>
    cases hf : σ.host? p.tenantCode uid with
    | none => rfl
    | some g => simpa [hl] using (hmem g).mpr hf
  | cons g rest => rw [List.head?_cons, (hmem g).mp (by simp [hl])]

theorem readHost_eq (hp : validReader p = true) (ha : p.allowsHost p.tenantCode uid = true) :
    readHost σ p uid = .ok ((σ.host? p.tenantCode uid).map σ.db.snapshotOf) := by
  have huid : uid ≠ "" := by
    rintro rfl
    simp [Principal.allowsHost] at ha
  rw [readHost, hp, ha, getHostByUID_eq hp huid]
  cases hf : σ.host? p.tenantCode uid with
  | none => rfl
  | some h =>
    obtain ⟨-, hid, htenant⟩ := host?_eq_some_iff.mp hf
    simp only [Bool.not_true, Bool.false_eq_true, if_false, Option.map_some, snapshotOf_hostUID,
      (inTenant_iff.mp htenant).1, hid, ha]

variable (hagree : Agree p σ σ')
include hagree

/-- Hosts in scope correspond. -/
theorem Agree.host? (ha : p.allowsHost p.tenantCode uid = true) :
    (σ.host? p.tenantCode uid).isSome = (σ'.host? p.tenantCode uid).isSome ∧
    ∀ h h', σ.host? p.tenantCode uid = some h → σ'.host? p.tenantCode uid = some h' →
      (σ.dataOf h).scope p = (σ'.dataOf h').scope p ∧
      (σ.db.snapshotOf h).scope p = (σ'.db.snapshotOf h').scope p := by
  have hscope := hagree uid ha
  refine ⟨?_, fun h h' hf hf' => ?_⟩
  · have hsome := congrArg Option.isSome hscope
    simpa only [ReadState.scope, Option.isSome_map] using hsome
  · rw [ReadState.scope, ReadState.scope, hf, hf', Option.map_some, Option.map_some,
      Option.some.injEq] at hscope
    obtain ⟨-, hid, htenant⟩ := host?_eq_some_iff.mp hf
    obtain ⟨-, hid', htenant'⟩ := host?_eq_some_iff.mp hf'
    refine ⟨hscope, snapshotOf_scope (hid.trans hid'.symm) ?_ hscope⟩
    rw [(inTenant_iff.mp htenant).1, (inTenant_iff.mp htenant').1]

theorem Agree.visible (hp : validReader p = true) :
    List.Forall₂ (fun h h' => (σ.db.snapshotOf h).scope p = (σ'.db.snapshotOf h').scope p ∧
      (p.allowsField "metrics" = true →
        σ.window.lists h.hostUID = σ'.window.lists h.hostUID))
      (visible σ p) (visible σ' p) := by
  have hmem : ∀ {τ : ReadState}, ∀ uid, uid ∈ (Gaoming.visible τ p).map HostRow.hostUID ↔
      p.allowsHost p.tenantCode uid = true ∧ (τ.host? p.tenantCode uid).isSome = true := by
    intro τ uid
    rw [List.mem_map, Option.isSome_iff_exists]
    constructor
    · rintro ⟨h, hh, rfl⟩
      obtain ⟨hf, ha⟩ := (mem_visible_iff hp).mp hh
      exact ⟨ha, h, hf⟩
    · rintro ⟨ha, h, hf⟩
      have hid := (host?_eq_some_iff.mp hf).2.1
      exact ⟨h, (mem_visible_iff hp).mpr (by rw [hid]; exact ⟨hf, ha⟩), hid⟩
  have haligned := Table.forall₂_of_mem_iff (visible_sorted (σ := σ) (p := p))
    (visible_sorted (σ := σ') (p := p)) fun uid => by
      rw [hmem, hmem]
      refine and_congr_right fun ha => ?_
      rw [(hagree.host? ha).1]
  refine haligned.imp fun h h' hh => ?_
  obtain ⟨hh, hh', hid⟩ := hh
  obtain ⟨hf, ha⟩ := (mem_visible_iff hp).mp hh
  obtain ⟨hf', -⟩ := (mem_visible_iff hp).mp hh'
  obtain ⟨hdata, hsnapshot⟩ := (hagree.host? ha).2 h h' hf (hid ▸ hf')
  exact ⟨hsnapshot, fun hm => window_of_scope hm hid hdata⟩

omit hagree in
/-- What respects the scope of a snapshot is the same on lists of one scope. -/
theorem map_eq_of_scope {β : Type} {f : HostSnapshot → β}
    (hf : ∀ s s' : HostSnapshot, s.scope p = s'.scope p → f s = f s') {l l' : List HostSnapshot}
    (hl : l.map (HostSnapshot.scope p) = l'.map (HostSnapshot.scope p)) : l.map f = l'.map f := by
  induction l generalizing l' with
  | nil =>
    cases l' with
    | nil => rfl
    | cons s' l' => cases hl
  | cons s l ih =>
    cases l' with
    | nil => cases hl
    | cons s' l' =>
      rw [List.map_cons, List.map_cons, List.cons.injEq] at hl
      rw [List.map_cons, List.map_cons, hf s s' hl.1, ih hl.2]

theorem Agree.readHosts (hp : validReader p = true) : ∃ items items',
    readHosts σ p = .ok items ∧ readHosts σ' p = .ok items' ∧
    items.map (HostSnapshot.scope p) = items'.map (HostSnapshot.scope p) ∧
    (p.allowsField "metrics" = true → ∀ s ∈ items,
      σ.window.lists s.hostUID = σ'.window.lists s.hostUID) := by
  have haligned := hagree.visible hp
  refine ⟨_, _, readHosts_eq hp, readHosts_eq hp, ?_, fun hm s hs => ?_⟩
  · rw [List.map_map, List.map_map, ← List.forall₂_eq_eq_eq]
    refine List.forall₂_map_left_iff.mpr (List.forall₂_map_right_iff.mpr ?_)
    exact haligned.imp fun h h' hh => hh.1
  · obtain ⟨h, hh, rfl⟩ := List.mem_map.mp hs
    obtain ⟨hf, ha⟩ := (mem_visible_iff hp).mp hh
    rw [snapshotOf_hostUID]
    have hsome := (hagree.host? ha).1
    rw [hf, Option.isSome_some, eq_comm, Option.isSome_iff_exists] at hsome
    obtain ⟨h', hf'⟩ := hsome
    have hid := (host?_eq_some_iff.mp hf').2.1
    exact window_of_scope hm hid.symm ((hagree.host? ha).2 h h' hf hf').1

theorem Agree.readHost (hp : validReader p = true) (uid : String) : ∃ o o',
    readHost σ p uid = .ok o ∧ readHost σ' p uid = .ok o' ∧
    o.map (HostSnapshot.scope p) = o'.map (HostSnapshot.scope p) := by
  by_cases ha : p.allowsHost p.tenantCode uid = true
  · refine ⟨_, _, readHost_eq hp ha, readHost_eq hp ha, ?_⟩
    obtain ⟨hsome, hscope⟩ := hagree.host? ha
    cases hf : σ.host? p.tenantCode uid with
    | none =>
      rw [hf, Option.isSome_none, eq_comm, Option.isSome_eq_false_iff,
        Option.isNone_iff_eq_none] at hsome
      rw [hsome]
      rfl
    | some h =>
      rw [hf, Option.isSome_some, eq_comm, Option.isSome_iff_exists] at hsome
      obtain ⟨h', hf'⟩ := hsome
      rw [hf', Option.map_some, Option.map_some, Option.map_some, Option.map_some,
        (hscope h h' hf hf').2]
  · have hnone : ∀ τ : ReadState, Gaoming.readHost τ p uid = .ok none := by
      intro τ
      simp only [Gaoming.readHost, hp, ha, Bool.not_true, Bool.not_false, Bool.false_eq_true,
        if_false, if_true]
    exact ⟨none, none, hnone σ, hnone σ', rfl⟩

end Reads

section Answers
variable {σ σ' : ReadState} {p : Principal} {items items' : List HostSnapshot}

theorem getAllHostMetricHistory_congr {m m' : MetricWindow} {uids : List String}
    (h : ∀ uid ∈ uids, m.lists uid = m'.lists uid) :
    m.getAllHostMetricHistory uids = m'.getAllHostMetricHistory uids := by
  unfold MetricWindow.getAllHostMetricHistory
  refine List.foldl_ext _ _ _ fun result uid huid => ?_
  have hhistory : m.getHostMetricHistory uid = m'.getHostMetricHistory uid := by
    funext key
    rw [MetricWindow.getHostMetricHistory, MetricWindow.getHostMetricHistory, h uid huid]
  rw [hhistory]

theorem latestMetricPointsByHost_of_scope (hm : p.allowsField "metrics" = true)
    (hscope : items.map (HostSnapshot.scope p) = items'.map (HostSnapshot.scope p)) :
    latestMetricPointsByHost items = latestMetricPointsByHost items' := by
  -- The loop reads the UID and the points of an item, and nothing else.
  have hfold : ∀ l : List HostSnapshot, latestMetricPointsByHost l = (
      let latest := (l.map fun s => (s.hostUID, latestMetricPointsFromSnapshot s)).foldl
        (fun latest item => item.2.elim latest fun points => latest.insert item.1 points)
        (∅ : Std.ExtTreeMap String (MetricKey → HistoryPoint))
      if latest.isEmpty then none else some latest) := by
    intro l
    rw [List.foldl_map]
    refine congrArg (fun latest : Std.ExtTreeMap String (MetricKey → HistoryPoint) =>
      if latest.isEmpty then none else some latest) (List.foldl_ext _ _ _ fun latest s _ => ?_)
    dsimp only
    cases latestMetricPointsFromSnapshot s <;> rfl
  have hpairs : items.map (fun s => (s.hostUID, latestMetricPointsFromSnapshot s)) =
      items'.map fun s => (s.hostUID, latestMetricPointsFromSnapshot s) := by
    refine map_eq_of_scope (fun s s' h => ?_) hscope
    rw [hostUID_of_scope h, (latest_of_metricGroup (metricGroup_of_scope hm h)).1]
  rw [hfold, hfold, hpairs]

theorem syncHistories_of_scope
    (hscope : items.map (HostSnapshot.scope p) = items'.map (HostSnapshot.scope p))
    (hwindow : p.allowsField "metrics" = true → ∀ s ∈ items,
      σ.window.lists s.hostUID = σ'.window.lists s.hostUID) :
    syncHistories σ p items = syncHistories σ' p items' := by
  have huids : items.map HostSnapshot.hostUID = items'.map HostSnapshot.hostUID :=
    map_eq_of_scope (fun s s' h => hostUID_of_scope h) hscope
  have hempty : items.isEmpty = items'.isEmpty := by
    simpa only [List.isEmpty_map] using congrArg List.isEmpty huids
  by_cases hm : p.allowsField "metrics" = true
  · have hall : σ.window.getAllHostMetricHistory (hostUIDsFromSnapshots items) =
        σ'.window.getAllHostMetricHistory (hostUIDsFromSnapshots items') := by
      rw [hostUIDsFromSnapshots, hostUIDsFromSnapshots, ← huids]
      refine getAllHostMetricHistory_congr fun uid huid => ?_
      obtain ⟨s, hs, rfl⟩ := List.mem_map.mp (List.mem_filter.mp huid).1
      exact hwindow hm s hs
    rw [syncHistories, syncHistories, hempty, hall, huids]
  · have hnone : ∀ (τ : ReadState) (l : List HostSnapshot), syncHistories τ p l = none := by
      intro τ l
      rw [syncHistories, if_neg (by simp [hm])]
    rw [hnone, hnone]

theorem streamUpdates_eq (p : Principal) (inputs : List StreamInput) :
    streamUpdates p inputs = (pushed p inputs).map fun s => upsertPayload p s.1 s.2 := by
  induction inputs with
  | nil => rfl
  | cons input rest ih =>
    cases input with
    | done => rfl
    | keepAlive => exact ih
    | recheck access =>
      cases access with
      | false => rfl
      | true => exact ih
    | update event now access =>
      cases access with
      | false => rfl
      | true =>
        obtain ⟨type, uid, snapshot⟩ := event
        cases type with
        | upsert =>
          cases snapshot with
          | none => exact ih
          | some s =>
            by_cases ha : p.allowsHost s.tenantCode s.hostUID = true
            · simp [streamUpdates, pushed, ha, ih]
            · simp [streamUpdates, pushed, ha, ih]
        | delete => exact ih
        | other name => exact ih

theorem streamUpdates_of_scope {inputs inputs' : List StreamInput}
    (h : pushedScopes p inputs = pushedScopes p inputs') :
    (streamUpdates p inputs).map UpsertPayload.toUpsertBody =
      (streamUpdates p inputs').map UpsertPayload.toUpsertBody := by
  have hbody : ∀ l : List StreamInput, (streamUpdates p l).map UpsertPayload.toUpsertBody =
      ((pushed p l).map Prod.fst).map fun s => (upsertPayload p s 0).toUpsertBody := by
    intro l
    rw [streamUpdates_eq, List.map_map, List.map_map]
    rfl
  rw [hbody, hbody]
  have hscope : ((pushed p inputs).map Prod.fst).map (HostSnapshot.scope p) =
      ((pushed p inputs').map Prod.fst).map (HostSnapshot.scope p) := by
    rw [List.map_map, List.map_map]
    exact h
  refine map_eq_of_scope (fun s s' hs => ?_) hscope
  simp only [upsertPayload, projectHost_of_scope hs, UpsertBody.mk.injEq, true_and]
  by_cases hm : p.allowsField "metrics" = true
  · rw [(latest_of_metricGroup (metricGroup_of_scope hm hs)).1]
  · rw [if_neg hm, if_neg hm]

end Answers

def streamBodies (r : Response (SyncPayload × List UpsertPayload)) :
    Response (SyncBody × List UpsertBody) :=
  r.map fun out => (out.1.toSyncBody, out.2.map UpsertPayload.toUpsertBody)

/-- The answers to the principal are the same in both states, apart from the server time. -/
structure ReadsAlike (p : Principal) (σ σ' : ReadState) : Prop where
  list : handleListHosts σ p = handleListHosts σ' p
  host : ∀ param, handleGetHost σ p param = handleGetHost σ' p param
  latest : ∀ param, handlePublicLatestMetrics σ p param = handlePublicLatestMetrics σ' p param
  latestOfUser : p.isUser = true → ∀ param,
    handleGetLatestMetricSnapshot σ p.tenantCode param =
      handleGetLatestMetricSnapshot σ' p.tenantCode param
  stream : ∀ access now now' inputs inputs', pushedScopes p inputs = pushedScopes p inputs' →
    streamBodies (handleHostStream σ p access now inputs) =
      streamBodies (handleHostStream σ' p access now' inputs')

section Confinement
variable {p : Principal} {σ σ' : ReadState}

theorem Agree.handleListHosts (h : Agree p σ σ') (hp : validReader p = true) :
    handleListHosts σ p = handleListHosts σ' p := by
  obtain ⟨items, items', hread, hread', hscope, -⟩ := h.readHosts hp
  simp only [Gaoming.handleListHosts, hread, hread', projectHosts]
  rw [map_eq_of_scope (fun s s' hs => projectHost_of_scope hs) hscope]

theorem Agree.handleGetHost (h : Agree p σ σ') (hp : validReader p = true) (param : String) :
    handleGetHost σ p param = handleGetHost σ' p param := by
  obtain ⟨o, o', hread, hread', hscope⟩ := h.readHost hp (trimSpace param)
  rw [Gaoming.handleGetHost, Gaoming.handleGetHost, hread, hread']
  cases o with
  | none =>
    cases o' with
    | none => rfl
    | some s' => cases hscope
  | some s =>
    cases o' with
    | none => cases hscope
    | some s' => simp only [projectHost_of_scope (Option.some.inj hscope)]

theorem Agree.handlePublicLatestMetrics (h : Agree p σ σ') (hp : validReader p = true)
    (param : String) :
    handlePublicLatestMetrics σ p param = handlePublicLatestMetrics σ' p param := by
  obtain ⟨o, o', hread, hread', hscope⟩ := h.readHost hp (trimSpace param)
  rw [Gaoming.handlePublicLatestMetrics, Gaoming.handlePublicLatestMetrics, hread, hread']
  by_cases hm : p.allowsField "metrics" = true
  · cases o with
    | none =>
      cases o' with
      | none => rfl
      | some s' => cases hscope
    | some s =>
      cases o' with
      | none => cases hscope
      | some s' =>
        obtain ⟨hlatest, hat⟩ :=
          latest_of_metricGroup (metricGroup_of_scope hm (Option.some.inj hscope))
        simp only [hlatest, hat]
  · simp only [hm, Bool.not_false, if_true]

theorem Agree.handleGetLatestMetricSnapshot (h : Agree p σ σ') (hp : validReader p = true)
    (hu : p.isUser = true) (param : String) :
    handleGetLatestMetricSnapshot σ p.tenantCode param =
      handleGetLatestMetricSnapshot σ' p.tenantCode param := by
  rw [Gaoming.handleGetLatestMetricSnapshot, Gaoming.handleGetLatestMetricSnapshot]
  by_cases hparam : trimSpace param = ""
  · rw [if_pos hparam, if_pos hparam]
  · have hcode := tenantCode_ne hp
    have ha : p.allowsHost p.tenantCode (trimSpace param) = true := by
      simp only [Principal.allowsHost, hcode, hparam, hu, decide_false, Bool.or_false, ne_eq,
        not_true_eq_false, Bool.false_eq_true, if_false, if_true]
    rw [if_neg hparam, if_neg hparam, if_neg hcode, if_neg hcode, getHostByUID_eq hp hparam,
      getHostByUID_eq hp hparam]
    obtain ⟨hsome, hscope⟩ := h.host? ha
    cases hf : σ.host? p.tenantCode (trimSpace param) with
    | none =>
      rw [hf, Option.isSome_none, eq_comm, Option.isSome_eq_false_iff, Option.isNone_iff_eq_none]
        at hsome
      rw [hsome]
      rfl
    | some g =>
      rw [hf, Option.isSome_some, eq_comm, Option.isSome_iff_exists] at hsome
      obtain ⟨g', hf'⟩ := hsome
      have hdata := (hscope g g' hf hf').1
      rw [HostData.scope, HostData.scope, if_pos hu, if_pos hu, Scope.full.injEq] at hdata
      have hbatch : σ.window.snapshots g.hostUID = σ'.window.snapshots g'.hostUID :=
        congrArg HostData.batch hdata
      rw [(host?_eq_some_iff.mp hf).2.1, (host?_eq_some_iff.mp hf').2.1] at hbatch
      rw [hf', Option.map_some, Option.map_some]
      simp only [hbatch]

theorem Agree.handleHostStream (h : Agree p σ σ') (hp : validReader p = true) (access : Bool)
    (now now' : Time) {inputs inputs' : List StreamInput}
    (hpushed : pushedScopes p inputs = pushedScopes p inputs') :
    streamBodies (handleHostStream σ p access now inputs) =
      streamBodies (handleHostStream σ' p access now' inputs') := by
  obtain ⟨items, items', hread, hread', hscope, hwindow⟩ := h.readHosts hp
  have hitems : projectHosts p items = projectHosts p items' :=
    map_eq_of_scope (fun s s' hs => projectHost_of_scope hs) hscope
  have hlatest : (if p.allowsField "metrics" then latestMetricPointsByHost items else none) =
      (if p.allowsField "metrics" then latestMetricPointsByHost items' else none) := by
    split_ifs with hm
    · exact latestMetricPointsByHost_of_scope hm hscope
    · rfl
  rw [Gaoming.handleHostStream, Gaoming.handleHostStream, hread, hread']
  cases access with
  | false => rfl
  | true =>
    simp only [streamBodies, Response.map, Bool.not_true, Bool.false_eq_true, if_false, hitems,
      hlatest, syncHistories_of_scope hscope hwindow, streamUpdates_of_scope hpushed]

end Confinement

/-- A valid reader learns nothing beyond its scope from any of the read paths. -/
theorem reads_confined (p : Principal) (σ σ' : ReadState) (hp : validReader p = true)
    (h : Agree p σ σ') : ReadsAlike p σ σ' where
  list := h.handleListHosts hp
  host := h.handleGetHost hp
  latest := h.handlePublicLatestMetrics hp
  latestOfUser := h.handleGetLatestMetricSnapshot hp
  stream := fun access now now' _ _ hpushed => h.handleHostStream hp access now now' hpushed

-- One tenant with a shared and a private host.

def sampleHost (id : Serial) (uid secret : String) : HostRow := {
  id, tenantID := 1, hostUID := uid, hostname := secret, primaryIP := secret, osType := secret
  arch := "", region := "", az := none, env := none, role := none, status := .up
  registeredAt := 0, lastRegisterAt := 0, updatedAt := 0 }

def sampleRead (secret : String) : ReadState where
  db := {
    tenants := ⟨[⟨1, "acme", "acme", 1, 0, 0⟩], by decide⟩
    hosts := ⟨[sampleHost 1 "h1" secret, sampleHost 2 "h2" secret],
      show ([1, 2] : List Serial).Nodup by decide⟩
    hostStatusCurrent := ⟨[{
      hostID := 1, agentState := .up, reachabilityState := .up, serviceState := .up
      overallState := .up, lastMetricAt := some 1, version := 1 }], by decide⟩ }
  consistent := by constructor <;> simp [sampleHost]

def sampleReader : Principal where
  kind := .share
  tenantCode := "acme"
  allowedHosts := ["h1"]
  fields := ["status", "metrics"]

theorem reads_confined_sample : validReader sampleReader = true ∧
    Agree sampleReader (sampleRead "web") (sampleRead "db") ∧
    ReadsAlike sampleReader (sampleRead "web") (sampleRead "db") := by
  have hvalid : validReader sampleReader = true := by decide
  have hagree : Agree sampleReader (sampleRead "web") (sampleRead "db") := by
    intro uid huid
    have heq : uid = "h1" := by
      by_contra hne
      simp [Principal.allowsHost, sampleReader, Principal.isUser, hne] at huid
    rw [heq]
    rfl
  exact ⟨hvalid, hagree, reads_confined sampleReader _ _ hvalid hagree⟩

end Gaoming
