import Gaoming.Contracts

/-!
# The hosts of the dashboard

`useLiveHostsData`: a map of hosts that list responses and `sync` messages
replace, and that `host_upsert` and `host_delete` messages patch, each when it
arrives. The metric histories, which are kept apart, are in `TrendHistory`.
-/

namespace Gaoming

/-- A message for the dashboard; `hosts` is the response to `reloadHosts`. -/
inductive HostsMessage
  | hosts (items : List HostSnapshot)
  | sync (items : List HostSnapshot) (serverTime : String)
  | hostUpsert (item : Option HostSnapshot) (serverTime : String)
  | hostDelete (hostUID : String) (serverTime : String)

structure LiveHosts where
  agents : Std.ExtTreeMap String HostSnapshot := ∅
  streamEventCount : ℕ := 0
  lastUpdated : String := ""

def listToHostMap (items : List HostSnapshot) : Std.ExtTreeMap String HostSnapshot :=
  items.foldl (fun next item => next.insert item.hostUID item) ∅

namespace LiveHosts

def receive (s : LiveHosts) : HostsMessage → LiveHosts
  | .hosts items => { s with agents := listToHostMap items }
  | .sync items serverTime => {
      agents := listToHostMap items, streamEventCount := s.streamEventCount + 1
      lastUpdated := serverTime }
  | .hostUpsert none _ => s
  | .hostUpsert (some item) serverTime =>
    if item.hostUID = "" then s
    else {
      agents := s.agents.insert item.hostUID item, streamEventCount := s.streamEventCount + 1
      lastUpdated := serverTime }
  | .hostDelete hostUID serverTime =>
    if hostUID = "" then s
    else {
      agents := s.agents.erase hostUID, streamEventCount := s.streamEventCount + 1
      lastUpdated := serverTime }

def after (messages : List HostsMessage) : LiveHosts := messages.foldl receive {}

end LiveHosts

def HostsMessage.items : HostsMessage → List HostSnapshot
  | .hosts items | .sync items _ => items
  | .hostUpsert item _ => item.toList
  | .hostDelete _ _ => []

/-- The hosts of one tenant at each moment of the server, with growing versions. -/
structure HostTimeline where
  hosts : ℕ → List HostSnapshot
  version_le : ∀ t t' x x', t ≤ t' → x ∈ hosts t → x' ∈ hosts t' → x.hostUID = x'.hostUID →
    x.version ≤ x'.version

/-- A message made from the hosts of one moment, which arrives at any later time. -/
structure Delivery (timeline : HostTimeline) where
  moment : ℕ
  message : HostsMessage
  produced : ∀ x ∈ message.items, x ∈ timeline.hosts moment

namespace Delivery
variable {timeline : HostTimeline}

/-- Of the two, the first to arrive is not the younger one for any host that both carry. -/
def InOrder (d d' : Delivery timeline) : Prop :=
  ∀ x ∈ d.message.items, ∀ x' ∈ d'.message.items, x.hostUID = x'.hostUID → d.moment ≤ d'.moment

/-- A host that a message leaves in the view keeps its version or gets a higher one. -/
def NeverBack (ds : List (Delivery timeline)) : Prop :=
  ∀ before d later, ds = before ++ d :: later → ∀ (hostUID : String) (x x' : HostSnapshot),
    (LiveHosts.after (before.map message)).agents[hostUID]? = some x →
    (LiveHosts.after ((before ++ [d]).map message)).agents[hostUID]? = some x' →
    x.version ≤ x'.version

end Delivery

theorem mem_of_foldl_insert {items : List HostSnapshot}
    {start : Std.ExtTreeMap String HostSnapshot} {hostUID : String} {x : HostSnapshot}
    (h : (items.foldl (fun next item => next.insert item.hostUID item) start)[hostUID]? = some x) :
    (x ∈ items ∧ x.hostUID = hostUID) ∨ start[hostUID]? = some x := by
  induction items generalizing start with
  | nil => exact .inr h
  | cons item items ih =>
    rcases ih h with ⟨hmem, huid⟩ | h
    · exact .inl ⟨List.mem_cons_of_mem _ hmem, huid⟩
    · rw [Std.ExtTreeMap.getElem?_insert] at h
      split_ifs at h with heq
      · cases h
        exact .inl ⟨List.mem_cons_self, by simpa using heq⟩
      · exact .inr h

theorem mem_of_listToHostMap {items : List HostSnapshot} {hostUID : String} {x : HostSnapshot}
    (h : (listToHostMap items)[hostUID]? = some x) : x ∈ items ∧ x.hostUID = hostUID := by
  rcases mem_of_foldl_insert h with h | h
  · exact h
  · simp at h

theorem LiveHosts.shown_of_receive {s : LiveHosts} {m : HostsMessage} {hostUID : String}
    {x : HostSnapshot} (h : (s.receive m).agents[hostUID]? = some x) :
    (x ∈ m.items ∧ x.hostUID = hostUID) ∨ s.agents[hostUID]? = some x := by
  cases m with
  | hosts items => exact .inl (mem_of_listToHostMap h)
  | sync items serverTime => exact .inl (mem_of_listToHostMap h)
  | hostUpsert item serverTime =>
    cases item with
    | none => exact .inr h
    | some item =>
      simp only [receive] at h
      split_ifs at h with hempty
      · exact .inr h
      · have hone : ([item].foldl (fun next item => next.insert item.hostUID item)
            s.agents)[hostUID]? = some x := h
        exact mem_of_foldl_insert hone
  | hostDelete uid serverTime =>
    simp only [receive] at h
    split_ifs at h with hempty
    · exact .inr h
    · rw [Std.ExtTreeMap.getElem?_erase] at h
      split_ifs at h
      exact .inr h

theorem LiveHosts.after_append (messages : List HostsMessage) (m : HostsMessage) :
    after (messages ++ [m]) = (after messages).receive m := List.foldl_append

theorem LiveHosts.mem_of_shown {messages : List HostsMessage} {hostUID : String}
    {x : HostSnapshot} (h : (after messages).agents[hostUID]? = some x) :
    ∃ m ∈ messages, x ∈ m.items ∧ x.hostUID = hostUID := by
  induction messages using List.reverseRecOn with
  | nil => simp [after] at h
  | append_singleton messages m ih =>
    rw [after_append] at h
    rcases shown_of_receive h with hnew | hold
    · exact ⟨m, by simp, hnew⟩
    · obtain ⟨m', hm', hx⟩ := ih hold
      exact ⟨m', by simp [hm'], hx⟩

/-- If no message overtakes an older one about the same host, no version goes back. -/
theorem versions_never_back (timeline : HostTimeline) (ds : List (Delivery timeline))
    (hds : ds.Pairwise Delivery.InOrder) : Delivery.NeverBack ds := by
  intro before d later heq hostUID x x' hx hx'
  subst heq
  rw [List.map_append, List.map_singleton, LiveHosts.after_append] at hx'
  rcases LiveHosts.shown_of_receive hx' with ⟨hnew, huid'⟩ | hold
  · obtain ⟨m, hm, hxm, huid⟩ := LiveHosts.mem_of_shown hx
    obtain ⟨d', hd', rfl⟩ := List.mem_map.mp hm
    have horder : d'.InOrder d := (List.pairwise_append.mp hds).2.2 d' hd' d List.mem_cons_self
    have huids : x.hostUID = x'.hostUID := huid.trans huid'.symm
    exact timeline.version_le _ _ x x' (horder x hxm x' hnew huids) (d'.produced x hxm)
      (d.produced x' hnew) huids
  · rw [hx] at hold
    cases hold
    exact Int64.le_refl _

def twoReports : HostTimeline where
  hosts := fun t => if t = 0 then [{ hostUID := "h1", version := 1 }]
    else [{ hostUID := "h1", version := 2 }]
  version_le := by
    intro t t' x x' hle hx hx' _
    by_cases ht' : t' = 0
    · have ht : t = 0 := by omega
      simp only [ht, ht', if_true, List.mem_singleton] at hx hx'
      rw [hx, hx']
      decide
    · simp only [ht', if_false, List.mem_singleton] at hx'
      by_cases ht : t = 0
      · simp only [ht, if_true, List.mem_singleton] at hx
        rw [hx, hx']
        decide
      · simp only [ht, if_false, List.mem_singleton] at hx
        rw [hx, hx']
        decide

def slowList : Delivery twoReports where
  moment := 0
  message := .hosts [{ hostUID := "h1", version := 1 }]
  produced := by simp [HostsMessage.items, twoReports]

def quickUpsert : Delivery twoReports where
  moment := 1
  message := .hostUpsert (some { hostUID := "h1", version := 2 }) ""
  produced := by simp [HostsMessage.items, twoReports]

theorem versions_never_back_in_order :
    [slowList, quickUpsert].Pairwise Delivery.InOrder ∧
      Delivery.NeverBack [slowList, quickUpsert] := by
  have horder : [slowList, quickUpsert].Pairwise Delivery.InOrder := by
    refine List.pairwise_pair.mpr fun x _ x' _ _ => ?_
    decide
  exact ⟨horder, versions_never_back twoReports _ horder⟩

/-- The push of version 2 arrives first; then the slow list puts version 1 back. -/
theorem slow_list_goes_back : ¬Delivery.NeverBack [quickUpsert, slowList] := by
  intro h
  have hback := h [quickUpsert] slowList [] rfl "h1" { hostUID := "h1", version := 2 }
    { hostUID := "h1", version := 1 } (by simp [LiveHosts.after, LiveHosts.receive, quickUpsert])
    (by simp [LiveHosts.after, LiveHosts.receive, quickUpsert, slowList, listToHostMap])
  exact absurd hback (by decide)

end Gaoming
