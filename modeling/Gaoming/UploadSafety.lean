import Gaoming.UploadProtocol
import Gaoming.HostStoreIdentity

/-!
# Safety of the upload protocol

What holds in every state that an agent process and its handlers can reach. The
agent sends on one stream at a time and reads the answer before it sends again,
so the ack it reads is the answer to its own batch; a handler acknowledges a
batch after its last effect. Each send cycle builds one message and delivers it
at most once, which is why no batch is committed twice.
-/

namespace Gaoming
open Relational Transaction
namespace Upload

/-- The sequence number of a batch counts the cycles of its process, in 64 bits. -/
def Message.Numbered (m : Message) : Prop := m.payload.batchSeq = Int64.ofNat m.cycle

theorem mem_sentOn {s : Upload} {k : ℕ} {m : Message} : m ∈ s.sentOn k ↔ (k, m) ∈ s.sent := by
  simp only [sentOn, List.mem_filterMap]
  constructor
  · rintro ⟨⟨j, m'⟩, hmem, h⟩
    split_ifs at h with hj
    cases h
    exact hj ▸ hmem
  · intro h
    exact ⟨(k, m), h, if_pos rfl⟩

theorem sentOn_eq_nil {s : Upload} {k : ℕ} (h : ∀ x ∈ s.sent, x.1 < k) : s.sentOn k = [] := by
  rw [List.eq_nil_iff_forall_not_mem]
  intro m hm
  exact absurd (h _ (mem_sentOn.mp hm)) (Nat.lt_irrefl k)

theorem commits_cons (a : Act) (history : List Act) :
    commits (a :: history) = commits [a] ++ commits history := by
  rw [← List.singleton_append]
  exact List.filterMap_append

theorem receivedOn_cons (k : ℕ) (a : Act) (history : List Act) :
    receivedOn k (a :: history) = receivedOn k history ++ receivedOn k [a] := by
  rw [← List.singleton_append]
  simp only [receivedOn, List.filterMap_append, List.reverse_append]

theorem ackedOn_cons (k : ℕ) (a : Act) (history : List Act) :
    ackedOn k (a :: history) = ackedOn k history ++ ackedOn k [a] := by
  rw [← List.singleton_append]
  simp only [ackedOn, List.filterMap_append, List.reverse_append]

theorem sentOn_deliver (s : Upload) (k j : ℕ) (m : Message) :
    (s.deliver k m).sentOn j = s.sentOn j ++ if k = j then [m] else [] := by
  simp only [sentOn, deliver, List.filterMap_append, List.filterMap_cons, List.filterMap_nil]
  by_cases h : k = j <;> simp [h]

/-- Cycles grow along the deliveries, on all streams together. -/
def Ordered (sent : List (ℕ × Message)) : Prop :=
  sent.Pairwise fun x y => x.2.cycle < y.2.cycle

theorem Ordered.sentOn {s : Upload} (h : Ordered s.sent) (k : ℕ) :
    (s.sentOn k).Pairwise fun m m' => m.cycle < m'.cycle := by
  refine List.Pairwise.filterMap _ ?_ h
  intro x y hlt m hm m' hm'
  split_ifs at hm hm'
  cases hm
  cases hm'
  exact hlt

theorem Ordered.eq_of_cycle {sent : List (ℕ × Message)} (h : Ordered sent) {x y : ℕ × Message}
    (hx : x ∈ sent) (hy : y ∈ sent) (hcycle : x.2.cycle = y.2.cycle) : x = y := by
  have hnodup : (sent.map (·.2.cycle)).Nodup := by
    rw [List.Nodup, List.pairwise_map]
    exact h.imp Nat.ne_of_lt
  exact List.inj_on_of_nodup_map hnodup hx hy hcycle

/-- The transaction recorded the batch: the status row of the host that the batch leads to, or
of the one that its bootstrap registered, is new and holds the digest, and the snapshot is that
of the host it names. -/
structure Commit.Records (store : Store) (m : Message) (c : Commit) : Prop where
  transacted : (store.reportMetrics c.draws m.request (digestFromMetricBatch m.request)
    c.now).transact c.before = (.ok c.snapshot, c.after)
  status : ∃ hostID row, store.RecordsAt c.before c.after m.request hostID ∧
    c.after.hostStatusCurrent.get? hostID = some row ∧
    (digestFromMetricBatch m.request).toSummaryMetrics.stored store.columns =
      some row.toSummaryMetrics ∧
    row.lastMetricAt = some (timestamptz c.now) ∧
    c.before.hostStatusCurrent.get? hostID ≠ some row
  event : ∃ g ∈ c.after.hosts.rows, zeroOrEq m.request.hostUID g.hostUID = true ∧
    c.snapshot = c.after.snapshotOf g

theorem records_of_transact {store : Store} {m : Message} {d : Draws} {now : Time}
    {db db' : Database} {snapshot : HostSnapshot}
    (h : (store.reportMetrics d m.request (digestFromMetricBatch m.request) now).transact db =
      (.ok snapshot, db')) : Commit.Records store m ⟨d, now, db, snapshot, db'⟩ := by
  have hrun := Tx.run_of_transact h
  obtain ⟨hostID, db₁, row, hhost, hsame, hrow, hstored, hmetric, hnew⟩ :=
    Store.reportMetrics_row hrun
  obtain ⟨-, -, -, -, -, hevent⟩ := Store.reportMetrics_ok hrun
  exact ⟨h, ⟨hostID, row, Store.recordsAt_of_hostForMetric hhost hsame, hrow, hstored, hmetric,
    hnew⟩, hevent⟩

section Served
variable (store : Store)

/-- The transaction of the batch, then the given effects of it, have happened on stream `k`. -/
def Served (k : ℕ) (m : Message) (c : Commit) (done : List MetricEffect) (history : List Act) :
    Prop :=
  c.Records store m ∧
    List.Sublist (done.reverse.map (.performed k) ++ [.committed k m c]) history

def Commit.effects (m : Message) (c : Commit) : List MetricEffect :=
  metricEffects m.request (digestFromMetricBatch m.request) c.now c.snapshot

/-- Before the ack of the batch, its transaction was committed and its effects performed. -/
def Acknowledged (k : ℕ) (m : Message) (history : List Act) : Prop :=
  ∃ early c, .acked k m.payload.batchSeq :: early <:+ history ∧
    Served store k m c (c.effects m) early

def StageSound (k : ℕ) (received : List Message) (acks : List Int64) (history : List Act) :
    Stage → Prop
  | .receiving => acks = received.map (·.payload.batchSeq)
  | .processing m => ∃ before, received = before ++ [m] ∧
      acks = before.map (·.payload.batchSeq) ∧ ∀ m' ∈ commits history, m'.cycle ≠ m.cycle
  | .recorded m rest => ∃ before, received = before ++ [m] ∧
      acks = before.map (·.payload.batchSeq) ∧ ∃ c done,
        done ++ rest = Commit.effects m c ∧ Served store k m c done history
  | .ended => ∃ before, acks = before.map (·.payload.batchSeq) ∧
      (received = before ∨ ∃ m, received = before ++ [m])

structure HandlerSound (k : ℕ) (sent : List Message) (h : Handler) (history : List Act) :
    Prop where
  taken_le : h.taken ≤ sent.length
  received : receivedOn k history = sent.take h.taken
  acked : ackedOn k history = h.acks.map MetricBatchAck.batchSeq
  stage : StageSound store k (sent.take h.taken) (h.acks.map MetricBatchAck.batchSeq) history
    h.stage
  served : ∀ m ∈ sent.take h.acks.length, Acknowledged store k m history

end Served

section Frame
variable {store : Store} {k : ℕ} {m : Message} {c : Commit} {done : List MetricEffect}
  {history : List Act} {sent received : List Message} {h : Handler}
  {acks : List Int64} {stage : Stage}

theorem Served.cons (hs : Served store k m c done history) (a : Act) :
    Served store k m c done (a :: history) :=
  ⟨hs.1, hs.2.cons a⟩

theorem Acknowledged.cons (ha : Acknowledged store k m history) (a : Act) :
    Acknowledged store k m (a :: history) := by
  obtain ⟨early, c, hsuffix, hserved⟩ := ha
  exact ⟨early, c, hsuffix.trans (List.suffix_cons a history), hserved⟩

theorem StageSound.cons (hs : StageSound store k received acks history stage) {a : Act}
    (ha : ∀ m, stage = .processing m → ∀ m' ∈ commits [a], m'.cycle ≠ m.cycle) :
    StageSound store k received acks (a :: history) stage := by
  cases stage with
  | receiving => exact hs
  | processing m =>
    obtain ⟨before, hreceived, hacks, hfresh⟩ := hs
    refine ⟨before, hreceived, hacks, fun m' hm' => ?_⟩
    rw [commits_cons, List.mem_append] at hm'
    rcases hm' with hm' | hm'
    · exact ha m rfl m' hm'
    · exact hfresh m' hm'
  | recorded m rest =>
    obtain ⟨before, hreceived, hacks, c, done, heq, hserved⟩ := hs
    exact ⟨before, hreceived, hacks, c, done, heq, hserved.cons a⟩
  | ended => exact hs

theorem HandlerSound.cons (hs : HandlerSound store k sent h history) {a : Act}
    (hreceived : receivedOn k [a] = []) (hacked : ackedOn k [a] = [])
    (hcommit : ∀ m, h.stage = .processing m → ∀ m' ∈ commits [a], m'.cycle ≠ m.cycle) :
    HandlerSound store k sent h (a :: history) where
  taken_le := hs.taken_le
  received := by rw [receivedOn_cons, hreceived, List.append_nil, hs.received]
  acked := by rw [ackedOn_cons, hacked, List.append_nil, hs.acked]
  stage := hs.stage.cons hcommit
  served := fun m hm => (hs.served m hm).cons a

theorem HandlerSound.acks_le (hs : HandlerSound store k sent h history) :
    h.acks.length ≤ h.taken := by
  have hlength : (sent.take h.taken).length = h.taken := by
    rw [List.length_take, Nat.min_eq_left hs.taken_le]
  have hstage := hs.stage
  have hcount : ∀ before : List Message,
      h.acks.map MetricBatchAck.batchSeq = before.map (·.payload.batchSeq) →
        h.acks.length = before.length := fun before heq => by
    simpa using congrArg List.length heq
  cases hst : h.stage with
  | receiving =>
    rw [hst] at hstage
    have := hcount _ hstage
    omega
  | processing m =>
    rw [hst] at hstage
    obtain ⟨before, hreceived, hacks, -⟩ := hstage
    have := hcount _ hacks
    rw [hreceived, List.length_append] at hlength
    omega
  | recorded m rest =>
    rw [hst] at hstage
    obtain ⟨before, hreceived, hacks, -⟩ := hstage
    have := hcount _ hacks
    rw [hreceived, List.length_append] at hlength
    omega
  | ended =>
    rw [hst] at hstage
    obtain ⟨before, hacks, hreceived⟩ := hstage
    have := hcount _ hacks
    rcases hreceived with hreceived | ⟨m, hreceived⟩
    · rw [hreceived] at hlength
      omega
    · rw [hreceived, List.length_append] at hlength
      omega

theorem HandlerSound.deliver (hs : HandlerSound store k sent h history) (more : List Message) :
    HandlerSound store k (sent ++ more) h history := by
  have htake : (sent ++ more).take h.taken = sent.take h.taken :=
    List.take_append_of_le_length hs.taken_le
  have hacks : (sent ++ more).take h.acks.length = sent.take h.acks.length :=
    List.take_append_of_le_length (hs.acks_le.trans hs.taken_le)
  constructor
  · rw [List.length_append]
    exact hs.taken_le.trans (Nat.le_add_right _ _)
  · rw [htake]
    exact hs.received
  · exact hs.acked
  · rw [htake]
    exact hs.stage
  · rw [hacks]
    exact hs.served

end Frame

/-- The batch that the agent is about to send is newer than all it has sent. -/
def Pending (s : Upload) (m : Message) : Prop :=
  m.cycle = s.cycles ∧ m.Numbered ∧ ∀ x ∈ s.sent, x.2.cycle < s.cycles

/-- Between two sends the agent has read an ack for every message of its stream. -/
def PhaseSound (s : Upload) : Phase → Prop
  | .idle | .stopped =>
    ∀ k, s.metricSink = some k → k < s.opened ∧ s.read k = (s.sentOn k).length
  | .opening m => s.metricSink = none ∧ s.Pending m
  | .sending k m => s.metricSink = some k ∧ k < s.opened ∧ s.read k = (s.sentOn k).length ∧
      s.Pending m
  | .awaiting k m => s.metricSink = some k ∧ k < s.opened ∧
      ∃ before, s.sentOn k = before ++ [m] ∧ s.read k = before.length

structure Sound (store : Store) (s : Upload) : Prop where
  seq : s.agent.metricSeq = Int64.ofNat s.cycles
  ordered : Ordered s.sent
  sent : ∀ x ∈ s.sent, x.1 < s.opened ∧ x.2.cycle ≤ s.cycles ∧ x.2.Numbered
  unread : ∀ k, s.opened ≤ k → s.read k = 0
  phase : s.PhaseSound s.phase
  handler : ∀ k, HandlerSound store k (s.sentOn k) (s.handler k) s.history
  once : ((commits s.history).map Message.cycle).Nodup
  committed : ∀ m ∈ commits s.history, ∃ k, m ∈ receivedOn k s.history
  returned : ∀ m past, .returned m true :: past <:+ s.history → ∃ k, Acknowledged store k m past

section Steps
variable {u : Unicode} {store : Store} {s : Upload} {k : ℕ} {m : Message}

theorem sentOn_of_opened_le (h : s.Sound store) (hk : s.opened ≤ k) : s.sentOn k = [] :=
  sentOn_eq_nil fun x hx => (h.sent x hx).1.trans_le hk

theorem mem_receivedOn_sent (h : s.Sound store) (hm : m ∈ receivedOn k s.history) :
    (k, m) ∈ s.sent := by
  rw [(h.handler k).received] at hm
  exact mem_sentOn.mp (List.mem_of_mem_take hm)

theorem receivedOn_cons_subset {a : Act} {history : List Act} (hm : m ∈ receivedOn k history) :
    m ∈ receivedOn k (a :: history) := by
  rw [receivedOn_cons]
  exact List.mem_append_left _ hm

/-- A batch in processing and one delivered on another stream are of different cycles. -/
theorem Sound.cycle_ne_of_processing (hs : s.Sound store) {j : ℕ} (hj : j ≠ k)
    (hstage : (s.handler j).stage = .processing m) {m' : Message}
    (hm' : m' ∈ receivedOn k s.history) : m'.cycle ≠ m.cycle := by
  intro heq
  have hsound := (hs.handler j).stage
  rw [hstage] at hsound
  obtain ⟨before, htaken, -⟩ := hsound
  have hm : (j, m) ∈ s.sent := by
    apply mem_receivedOn_sent hs
    rw [(hs.handler j).received, htaken]
    simp
  exact hj (congrArg Prod.fst (hs.ordered.eq_of_cycle hm (mem_receivedOn_sent hs hm') heq.symm))

theorem Sound.serve (hs : s.Sound store) {h : Handler} {a : Act} (db : Database)
    (hhandler : HandlerSound store k (s.sentOn k) h (a :: s.history))
    (hreceived : ∀ j, j ≠ k → receivedOn j [a] = []) (hacked : ∀ j, j ≠ k → ackedOn j [a] = [])
    (hcommit : ∀ m ∈ commits [a], m ∈ receivedOn k s.history ∧
      ∀ m' ∈ commits s.history, m'.cycle ≠ m.cycle)
    (hreturned : ∀ m ok, a ≠ .returned m ok) :
    ({ (s.setHandler k h).record a with db := db } : Upload).Sound store where
  seq := hs.seq
  ordered := hs.ordered
  sent := hs.sent
  unread := hs.unread
  phase := hs.phase
  handler := by
    intro j
    change HandlerSound store j (s.sentOn j) (Function.update s.handler k h j) (a :: s.history)
    by_cases hj : j = k
    · subst hj
      rw [Function.update_self]
      exact hhandler
    · rw [Function.update_of_ne hj]
      exact (hs.handler j).cons (hreceived j hj) (hacked j hj) fun m hstage m' hm' =>
        hs.cycle_ne_of_processing hj hstage (hcommit m' hm').1
  once := by
    change ((commits (a :: s.history)).map Message.cycle).Nodup
    rw [commits_cons, List.map_append, List.nodup_append]
    refine ⟨?_, hs.once, ?_⟩
    · cases a with
      | committed => simp [commits]
      | _ => simp [commits]
    · intro c hc c' hc' heq
      obtain ⟨m, hm, rfl⟩ := List.mem_map.mp hc
      obtain ⟨m', hm', rfl⟩ := List.mem_map.mp hc'
      exact (hcommit m hm).2 m' hm' heq.symm
  committed := by
    intro m hm
    change m ∈ commits (a :: s.history) at hm
    rw [commits_cons, List.mem_append] at hm
    rcases hm with hm | hm
    · exact ⟨k, receivedOn_cons_subset (hcommit m hm).1⟩
    · obtain ⟨j, hj⟩ := hs.committed m hm
      exact ⟨j, receivedOn_cons_subset hj⟩
  returned := by
    intro m past hpast
    rcases List.suffix_cons_iff.mp hpast with heq | hpast
    · exact absurd (List.cons.inj heq).1.symm (hreturned m true)
    · exact hs.returned m past hpast

theorem Sound.take (hs : s.Sound store) (k : ℕ) : (s.take k).Sound store := by
  unfold Upload.take
  split
  · rename_i m hstage hnext
    have hk := hs.handler k
    have hlt : (s.handler k).taken < (s.sentOn k).length := (List.getElem?_eq_some_iff.mp hnext).1
    have htake : (s.sentOn k).take ((s.handler k).taken + 1) =
        (s.sentOn k).take (s.handler k).taken ++ [m] := by
      rw [List.take_add_one, hnext]
      rfl
    have hstage' := hk.stage
    rw [hstage] at hstage'
    refine hs.serve s.db ⟨hlt, ?_, hk.acked, ?_, fun m' hm' => (hk.served m' hm').cons _⟩
      ?_ (fun j _ => rfl) (by simp [commits]) (by simp)
    · rw [htake, ← hk.received]
      simp [receivedOn]
    · refine ⟨_, htake, hstage', fun m' hm' heq => ?_⟩
      -- A committed batch of this cycle would stand earlier in the queue of this very stream.
      obtain ⟨j, hj⟩ := hs.committed m' hm'
      have hsent : (k, m) ∈ s.sent := mem_sentOn.mp (List.mem_of_getElem? hnext)
      have hpair := hs.ordered.eq_of_cycle (mem_receivedOn_sent hs hj) hsent heq
      obtain ⟨rfl, rfl⟩ := Prod.mk.inj hpair
      rw [(hs.handler j).received] at hj
      have hordered := (hs.ordered.sentOn j).sublist (List.take_sublist ((s.handler j).taken + 1) _)
      rw [htake, List.pairwise_append] at hordered
      exact Nat.lt_irrefl _ (hordered.2.2 m' hj m' (by simp))
    · intro j hj
      simp [receivedOn, Ne.symm hj]
  · exact hs

theorem StageSound.ended {received : List Message} {acks : List Int64} {history : List Act}
    {stage : Stage} (hs : StageSound store k received acks history stage) :
    StageSound store k received acks history .ended := by
  cases stage with
  | receiving => exact ⟨received, hs, .inl rfl⟩
  | processing m =>
    obtain ⟨before, hreceived, hacks, -⟩ := hs
    exact ⟨before, hacks, .inr ⟨m, hreceived⟩⟩
  | recorded m rest =>
    obtain ⟨before, hreceived, hacks, -⟩ := hs
    exact ⟨before, hacks, .inr ⟨m, hreceived⟩⟩
  | ended => exact hs

theorem Sound.endHandler (hs : s.Sound store) (k : ℕ) : (s.endHandler k).Sound store := by
  have hk := hs.handler k
  exact hs.serve s.db
    ⟨hk.taken_le, hk.received, hk.acked, hk.stage.ended, fun m hm => (hk.served m hm).cons _⟩
    (fun j _ => rfl) (fun j _ => rfl) (by simp [commits]) (by simp)

theorem Sound.process (hs : s.Sound store) (k : ℕ) (d : Draws) (now : Time) :
    (s.process u store k d now).Sound store := by
  unfold Upload.process
  cases hst : (s.handler k).stage with
  | processing m =>
    have hk := hs.handler k
    have hstage := hk.stage
    rw [hst] at hstage
    obtain ⟨before, hreceived, hacks, hfresh⟩ := hstage
    dsimp only
    split
    · exact hs.endHandler k
    · split
      · exact hs.endHandler k
      · rename_i snapshot db htx
        refine hs.serve _ ⟨hk.taken_le, hk.received, hk.acked, ?_,
          fun m hm => (hk.served m hm).cons _⟩ (fun j _ => rfl) (fun j _ => rfl) ?_ (by simp)
        · refine ⟨before, hreceived, hacks, ⟨d, now, s.db, snapshot, db⟩, [], rfl,
            records_of_transact htx, ?_⟩
          exact List.Sublist.cons_cons _ (List.nil_sublist _)
        · intro m' hm'
          have hm : m' = m := by simpa [commits] using hm'
          subst hm
          refine ⟨?_, hfresh⟩
          rw [hk.received, hreceived]
          simp
  | receiving => exact hs
  | recorded m rest => exact hs
  | ended => exact hs

theorem Sound.perform (hs : s.Sound store) (k : ℕ) : (s.perform k).Sound store := by
  unfold Upload.perform
  split
  · rename_i m effect rest hst
    have hk := hs.handler k
    have hstage := hk.stage
    rw [hst] at hstage
    obtain ⟨before, hreceived, hacks, c, done, heq, hrecords, hserved⟩ := hstage
    refine hs.serve s.db ⟨hk.taken_le, hk.received, hk.acked, ?_,
      fun m hm => (hk.served m hm).cons _⟩ (fun j _ => rfl) (fun j _ => rfl) (by simp [commits])
      (by simp)
    refine ⟨before, hreceived, hacks, c, done ++ [effect], by simpa using heq, hrecords, ?_⟩
    rw [List.reverse_append]
    exact hserved.cons_cons _
  · exact hs

theorem Sound.sendAck (hs : s.Sound store) {stage : Stage}
    (hst : (s.handler k).stage = .recorded m []) (hnext : stage = .receiving ∨ stage = .ended) :
    (s.sendAck k m stage).Sound store := by
  have hk := hs.handler k
  have hstage := hk.stage
  rw [hst] at hstage
  obtain ⟨before, hreceived, hacks, c, done, heq, hserved⟩ := hstage
  rw [List.append_nil] at heq
  subst heq
  have hseqs : (s.handler k).acks.map MetricBatchAck.batchSeq ++ [m.payload.batchSeq] =
      ((s.sentOn k).take (s.handler k).taken).map (·.payload.batchSeq) := by
    rw [hacks, hreceived, List.map_append]
    rfl
  have hcount : (s.handler k).acks.length = before.length := by
    simpa using congrArg List.length hacks
  have htaken : (s.sentOn k).take ((s.handler k).acks.length + 1) = before ++ [m] := by
    have hlength := congrArg List.length hreceived
    rw [List.length_take, Nat.min_eq_left hk.taken_le, List.length_append] at hlength
    rw [← hreceived, hcount]
    exact congrArg (fun n => (s.sentOn k).take n) hlength.symm
  refine hs.serve s.db ⟨hk.taken_le, hk.received, ?_, ?_, ?_⟩ (fun j _ => rfl)
    (fun j hj => by simp [ackedOn, Ne.symm hj]) (by simp [commits]) (by simp)
  · rw [List.map_append, ← hk.acked]
    simp [ackedOn]
  · have hreceiving : StageSound store k ((s.sentOn k).take (s.handler k).taken)
        (((s.handler k).acks ++ [(⟨0, "metrics accepted", m.request.batchSeq⟩ :
          MetricBatchAck)]).map MetricBatchAck.batchSeq)
        (.acked k m.request.batchSeq :: s.history) .receiving := by
      rw [StageSound, List.map_append]
      exact hseqs
    rcases hnext with rfl | rfl
    · exact hreceiving
    · exact hreceiving.ended
  · intro m' hm'
    rw [List.length_append, List.length_singleton, htaken, List.mem_append] at hm'
    rcases hm' with hm' | hm'
    · refine (hk.served m' ?_).cons _
      have htake := congrArg (List.take before.length) htaken
      rw [List.take_take, List.take_left, hcount, Nat.min_eq_left (Nat.le_succ _)] at htake
      rw [hcount, htake]
      exact hm'
    · obtain rfl := List.mem_singleton.mp hm'
      exact ⟨s.history, c, List.suffix_rfl, hserved⟩

theorem Sound.enter (hs : s.Sound store) {phase : Phase} (hphase : s.PhaseSound phase) :
    ({ s with phase := phase } : Upload).Sound store :=
  { hs with phase := hphase }

theorem Sound.recordReturned (hs : s.Sound store) (m : Message) {ok : Bool}
    (hok : ok = true → ∃ k, Acknowledged store k m s.history) :
    (s.record (.returned m ok)).Sound store :=
  { hs with
    phase := hs.phase
    handler := fun j => (hs.handler j).cons rfl rfl (by simp [commits])
    committed := fun m' hm' => by
      obtain ⟨j, hj⟩ := hs.committed m' hm'
      exact ⟨j, receivedOn_cons_subset hj⟩
    returned := fun m' past hpast => by
      rcases List.suffix_cons_iff.mp hpast with heq | hpast
      · obtain ⟨hact, rfl⟩ := List.cons.inj heq
        cases hact
        exact hok rfl
      · exact hs.returned m' past hpast }

theorem Sound.finish (hs : s.Sound store) {ok fatal : Bool} (hidle : s.PhaseSound .idle)
    (hok : ok = true → ∃ k, Acknowledged store k m s.history) :
    (s.finish m ok fatal).Sound store := by
  refine (hs.recordReturned m hok).enter ?_
  cases fatal <;> exact hidle

theorem Sound.giveUp (hs : s.Sound store) (m : Message) (fatal : Bool) :
    (s.resetMetricStream.finish m false fatal).Sound store := by
  have hreset : ({ s with metricSink := none, phase := .idle } : Upload).Sound store :=
    { hs with phase := by simp [PhaseSound] }
  exact hreset.finish (by simp [PhaseSound]) (by simp)

theorem Sound.cycle (hs : s.Sound store) (now : Time) (uptime : Float) (metrics : SystemMetrics) :
    (s.cycle now uptime metrics).Sound store := by
  have hphase := hs.phase
  unfold Upload.cycle
  split
  · rename_i hidle
    rw [hidle] at hphase
    have hseq : s.agent.metricSeq + 1 = Int64.ofNat (s.cycles + 1) := by
      rw [hs.seq, Int64.ofNat_add]
      rfl
    have hlt : ∀ x ∈ s.sent, x.2.cycle < s.cycles + 1 := fun x hx =>
      Nat.lt_succ_of_le (hs.sent x hx).2.1
    refine { hs with seq := hseq, sent := ?_, phase := ?_ }
    · intro x hx
      obtain ⟨hopened, hle, hnumbered⟩ := hs.sent x hx
      exact ⟨hopened, Nat.le_succ_of_le hle, hnumbered⟩
    · cases hsink : s.metricSink with
      | none => exact ⟨rfl, rfl, hseq, hlt⟩
      | some k =>
        obtain ⟨hopened, hread⟩ := hphase k hsink
        exact ⟨rfl, hopened, hread, rfl, hseq, hlt⟩
  · exact hs

theorem Sound.openStream (hs : s.Sound store) : s.openStream.Sound store := by
  have hphase := hs.phase
  unfold Upload.openStream
  split
  · rename_i m hopening
    rw [hopening] at hphase
    refine { hs with sent := ?_, unread := ?_, phase := ?_ }
    · intro x hx
      exact ⟨Nat.lt_succ_of_lt (hs.sent x hx).1, (hs.sent x hx).2⟩
    · intro k hk
      exact hs.unread k (Nat.le_of_succ_le hk)
    · refine ⟨rfl, Nat.lt_succ_self _, ?_, hphase.2⟩
      have hempty := sentOn_of_opened_le hs (le_refl s.opened)
      change s.read s.opened = (s.sentOn s.opened).length
      rw [hempty, hs.unread _ (le_refl _)]
      rfl
  · exact hs

theorem Sound.openFails (hs : s.Sound store) (fatal : Bool) :
    (s.openFails fatal).Sound store := by
  have hphase := hs.phase
  unfold Upload.openFails
  split
  · rename_i m hopening
    rw [hopening] at hphase
    exact hs.finish (by simp [PhaseSound, hphase.1]) (by simp)
  · exact hs

theorem Sound.deliver (hs : s.Sound store) (hsending : s.phase = .sending k m) :
    ({ s.deliver k m with phase := .awaiting k m } : Upload).Sound store := by
  have hphase := hs.phase
  rw [hsending] at hphase
  obtain ⟨hsink, hopened, hread, hcycle, hnumbered, hlt⟩ := hphase
  refine { hs with ordered := ?_, sent := ?_, phase := ?_, handler := ?_ }
  · refine List.pairwise_append.mpr ⟨hs.ordered, List.pairwise_singleton _ _, ?_⟩
    intro x hx y hy
    obtain rfl := List.mem_singleton.mp hy
    exact (hlt x hx).trans_eq hcycle.symm
  · intro x hx
    rcases List.mem_append.mp hx with hx | hx
    · exact hs.sent x hx
    · obtain rfl := List.mem_singleton.mp hx
      exact ⟨hopened, hcycle.le, hnumbered⟩
  · refine ⟨hsink, hopened, s.sentOn k, ?_, hread⟩
    exact (sentOn_deliver s k k m).trans (by rw [if_pos rfl])
  · intro j
    have hsent := sentOn_deliver s k j m
    change HandlerSound store j ((s.deliver k m).sentOn j) (s.handler j) s.history
    rw [hsent]
    exact (hs.handler j).deliver _

theorem Sound.send (hs : s.Sound store) : s.send.Sound store := by
  unfold Upload.send
  split
  · exact hs.deliver (by assumption)
  · exact hs

theorem Sound.sendFails (hs : s.Sound store) (delivered fatal : Bool) :
    (s.sendFails delivered fatal).Sound store := by
  unfold Upload.sendFails
  split
  · rename_i k m hsending
    cases delivered with
    | true => exact (hs.deliver hsending).giveUp m fatal
    | false => exact hs.giveUp m fatal
  · exact hs

theorem Sound.recvFails (hs : s.Sound store) (fatal : Bool) :
    (s.recvFails fatal).Sound store := by
  unfold Upload.recvFails
  split
  · exact hs.giveUp _ fatal
  · exact hs

theorem Sound.acknowledged (hs : s.Sound store) (hawaiting : s.phase = .awaiting k m)
    (hack : s.read k < (s.handler k).acks.length) : Acknowledged store k m s.history := by
  have hphase := hs.phase
  rw [hawaiting] at hphase
  obtain ⟨-, -, before, hsent, hread⟩ := hphase
  have hk := hs.handler k
  refine hk.served m ?_
  rw [List.take_of_length_le, hsent]
  · simp
  · rw [hsent, List.length_append, List.length_singleton]
    omega

theorem Sound.recv (hs : s.Sound store) : s.recv.Sound store := by
  unfold Upload.recv
  split
  · rename_i k m hawaiting
    split
    · exact hs
    · rename_i ack hack
      have hlt : s.read k < (s.handler k).acks.length := (List.getElem?_eq_some_iff.mp hack).1
      have hacknowledged := hs.acknowledged hawaiting hlt
      have hphase := hs.phase
      rw [hawaiting] at hphase
      obtain ⟨hsink, hopened, before, hsent, hread⟩ := hphase
      have hidle : ({ s with read := Function.update s.read k (s.read k + 1) } :
          Upload).PhaseSound .idle := by
        intro j hj
        obtain rfl : k = j := Option.some.inj (hsink.symm.trans hj)
        refine ⟨hopened, ?_⟩
        change Function.update s.read k (s.read k + 1) k = (s.sentOn k).length
        rw [Function.update_self, hsent, hread, List.length_append, List.length_singleton]
      have hread' : ({ s with
          read := Function.update s.read k (s.read k + 1), phase := .idle } :
            Upload).Sound store := by
        refine { hs with phase := hidle, unread := ?_ }
        intro j hj
        change Function.update s.read k (s.read k + 1) j = 0
        rw [Function.update_of_ne (Nat.ne_of_gt (hopened.trans_le hj))]
        exact hs.unread j hj
      dsimp only
      split_ifs
      · exact hread'.finish hidle (by simp)
      · exact hread'.finish hidle (by simp)
      · exact hread'.finish hidle fun _ => ⟨k, hacknowledged⟩
  · exact hs

theorem Sound.step (hs : s.Sound store) (e : Step) : (s.step u store e).Sound store := by
  cases e with
  | env db => exact { hs with phase := hs.phase }
  | cycle now uptime metrics => exact hs.cycle now uptime metrics
  | openStream => exact hs.openStream
  | openFails fatal => exact hs.openFails fatal
  | send => exact hs.send
  | sendFails delivered fatal => exact hs.sendFails delivered fatal
  | recv => exact hs.recv
  | recvFails fatal => exact hs.recvFails fatal
  | take k => exact hs.take k
  | process k d now => exact hs.process k d now
  | perform k => exact hs.perform k
  | ack k =>
    simp only [Upload.step, Upload.ack]
    split
    · exact hs.sendAck (by assumption) (.inl rfl)
    · exact hs
  | ackFails k delivered =>
    simp only [Upload.step, Upload.ackFails]
    split
    · split_ifs
      · exact hs.sendAck (by assumption) (.inr rfl)
      · exact hs.endHandler k
    · exact hs
  | handlerFails k =>
    simp only [Upload.step, Upload.handlerFails]
    split
    · exact hs
    · exact hs.endHandler k

theorem Sound.run (hs : s.Sound store) (steps : List Step) :
    (s.run u store steps).Sound store := by
  induction steps generalizing s with
  | nil => exact hs
  | cons e steps ih => exact ih (hs.step e)

/-- A step adds one act to the history, or none. A commit takes the database from the one it
was made on to the one it left. -/
inductive Adds (s t : Upload) : Prop
  | nothing (h : t.history = s.history)
  | act (a : Act) (h : t.history = a :: s.history) (hact : commits [a] = [])
  | commit (k : ℕ) (m : Message) (c : Commit) (h : t.history = .committed k m c :: s.history)
      (hbefore : s.db = c.before) (hafter : t.db = c.after)

theorem adds_finish {t : Upload} (h : t.history = s.history) (m : Message) (ok fatal : Bool) :
    Adds s (t.finish m ok fatal) :=
  .act (.returned m ok) (congrArg (List.cons _) h) rfl

theorem adds_endHandler (s : Upload) (k : ℕ) : Adds s (s.endHandler k) := .act (.ended k) rfl rfl

theorem adds_recv (s : Upload) : Adds s s.recv := by
  unfold Upload.recv
  split
  · split
    · exact .nothing rfl
    · dsimp only
      split_ifs
      · exact adds_finish (by rfl) _ _ _
      · exact adds_finish (by rfl) _ _ _
      · exact adds_finish (by rfl) _ _ _
  · exact .nothing rfl

theorem adds_process (k : ℕ) (d : Draws) (now : Time) : Adds s (s.process u store k d now) := by
  unfold Upload.process
  split
  · rename_i m _
    split
    · exact adds_endHandler s k
    · dsimp only
      split
      · exact adds_endHandler s k
      · rename_i snapshot db _
        exact .commit k m ⟨d, now, s.db, snapshot, db⟩ rfl rfl rfl
  · exact .nothing rfl

theorem adds_step (e : Step) : Adds s (s.step u store e) := by
  cases e with
  | env db => exact .nothing rfl
  | recv => exact adds_recv s
  | process k d now => exact adds_process k d now
  | cycle now uptime metrics =>
    simp only [Upload.step, Upload.cycle]
    split
    · exact .nothing rfl
    · exact .nothing rfl
  | openStream =>
    simp only [Upload.step, Upload.openStream]
    split
    · exact .nothing rfl
    · exact .nothing rfl
  | openFails fatal =>
    simp only [Upload.step, Upload.openFails]
    split
    · exact adds_finish (by rfl) _ _ _
    · exact .nothing rfl
  | send =>
    simp only [Upload.step, Upload.send]
    split
    · exact .nothing rfl
    · exact .nothing rfl
  | sendFails delivered fatal =>
    simp only [Upload.step, Upload.sendFails]
    split
    · split_ifs
      · exact adds_finish (by rfl) _ _ _
      · exact adds_finish (by rfl) _ _ _
    · exact .nothing rfl
  | recvFails fatal =>
    simp only [Upload.step, Upload.recvFails]
    split
    · exact adds_finish (by rfl) _ _ _
    · exact .nothing rfl
  | take k =>
    simp only [Upload.step, Upload.take]
    split
    · exact .act _ rfl rfl
    · exact .nothing rfl
  | perform k =>
    simp only [Upload.step, Upload.perform]
    split
    · exact .act _ rfl rfl
    · exact .nothing rfl
  | ack k =>
    simp only [Upload.step, Upload.ack]
    split
    · exact .act _ rfl rfl
    · exact .nothing rfl
  | ackFails k delivered =>
    simp only [Upload.step, Upload.ackFails]
    split
    · split_ifs
      · exact .act _ rfl rfl
      · exact adds_endHandler s k
    · exact .nothing rfl
  | handlerFails k =>
    simp only [Upload.step, Upload.handlerFails]
    split
    · exact .nothing rfl
    · exact adds_endHandler s k

/-- A commit in the history is a step of the run. -/
theorem committed_of_run (hs : s.history = []) {steps : List Step} {c : Commit} {past : List Act}
    (h : .committed k m c :: past <:+ (s.run u store steps).history) :
    ∃ before e, before ++ [e] <+: steps ∧ (s.run u store before).history = past ∧
      (s.run u store before).db = c.before ∧ (s.run u store (before ++ [e])).db = c.after := by
  induction steps using List.reverseRecOn with
  | nil =>
    change _ <:+ s.history at h
    rw [hs] at h
    cases List.suffix_nil.mp h
  | append_singleton steps e ih =>
    have hrun : s.run u store (steps ++ [e]) = (s.run u store steps).step u store e :=
      List.foldl_append
    -- The commit is what the last step added, or one of the acts before it.
    have hearlier (h : .committed k m c :: past <:+ (s.run u store steps).history) :
        ∃ before e', before ++ [e'] <+: steps ++ [e] ∧ (s.run u store before).history = past ∧
          (s.run u store before).db = c.before ∧
          (s.run u store (before ++ [e'])).db = c.after := by
      obtain ⟨before, e', hinitial, hcommit⟩ := ih h
      exact ⟨before, e', hinitial.trans (List.prefix_append steps [e]), hcommit⟩
    rw [hrun] at h
    have hadds : Adds (s.run u store steps) ((s.run u store steps).step u store e) := adds_step e
    cases hadds with
    | nothing hsame => exact hearlier (hsame ▸ h)
    | act a hadds hact =>
      rw [hadds] at h
      rcases List.suffix_cons_iff.mp h with heq | h
      · obtain ⟨rfl, -⟩ := List.cons.inj heq
        cases hact
      · exact hearlier h
    | commit k' m' c' hadds hbefore hafter =>
      rw [hadds] at h
      rcases List.suffix_cons_iff.mp h with heq | h
      · obtain ⟨hcommit, rfl⟩ := List.cons.inj heq
        cases hcommit
        exact ⟨steps, e, List.prefix_rfl, rfl, hbefore, hrun ▸ hafter⟩
      · exact hearlier h

end Steps

def start (agent : Agent) (db : Database) : Upload := { agent := agent, db := db }

theorem sound_start {store : Store} (host : HostIdentity) (agentID : String) (bootTime : Time)
    (db : Database) : (start (.new host agentID bootTime) db).Sound store where
  seq := rfl
  ordered := List.Pairwise.nil
  sent := by simp [start]
  unread := fun _ _ => rfl
  phase := by simp [start, PhaseSound]
  handler := fun k => ⟨Nat.zero_le _, rfl, rfl, rfl, by simp [start]⟩
  once := List.nodup_nil
  committed := by simp [start, commits]
  returned := fun m past hpast => by cases List.suffix_nil.mp hpast

theorem Sound.numbered {store : Store} {s : Upload} (hs : s.Sound store) {m : Message}
    (hm : m ∈ commits s.history) : m.Numbered := by
  obtain ⟨k, hk⟩ := hs.committed m hm
  exact (hs.sent _ (mem_receivedOn_sent hs hk)).2.2

theorem mod_of_ofNat_eq {a b : ℕ} (h : Int64.ofNat a = Int64.ofNat b) : a ≡ b [MOD 2 ^ 64] := by
  have hbits := congrArg (fun x => x.toBitVec.toNat) h
  simpa [Nat.ModEq] using hbits

end Upload

open Upload in
/-- For every run of an agent process with its streams, their handlers and any failures: before
the ack of a batch whose `pushMetrics` returned `nil`, a transaction recorded that batch, its
sixteen points were appended in one call, its snapshot was saved and the snapshot of that
transaction was published; every commit is a step that takes the database from the one the
transaction ran on to the one it left; every cycle is committed at most once, and two commits
with one sequence number lie a multiple of `2 ^ 64` cycles apart; and a stream acknowledges what
it has received, in order, all of it or all but the last. -/
theorem upload_protocol_safe (u : Unicode) (store : Store) (host : HostIdentity)
    (agentID : String) (bootTime : Time) (db : Database) (steps : List Upload.Step) :
    let run := (Upload.start (.new host agentID bootTime) db).run u store
    let history := (run steps).history
    (∀ m past, .returned m true :: past <:+ history → ∃ k c early,
      .acked k m.payload.batchSeq :: early <:+ past ∧ Commit.Records store m c ∧
      List.Sublist
        [.performed k (.publishHostUpsert c.snapshot),
          .performed k (.saveMetricSnapshot m.request.hostUID {
            collectedAt := if Time.isZero m.request.collectedAt then c.now
              else m.request.collectedAt
            points := m.request.points, collectors := m.request.collectors }),
          .performed k (.appendHeartbeatMetrics m.request.hostUID c.now
            (digestFromMetricBatch m.request)),
          .committed k m c] early) ∧
    (∀ k m c past, .committed k m c :: past <:+ history → ∃ before e, before ++ [e] <+: steps ∧
      (run before).history = past ∧ (run before).db = c.before ∧
      (run (before ++ [e])).db = c.after) ∧
    ((commits history).map Message.cycle).Nodup ∧
    (∀ m ∈ commits history, ∀ m' ∈ commits history,
      m.payload.batchSeq = m'.payload.batchSeq → m.cycle ≡ m'.cycle [MOD 2 ^ 64]) ∧
    ∀ k, ∃ before : List Message, ackedOn k history = before.map (·.payload.batchSeq) ∧
      (receivedOn k history = before ∨ ∃ m, receivedOn k history = before ++ [m]) := by
  intro run history
  have hs : Upload.Sound store (run steps) := (sound_start host agentID bootTime db).run steps
  refine ⟨?_, fun k m c past => committed_of_run rfl, hs.once, ?_, ?_⟩
  · intro m past hpast
    obtain ⟨k, early, c, hacked, hrecords, hserved⟩ := hs.returned m past hpast
    exact ⟨k, c, early, hacked, hrecords, hserved⟩
  · intro m hm m' hm' heq
    have hcycles := (hs.numbered hm).symm.trans (heq.trans (hs.numbered hm'))
    exact mod_of_ofNat_eq hcycles
  · intro k
    have hk := hs.handler k
    rw [hk.acked, hk.received]
    exact hk.stage.ended

namespace Upload

def asciiLetters : Unicode := ⟨Char.isAlpha, Char.isDigit⟩

def acmeAgent : Agent := .new { hostUID := "h1", tenantCode := "acme" } "a1" 0

/-- Between two cycles, without a stream, and with no trace of the streams to come. -/
structure Rested (agent : Agent) (s : Upload) : Prop where
  agent : s.agent = agent
  phase : s.phase = .idle
  sink : s.metricSink = none
  handler : ∀ k, s.opened ≤ k → s.handler k = {}
  sent : ∀ x ∈ s.sent, x.1 < s.opened

theorem run_append {u : Unicode} {store : Store} {s : Upload} (as bs : List Step) :
    s.run u store (as ++ bs) = (s.run u store as).run u store bs := List.foldl_append

/-- A cycle that cannot open a stream. -/
def failedCycle : List Step := [.cycle 2000 1 {}, .openFails false]

theorem Rested.failedCycle {a : Agent} {s : Upload} (h : s.Rested a) (u : Unicode)
    (store : Store) :
    (s.run u store failedCycle).Rested { a with metricSeq := a.metricSeq + 1 } ∧
      (s.run u store Upload.failedCycle).opened = s.opened ∧
      commits (s.run u store Upload.failedCycle).history = commits s.history := by
  have hrun : s.run u store Upload.failedCycle =
      { s with
        agent := { a with metricSeq := a.metricSeq + 1 }, cycles := s.cycles + 1
        history := .returned ⟨s.cycles + 1, (a.sendCycle 2000 1 {}).2⟩ false :: s.history } := by
    obtain ⟨agent, cycles, sink, phase, opened, sent, handler, read, db, history⟩ := s
    obtain ⟨rfl, rfl, rfl, -, -⟩ := h
    rfl
  rw [hrun]
  exact ⟨⟨rfl, h.phase, h.sink, h.handler, h.sent⟩, rfl, rfl⟩

theorem Rested.failedCycles {a : Agent} {s : Upload} (h : s.Rested a) (u : Unicode)
    (store : Store) (n : ℕ) :
    let t := s.run u store (List.replicate n Upload.failedCycle).flatten
    t.Rested { a with metricSeq := a.metricSeq + Int64.ofNat n } ∧ t.opened = s.opened ∧
      commits t.history = commits s.history := by
  induction n generalizing a s with
  | zero =>
    have hseq : a.metricSeq + Int64.ofNat 0 = a.metricSeq := by
      simp
    rw [hseq]
    exact ⟨h, rfl, rfl⟩
  | succ n ih =>
    obtain ⟨hnext, hopened, hcommits⟩ := h.failedCycle u store
    obtain ⟨hlast, hopened', hcommits'⟩ := ih hnext
    have hseq : a.metricSeq + 1 + Int64.ofNat n = a.metricSeq + Int64.ofNat (n + 1) := by
      rw [Int64.ofNat_add, Int64.add_assoc, Int64.add_comm (Int64.ofNat n)]
      rfl
    rw [List.replicate_succ, List.flatten_cons, run, List.foldl_append]
    dsimp only at hlast
    rw [hseq] at hlast
    exact ⟨hlast, hopened'.trans hopened, hcommits'.trans hcommits⟩

def acmeBatch : PushMetricBatchRequest := (acmeAgent.sendCycle 2000 1 {}).2

theorem acmeBatch_valid : (validateMetricBatch asciiLetters
    (fromProtoPushMetricBatchRequest (toProtoPushMetricBatchRequest acmeBatch))).isOk = true := by
  decide +kernel

/-- A cycle whose batch is committed, and whose answer is lost. -/
def lostAck (k : ℕ) : List Step :=
  [.env acmeDatabase, .cycle 2000 1 {}, .openStream, .send, .take k,
    .process k (sampleDraws 3) 3000, .recvFails false]

theorem acmeBatch_recorded : ((sampleStore.reportMetrics (sampleDraws 3)
    (fromProtoPushMetricBatchRequest (toProtoPushMetricBatchRequest acmeBatch))
    (digestFromMetricBatch (fromProtoPushMetricBatchRequest
      (toProtoPushMetricBatchRequest acmeBatch))) 3000).run acmeDatabase).isOk = true := by
  decide +kernel

theorem exists_ok_of_isOk {ε α : Type} {x : Except ε α} (h : x.isOk = true) : ∃ a, x = .ok a := by
  cases x with
  | error e => cases h
  | ok a => exact ⟨a, rfl⟩

theorem process_take {u : Unicode} {store : Store} {s : Upload} {k : ℕ} {m : Message} {d : Draws}
    {now : Time} {snapshot : HostSnapshot} {db : Database} (hqueue : s.sentOn k = [m])
    (hhandler : s.handler k = {}) (hvalid : validateMetricBatch u m.request = .ok ())
    (htx : (store.reportMetrics d m.request (digestFromMetricBatch m.request) now).run s.db =
      .ok (snapshot, db)) :
    ∃ h, (s.take k).process u store k d now = { s with
      handler := Function.update s.handler k h, db := db
      history := .committed k m ⟨d, now, s.db, snapshot, db⟩ :: .received k m :: s.history } := by
  have htake : s.take k =
      (s.setHandler k { stage := .processing m, taken := 1 }).record (.received k m) := by
    simp [Upload.take, hqueue, hhandler]
  refine ⟨{ stage := .recorded m (metricEffects m.request (digestFromMetricBatch m.request) now
    snapshot), taken := 1 }, ?_⟩
  rw [htake]
  simp only [Upload.process, record, setHandler, Function.update_self, hvalid,
    Tx.transact_of_ok htx, Function.update_idem]

theorem Rested.lostAck {s : Upload} (h : s.Rested acmeAgent) {k : ℕ} (hk : s.opened = k) :
    let t := s.run asciiLetters sampleStore (Upload.lostAck k)
    t.Rested { acmeAgent with metricSeq := 1 } ∧ t.opened = k + 1 ∧
      ∃ m, commits t.history = m :: commits s.history ∧ m.payload.batchSeq = 1 := by
  subst hk
  let m : Message := ⟨s.cycles + 1, acmeBatch⟩
  let sentState : Upload := { s with
    agent := { acmeAgent with metricSeq := 1 }, cycles := s.cycles + 1
    metricSink := some s.opened, opened := s.opened + 1, phase := .awaiting s.opened m
    sent := s.sent ++ [(s.opened, m)], db := acmeDatabase }
  have hsend : s.run asciiLetters sampleStore
      [.env acmeDatabase, .cycle 2000 1 {}, .openStream, .send] = sentState := by
    obtain ⟨agent, cycles, sink, phase, opened, sent, handler, read, db, history⟩ := s
    obtain ⟨rfl, rfl, rfl, -, -⟩ := h
    rfl
  have hqueue : sentState.sentOn s.opened = [m] := by
    have hdeliver := sentOn_deliver s s.opened s.opened m
    rw [sentOn_eq_nil h.sent, if_pos rfl, List.nil_append] at hdeliver
    exact hdeliver
  obtain ⟨⟨⟩, hvalid⟩ : ∃ r, validateMetricBatch asciiLetters m.request = .ok r :=
    exists_ok_of_isOk acmeBatch_valid
  obtain ⟨⟨snapshot, db⟩, htx⟩ := exists_ok_of_isOk acmeBatch_recorded
  obtain ⟨hd, hprocess⟩ := process_take (s := sentState) hqueue (h.handler _ (le_refl _)) hvalid htx
  have hrun : s.run asciiLetters sampleStore (Upload.lostAck s.opened) =
      (((s.run asciiLetters sampleStore
        [.env acmeDatabase, .cycle 2000 1 {}, .openStream, .send]).take s.opened).process
          asciiLetters sampleStore s.opened (sampleDraws 3) 3000).recvFails false := rfl
  rw [hrun, hsend, hprocess]
  refine ⟨⟨rfl, rfl, rfl, ?_, ?_⟩, rfl, m, rfl, rfl⟩
  · intro k hk
    have hne : k ≠ s.opened := Nat.ne_of_gt hk
    exact (Function.update_of_ne hne _ _).trans (h.handler k (Nat.le_of_succ_le hk))
  · intro x hx
    rcases List.mem_append.mp hx with hx | hx
    · exact Nat.lt_succ_of_lt (h.sent x hx)
    · obtain rfl := List.mem_singleton.mp hx
      exact Nat.lt_succ_self _

end Upload

open Upload in
/-- An agent that goes on long enough counts in a circle: after `2 ^ 64` cycles it commits the
sequence number 1 a second time. -/
theorem batch_sequence_wraps : ∃ steps : List Upload.Step,
    ¬((commits ((Upload.start acmeAgent acmeDatabase).run asciiLetters sampleStore
      steps).history).map (·.payload.batchSeq)).Nodup := by
  have hstart : (Upload.start acmeAgent acmeDatabase).Rested acmeAgent :=
    ⟨rfl, rfl, rfl, fun _ _ => rfl, by simp [Upload.start]⟩
  obtain ⟨hfirst, hopened, m, hcommits, hseq⟩ := hstart.lostAck (k := 0) rfl
  obtain ⟨hround, hopened', hcommits'⟩ :=
    hfirst.failedCycles asciiLetters sampleStore (2 ^ 64 - 1)
  have hwrap : ({ acmeAgent with metricSeq := (1 : Int64) + Int64.ofNat (2 ^ 64 - 1) } : Agent) =
      acmeAgent := by
    rw [show (1 : Int64) + Int64.ofNat (2 ^ 64 - 1) = 0 by decide]
    rfl
  obtain ⟨-, -, m', hcommits'', hseq'⟩ :=
    Rested.lostAck (k := 1) (hwrap ▸ hround) (hopened'.trans hopened)
  rw [hcommits', hcommits] at hcommits''
  refine ⟨lostAck 0 ++ (List.replicate (2 ^ 64 - 1) failedCycle).flatten ++ lostAck 1, ?_⟩
  rw [run_append, run_append, hcommits'']
  simp [hseq, hseq']

end Gaoming
