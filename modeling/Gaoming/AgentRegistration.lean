import Gaoming.HostStoreCalls
import Gaoming.TransactionMarks

/-!
# What registering an agent touches

The tenant of an agent is looked up by its code and inserted, or given its name and
status again. All other accesses of the two calls that the master makes for agents are
to a host and to the rows beside it.
-/

namespace Gaoming
open Relational Transaction

def Access.OnTenants : Access → Prop
  | .putTenant _ | .lockTenantCode _ => True
  | _ => False

def Access.OnHosts : Access → Prop
  | .putHost _ | .lockHostUID _ | .putHostLabel _ | .eraseHostLabel _ | .putAgentInstance _
  | .lockAgentID _ _ | .putHostStatus _ | .readHostStatus _ => True
  | _ => False

section Statements
variable {s : Store} {d : Draws} {hostID : Serial} {now : Time} {a : Access}

theorem Access.Beside.onHosts (h : a.Beside hostID) : a.OnHosts := by
  cases a with
  | putHostLabel | eraseHostLabel | putAgentInstance | lockAgentID => trivial
  | _ => exact h.elim

theorem Access.OnStatus.onHosts (h : a.OnStatus hostID) : a.OnHosts := by
  cases a with
  | putHostStatus | readHostStatus => trivial
  | _ => exact h.elim

theorem onTenants_ensureTenant (code name : String) :
    (ensureTenant d code name).Uses Access.OnTenants :=
  uses_ensureTenant (fun _ => trivial) fun _ => trivial

theorem Store.onHosts_upsertHost (tenantID : Serial) (hostUID : String)
    (req : RegisterAgentRequest) :
    (s.upsertHost d tenantID hostUID req now).Uses Access.OnHosts := by
  refine uses_queryText_bind fun db => ?_
  split
  · refine Tx.uses_bind (uses_insertRow fun r _ a ha => ?_) fun _ => Tx.uses_pure _
    simp only [List.mem_cons, List.not_mem_nil, or_false] at ha
    rcases ha with rfl | rfl <;> trivial
  · refine Tx.uses_bind (uses_saveRow fun r _ a ha => ?_) fun _ => Tx.uses_pure _
    rw [List.mem_singleton.mp ha]
    trivial

/-- A registration, once it is known what its tenant does. -/
theorem Store.usesAt_registerAgent {q : Database → Access → Prop} (req : RegisterAgentRequest)
    (htenant : ∀ code name, (ensureTenant d code name).UsesAt q)
    (hhosts : ∀ db a, a.OnHosts → q db a) : (s.registerAgent d req now).UsesAt q := by
  have hon : ∀ {α : Type} {p : StoreTx α}, p.Uses Access.OnHosts → p.UsesAt q :=
    fun hp => hp.usesAt.mono hhosts
  refine Tx.usesAt_bind ?_ fun tenant => ?_
  · exact Tx.usesAt_bind (hon (uses_lookupTenantCodeByHostUID _)) fun _ =>
      Tx.usesAt_bind (htenant _ _) fun _ => Tx.usesAt_pure _
  refine Tx.usesAt_bind (hon (onHosts_upsertHost _ _ _)) fun hostID => ?_
  refine Tx.usesAt_bind (hon ((uses_replaceLabels _).mono fun _ => Access.Beside.onHosts))
    fun _ => ?_
  refine Tx.usesAt_bind (hon ((uses_upsertAgentInstance _).mono fun _ => Access.Beside.onHosts))
    fun _ => ?_
  refine Tx.usesAt_bind (hon (s.uses_upsertRegisteredStatus.mono fun _ => Access.OnStatus.onHosts))
    fun _ => ?_
  exact Tx.usesAt_bind (hon (uses_readBack _)) fun _ => Tx.usesAt_pure _

theorem Store.uses_registerAgent (s : Store) (d : Draws) (req : RegisterAgentRequest)
    (now : Time) : (s.registerAgent d req now).Uses fun a => a.OnHosts ∨ a.OnTenants :=
  (usesAt_registerAgent req (fun code name => (onTenants_ensureTenant code name).usesAt.mono
    fun _ _ ha => .inr ha) fun _ _ ha => .inl ha).uses

theorem Store.uses_allocateTenant (d : Draws) :
    (Store.allocateTenant d).Uses fun a => a.OnHosts ∨ a.OnTenants :=
  Tx.uses_bind ((onTenants_ensureTenant _ _).mono fun _ ha => .inr ha) fun _ => Tx.uses_pure _

end Statements

end Gaoming
