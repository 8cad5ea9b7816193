import Responder.Proofs.Agent

/-! Requests between two passes. A request that is driven goes through one pass of its service, without which nothing
    waits (`drive_eq`); a message that is served becomes such a request in one change of the state, or ends in it
    (`serve_eq`). -/

namespace Responder

/-- The request, taken up again. -/
def Pending.retry (p : Pending) : Pending := { p with request := p.request.retry }

namespace Agent

variable {Obj : Type} [ManagedObject Obj] (a : Agent Obj)

/-- One pass over a request. Nothing comes of it if the request waits past its time. -/
def pass (p : Pending) : Doing Obj (Option (Request × Option Error)) :=
  Activity.before (match a.serviceFor? p.request.pdu.kind with
    | some service => service.run a.policy p.registry p.request
    | none => return (p.request, none)) (a.expiry p.request)

omit [ManagedObject Obj] in
/-- What becomes of a request after a pass over it. -/
def conclude (p : Pending) (out : Option (Request × Option Error)) (s : State Obj) : Except Error Unit × State Obj :=
  match out with
  | none => (.ok (), drop p.registry p.request.transaction s)
  | some (_, some error) => (.error error, drop p.registry p.request.transaction s)
  | some (request, none) =>
    if request.isComplete then a.finish request p.message (some p.registry) s
    else (.ok (), park { p with request } s)

theorem drive_eq (p : Pending) : a.drive p = a.pass p >>= fun out => modifyGet (a.conclude p out) := by
  unfold drive pass
  refine congrArg (bind _) (funext fun out => ?_)
  rcases out with _ | ⟨r, _ | error⟩
  · rfl
  · funext s
    show _ = Progress.done (ite _ _ _ : Except Error Unit × State Obj).1 (ite _ _ _ : Except Error Unit × State Obj).2
    by_cases hcomplete : r.isComplete = true
    · simp only [if_pos hcomplete]
      rfl
    · simp only [if_neg hcomplete]
      rfl
  · rfl

omit [ManagedObject Obj] in
/-- The view that access control gives to the sender of a message, if there is access control. -/
def viewOf (m : Inbound) (mapping : Option Mapping) (s : State Obj) : Option (Option Octets) :=
  a.access.map fun tables => viewFor? tables (requester m mapping ⟨s.transactions⟩)

omit [ManagedObject Obj] in
/-- The request of a message that is served. -/
def draft (m : Inbound) (mapping : Option Mapping) (s : State Obj) : Request :=
  .start { requester m mapping ⟨s.transactions⟩ with view := (a.viewOf m mapping s).join } m.pdu m.maxSize s.now

/-- A message that ends with a change of the state. -/
def ended (out : Except Error Unit × State Obj) : (Except Error Unit ⊕ Pending) × State Obj := (.inl out.1, out.2)

omit [ManagedObject Obj] in
/-- What becomes of a message that is for this engine: it ends at once, or is a request to be driven. -/
def takeOn (m : Inbound) (mapping : Option Mapping) (s : State Obj) : (Except Error Unit ⊕ Pending) × State Obj :=
  if (a.serviceFor? m.pdu.kind).isNone then ended (a.refuse m s)
  else if a.viewOf m mapping s = some none then
    ended (a.finish ((a.draft m mapping s).fail .authorizationError) m none (opened s))
  else match s.registries.findIdx? fun r => r.serves (requester m mapping ⟨s.transactions⟩).context with
    | none => ended (a.finish ((a.draft m mapping s).fail .genErr) m none (opened s))
    | some registry => (.inr ⟨a.draft m mapping s, m, registry⟩, opened s)

variable {a} in
omit [ManagedObject Obj] in
theorem takeOn_inr {m : Inbound} {mapping : Option Mapping} {s t : State Obj} {p : Pending}
    (h : a.takeOn m mapping s = (.inr p, t)) : (∃ registry, p = ⟨a.draft m mapping s, m, registry⟩) ∧ t = opened s := by
  unfold takeOn at h
  split at h
  · cases h
  · split at h
    · cases h
    · split at h
      · cases h
      · cases h
        exact ⟨⟨_, rfl⟩, rfl⟩

variable {a} in
omit [ManagedObject Obj] in
theorem takeOn_of_getRight? {m : Inbound} {mapping : Option Mapping} {s : State Obj} {p : Pending}
    (h : (a.takeOn m mapping s).1.getRight? = some p) : a.takeOn m mapping s = (.inr p, opened s) := by
  have htaken : a.takeOn m mapping s = (.inr p, (a.takeOn m mapping s).2) :=
    Prod.ext (Sum.getRight?_eq_some_iff.mp h) rfl
  exact htaken.trans (Prod.ext rfl (takeOn_inr htaken).2)

/-- What is left of a message after one change of the state. -/
def goOn : Except Error Unit ⊕ Pending → Doing Obj (Except Error Unit)
  | .inl result => return result
  | .inr p => a.drive p

theorem serve_eq (m : Inbound) (mapping : Option Mapping) :
    a.serve m mapping = modifyGet (a.takeOn m mapping) >>= a.goOn := by
  funext s
  show _ = a.goOn (a.takeOn m mapping s).1 (a.takeOn m mapping s).2
  unfold serve takeOn
  cases a.serviceFor? m.pdu.kind with
  | none => rfl
  | some service =>
    simp only [Option.isNone_some, Bool.false_eq_true, if_false]
    by_cases hview : a.viewOf m mapping s = some none
    · simp only [if_pos hview]
      exact congrArg (fun act : Doing Obj (Except Error Unit) => act _) (if_pos hview)
    · simp only [if_neg hview]
      refine (congrArg (fun act : Doing Obj (Except Error Unit) => act _) (if_neg hview)).trans ?_
      cases s.registries.findIdx? fun r => r.serves (requester m mapping ⟨s.transactions⟩).context <;> rfl

end Agent
end Responder
