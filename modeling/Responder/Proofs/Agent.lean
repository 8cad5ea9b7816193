import Responder.Agent.Dispatch
import Responder.Object.Instrument
import Responder.Proofs.Lookup

/-! Requests from the message to the answer. A message that an agent serves (`Admits`) becomes a request that
    its service takes as far as it can; if the request is complete by then, its response is what the agent
    sends (`process_of_done`). -/

namespace Responder

namespace Activity

variable {σ α β : Type} {act : Activity σ α} {f : α → Activity σ β} {s t : σ} {a : α}

theorem bind_modifyGet {g : σ → α × σ} : (modifyGet g >>= f : Activity σ β) s = f (g s).1 (g s).2 := rfl

theorem bind_of_done (h : act s = .done a t) : (act >>= f) s = f a t :=
  congrArg (fun p : Progress σ α => p.bind f) h

theorem before_of_done (h : act s = .done a t) (expiry : Instant) : act.before expiry s = .done (some a) t :=
  congrArg (fun p : Progress σ α => p.before expiry) h

end Activity

namespace Reply

variable {p p' : Pdu} {b : Binding}

theorem mem_fit? {bulk : Bool} {maxSize : Nat} (h : fit? p bulk maxSize = some p') :
    ∀ b ∈ p'.bindings, b ∈ p.bindings := by
  unfold fit? at h
  split at h
  · cases h
    exact fun _ => id
  · dsimp only at h
    split at h
    · cases h
      unfold shrink
      split
      · exact fun _ => id
      · split
        · exact fun _ => List.mem_of_mem_take
        · intro b hb
          cases hb
    · cases h

theorem mem_forV1 (h : b ∈ (forV1 p).bindings) : b ∈ p.bindings ∨ ∃ b' ∈ p.bindings, b = .unset b'.oid := by
  unfold forV1 at h
  split at h
  · obtain ⟨i, hi⟩ := List.mem_iff_getElem?.mp h
    rw [clearValue, List.getElem?_modify, Option.map_eq_map, Option.map_eq_some_iff] at hi
    obtain ⟨b', hb', rfl⟩ := hi
    split
    · exact Or.inr ⟨b', List.mem_of_getElem? hb', rfl⟩
    · exact Or.inl (List.mem_of_getElem? hb')
  · exact Or.inl h

end Reply

namespace Agent

/-- An agent with the standard services, and without access control. -/
def plain : Agent Instrument := { services := standardServices }

variable {Obj : Type} {a : Agent Obj} {s t : State Obj} {m m₀ : Inbound} {who : Requester} {registry : Nat}
  {service : Service Obj} {r : Request}

/-- The message is served, with what is left of it, on somebody's behalf, and with one of the registries. Where
there is access control, it gives a view. -/
structure Admits (a : Agent Obj) (s : State Obj) (m₀ m : Inbound) (who : Requester) (registry : Nat) : Prop where
  received : ∃ mapping, a.receive m₀ s = (.serve m mapping, s) ∧
    { requester m mapping ⟨s.transactions⟩ with view := who.view } = who
  view : (a.access.map fun tables => viewFor? tables who) = who.view.map some
  registry : (s.registries.findIdx? fun r => r.serves who.context) = some registry

/-- The message is neither a response nor a report, its sender may use its community, if it has one that counts, and it
is for an engine of the agent. What is left of it is limited as the community says. -/
structure Accepts (a : Agent Obj) (m₀ m : Inbound) (mapping : Option Mapping) : Prop where
  kind : m₀.pdu.kind ≠ .response ∧ m₀.pdu.kind ≠ .report
  admission : a.admission m₀ = (match mapping with
    | none => .direct
    | some mapping => .mapped mapping)
  limited : limited m₀ mapping = m
  engine : a.settings.isOwnEngine ((mapping.map Mapping.engine).getD m.engine) = true

theorem limited_pdu (m : Inbound) (mapping : Option Mapping) : (limited m mapping).pdu = m.pdu := by
  unfold limited
  split <;> rfl

/-- A message is accepted in one way. -/
theorem Accepts.unique {m' : Inbound} {mapping mapping' : Option Mapping} (h : a.Accepts m₀ m mapping)
    (h' : a.Accepts m₀ m' mapping') : m' = m ∧ mapping' = mapping := by
  have hmapping : mapping' = mapping := by
    have hsame := h.admission.symm.trans h'.admission
    cases mapping <;> cases mapping' <;> simp_all
  exact ⟨by rw [← h.limited, ← h'.limited, hmapping], hmapping⟩

/-- The state in which the next request begins. -/
def opened (s : State Obj) : State Obj :=
  { s.newTransaction.2 with outstanding := s.outstanding.track ⟨s.transactions⟩ s.now }

/-- Requests that expire lose their locks, and are no longer outstanding. -/
theorem bare_expire (s : State Obj) :
    (expire s).2.bare = { s with outstanding := (s.outstanding.expire s.now).2 }.bare := by
  have hfold {α : Type} (f : State Obj → α → State Obj) (hf : ∀ s x, (f s x).bare = s.bare) :
      ∀ (xs : List α) (s : State Obj), (xs.foldl f s).bare = s.bare := by
    intro xs
    induction xs with
    | nil => exact fun _ => rfl
    | cons x xs ih => exact fun s => (ih _).trans (hf s x)
  refine hfold _ ?_ _ _
  rintro s ⟨id, _ | p⟩
  · exact hfold _ (fun s registry => s.bare_releaseLocks registry id) _ s
  · exact s.bare_releaseLocks _ id

theorem Admits.version (h : a.Admits s m₀ m who registry) : who.version = m.version := by
  obtain ⟨mapping, -, hwho⟩ := h.received
  exact (congrArg Requester.version hwho).symm

variable [ManagedObject Obj]

omit [ManagedObject Obj] in
theorem receive_eq_serve_iff {mapping : Option Mapping} :
    a.receive m₀ s = (.serve m mapping, t) ↔ a.Accepts m₀ m mapping ∧ t = s := by
  have hgo (mapping' : Option Mapping) : (let m := limited m₀ mapping'
      let engine := (mapping'.map Mapping.engine).getD m.engine
      if a.settings.isOwnEngine engine then (Course.serve m mapping', s)
      else (.ended (a.forward m mapping' engine s).1, (a.forward m mapping' engine s).2)) = (.serve m mapping, t) ↔
      (mapping' = mapping ∧ limited m₀ mapping = m ∧
        a.settings.isOwnEngine ((mapping.map Mapping.engine).getD m.engine) = true) ∧ t = s := by
    dsimp only
    split
    · next hown =>
      simp only [Prod.mk.injEq, Course.serve.injEq]
      constructor
      · rintro ⟨⟨rfl, rfl⟩, rfl⟩
        exact ⟨⟨rfl, rfl, hown⟩, rfl⟩
      · rintro ⟨⟨rfl, rfl, -⟩, rfl⟩
        exact ⟨⟨rfl, rfl⟩, rfl⟩
    · next hforeign =>
      simp only [Prod.mk.injEq, reduceCtorEq, false_and, false_iff, not_and]
      rintro ⟨rfl, rfl, hown⟩
      exact absurd hown hforeign
  unfold receive
  split
  · next hkind =>
    simp only [Prod.mk.injEq, reduceCtorEq, false_and, false_iff, not_and]
    exact fun h => absurd hkind (by simp [h.kind])
  · next hkind =>
    rw [not_or] at hkind
    cases hadmission : a.admission m₀ with
    | denied =>
      simp only [Prod.mk.injEq, reduceCtorEq, false_and, false_iff, not_and]
      intro h
      have hadmitted := h.admission
      rw [hadmission] at hadmitted
      cases mapping <;> cases hadmitted
    | direct =>
      refine (hgo none).trans (and_congr_left fun _ => ⟨?_, fun h => ?_⟩)
      · rintro ⟨rfl, hm, hown⟩
        exact ⟨hkind, hadmission, hm, hown⟩
      · have hadmitted := h.admission
        rw [hadmission] at hadmitted
        cases mapping with
        | none => exact ⟨rfl, h.limited, h.engine⟩
        | some mapping => cases hadmitted
    | mapped x =>
      refine (hgo (some x)).trans (and_congr_left fun _ => ⟨?_, fun h => ?_⟩)
      · rintro ⟨rfl, hm, hown⟩
        exact ⟨hkind, hadmission, hm, hown⟩
      · have hadmitted := h.admission
        rw [hadmission] at hadmitted
        cases mapping with
        | none => cases hadmitted
        | some mapping =>
          cases hadmitted
          exact ⟨rfl, h.limited, h.engine⟩

/-- A message that is served on somebody's behalf, who is given a view where there is access control. -/
theorem process_granted {mapping : Option Mapping} (haccepts : a.Accepts m₀ m mapping)
    (hwho : { requester m mapping ⟨s.transactions⟩ with view := who.view } = who)
    (hview : (a.access.map fun tables => viewFor? tables who) = who.view.map some)
    (hservice : a.serviceFor? m.pdu.kind = some service) : a.process m₀ s =
      (match s.registries.findIdx? fun r => r.serves who.context with
        | none => modifyGet (a.finish ((Request.start who m.pdu m.maxSize s.now).fail .genErr) m none)
        | some registry => a.drive ⟨.start who m.pdu m.maxSize s.now, m, registry⟩ : Doing Obj _) (opened s) := by
  generalize hrequester : requester m mapping ⟨s.transactions⟩ = requester at hwho
  have hfor (tables : Vacm.Tables) : viewFor? tables requester = viewFor? tables who := hwho ▸ rfl
  have hcontext : requester.context = who.context := hwho ▸ rfl
  have htransaction : requester.transaction = ⟨s.transactions⟩ := hrequester ▸ rfl
  have hview' : (who.view.map some).join = who.view := by cases who.view <;> rfl
  have hgranted : who.view.map some ≠ some none := by cases who.view <;> simp
  rw [process, Activity.bind_modifyGet, receive_eq_serve_iff.mpr ⟨haccepts, rfl⟩]
  simp only [serve, hservice, Activity.bind_modifyGet, State.newTransaction, hrequester, hfor, hview, hview', hgranted,
    if_false, hwho]
  simp only [hcontext, htransaction]
  rfl

/-- A message that is served becomes a request. -/
theorem process_eq (h : a.Admits s m₀ m who registry) (hservice : a.serviceFor? m.pdu.kind = some service) :
    a.process m₀ s = a.drive ⟨.start who m.pdu m.maxSize s.now, m, registry⟩ (opened s) := by
  obtain ⟨⟨mapping, hreceive, hwho⟩, hview, hregistry⟩ := h
  rw [process_granted (receive_eq_serve_iff.mp hreceive).1 hwho hview hservice, hregistry]

omit [ManagedObject Obj] in
/-- What a request is answered with that is complete, and whose answer goes out in a form that fits. -/
theorem finish_of_fit {response : Pdu} (houtlet : a.outlet = .open)
    (hfit : Reply.fit? (if m.version = .v1 then Reply.forV1 r.toResponse else r.toResponse)
      (r.pdu.kind == .getBulk) m.maxSize = some response) (registry : Nat) (t : State Obj) :
    ∃ u, a.finish r m (some registry) t = (.ok (), u) ∧ u.sent = t.sent ++ [Outbound.replyTo m response] ∧
      u.objects = t.objects := by
  simp only [finish, send, hfit, houtlet]
  generalize hclosed : { t with outstanding := t.outstanding.remove r.transaction } = closed
  have hbare := closed.bare_releaseLocks registry r.transaction
  have hsent : closed.sent = t.sent := hclosed ▸ rfl
  have hobjects : closed.objects = t.objects := hclosed ▸ rfl
  refine ⟨_, rfl, ?_, (State.objects_eq_of_bare hbare).trans hobjects⟩
  rw [State.sent_eq_of_bare hbare, hsent]

omit [ManagedObject Obj] in
/-- What is answered is what the items hold, or nothing under a name that one of them holds. -/
theorem mem_sent_finish {registry : Option Nat} {out : Outbound} (h : out ∈ (a.finish r m registry t).2.sent) :
    out ∈ t.sent ∨ ∀ b ∈ out.pdu.bindings, ∃ x ∈ r.items, b = x.binding ∨ b = .unset x.oid := by
  have hmem {b : Binding} (hb : b ∈ r.toResponse.bindings) : ∃ x ∈ r.items, b = x.binding := by
    obtain ⟨x, hx, rfl⟩ := List.mem_map.mp hb
    exact ⟨x, hx, rfl⟩
  have hanswer (b : Binding) (hb : b ∈ (if m.version = .v1 then Reply.forV1 r.toResponse else r.toResponse).bindings) :
      ∃ x ∈ r.items, b = x.binding ∨ b = .unset x.oid := by
    split at hb
    · rcases Reply.mem_forV1 hb with hb | ⟨b', hb', rfl⟩
      · obtain ⟨x, hx, rfl⟩ := hmem hb
        exact ⟨x, hx, Or.inl rfl⟩
      · obtain ⟨x, hx, rfl⟩ := hmem hb'
        exact ⟨x, hx, Or.inr rfl⟩
    · obtain ⟨x, hx, rfl⟩ := hmem hb
      exact ⟨x, hx, Or.inl rfl⟩
  have hclosed : ∃ u : State Obj, a.finish r m registry t =
      a.send m (if m.version = .v1 then Reply.forV1 r.toResponse else r.toResponse) (r.pdu.kind == .getBulk) u ∧
        u.sent = t.sent := by
    cases registry with
    | none => exact ⟨_, rfl, rfl⟩
    | some number =>
      have hsent := State.sent_eq_of_bare <|
        State.bare_releaseLocks { t with outstanding := t.outstanding.remove r.transaction } number r.transaction
      exact ⟨_, rfl, hsent⟩
  obtain ⟨u, hfinish, hsent⟩ := hclosed
  rw [hfinish, send] at h
  split at h
  · exact Or.inl (hsent ▸ h)
  · next pdu hfit =>
    split at h
    · exact Or.inl (hsent ▸ h)
    · rw [List.mem_append, hsent, List.mem_singleton] at h
      refine h.imp_right ?_
      rintro rfl b hb
      exact hanswer b (Reply.mem_fit? hfit b hb)

theorem drive_of_done {p : Pending} (hservice : a.serviceFor? p.request.pdu.kind = some service)
    (hrun : service.run a.policy p.registry p.request s = .done (r, none) t) (hc : r.isComplete = true) :
    a.drive p s = .done (a.finish r p.message (some p.registry) t).1 (a.finish r p.message (some p.registry) t).2 := by
  simp only [drive, hservice]
  rw [Activity.bind_of_done (Activity.before_of_done hrun _)]
  simp only [hc, if_true]
  rfl

/-- A request that its service completes at once is answered at once, as its version has it and in a form that fits. -/
theorem process_of_run (h : a.Admits s m₀ m who registry) (hservice : a.serviceFor? m.pdu.kind = some service)
    (houtlet : a.outlet = .open)
    (hrun : service.run a.policy registry (.start who m.pdu m.maxSize s.now) (opened s) = .done (r, none) t)
    (hc : r.isComplete = true) {response : Pdu}
    (hfit : Reply.fit? (if m.version = .v1 then Reply.forV1 r.toResponse else r.toResponse)
      (r.pdu.kind == .getBulk) m.maxSize = some response) :
    ∃ u, a.process m₀ s = .done (.ok ()) u ∧ u.sent = t.sent ++ [Outbound.replyTo m response] ∧
      u.objects = t.objects := by
  obtain ⟨u, hfinish, hsent, hobjects⟩ := finish_of_fit houtlet hfit registry t
  refine ⟨u, ?_, hsent, hobjects⟩
  rw [process_eq h hservice, drive_of_done hservice hrun hc, hfinish]

/-- A request that its service completes at once is answered at once, in a form that fits. -/
theorem process_of_fit (h : a.Admits s m₀ m who registry) (hservice : a.serviceFor? m.pdu.kind = some service)
    (hversion : m.version ≠ .v1) (houtlet : a.outlet = .open)
    (hrun : service.run a.policy registry (.start who m.pdu m.maxSize s.now) (opened s) = .done (r, none) t)
    (hc : r.isComplete = true) {response : Pdu}
    (hfit : Reply.fit? r.toResponse (r.pdu.kind == .getBulk) m.maxSize = some response) :
    ∃ u, a.process m₀ s = .done (.ok ()) u ∧ u.sent = t.sent ++ [Outbound.replyTo m response] ∧
      u.objects = t.objects := process_of_run h hservice houtlet hrun hc (by rwa [if_neg hversion])

/-- A request that its service completes at once is answered at once, if the answer fits. -/
theorem process_of_done (h : a.Admits s m₀ m who registry) (hservice : a.serviceFor? m.pdu.kind = some service)
    (hversion : m.version ≠ .v1) (houtlet : a.outlet = .open)
    (hrun : service.run a.policy registry (.start who m.pdu m.maxSize s.now) (opened s) = .done (r, none) t)
    (hc : r.isComplete = true) {response : Pdu} (hresponse : r.toResponse = response)
    (hsize : response.size ≤ m.maxSize) : ∃ u, a.process m₀ s = .done (.ok ()) u ∧
      u.sent = t.sent ++ [Outbound.replyTo m response] ∧ u.objects = t.objects := by
  subst hresponse
  exact process_of_fit h hservice hversion houtlet hrun hc (if_pos hsize)

end Agent
end Responder
