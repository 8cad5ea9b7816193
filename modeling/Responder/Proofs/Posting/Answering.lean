import Mathlib.Algebra.GroupWithZero.Nat
import Responder.Proofs.Mediation.Run
import Responder.Proofs.Posting.Letter
import Responder.Proofs.Pursuit
import Responder.Service.Canned

/-! Whatever happens to an agent, what it has handed over corresponds to letters, each for a message that was submitted
    and limited by what the community of the message stands for; and the letters of which nothing fits are those that
    were counted, along with messages for other engines that could not be passed on (`posted_of_deeds`). -/

namespace Responder

variable {Obj : Type}

/-! ### Discretion -/

/-- What an agent tells others, and what it keeps track of, is the same in two states. -/
structure State.Alike (s t : State Obj) : Prop where
  sent : t.sent = s.sent
  counters : t.counters = s.counters
  routes : t.routes = s.routes
  outstanding : t.outstanding = s.outstanding

/-- The service minds its own business: whatever it does, it tells nobody, and loses track of nothing. -/
structure Service.Discreet (service : Service Obj) : Prop where
  run : ∀ (p : Policy) (registry : Nat) {who : Requester} {r : Request}, service.serves who.kind = true →
    r.Apt who (fun _ => True) → ∀ {I : State Obj → Prop}, (∀ s t : State Obj, s.Alike t → I s → I t) → ∀ s, I s →
      (service.run p registry r).Ensures (fun _ => I) I s fun out t => I t ∧ out.1.Apt who fun _ => True

section Discreet
variable [ManagedObject Obj] {I : State Obj → Prop}

omit [ManagedObject Obj] in
theorem lasting_of_alike (hI : ∀ s t : State Obj, s.Alike t → I s → I t) : Lasting I where
  locks {s t} hbare := hI s t
    ⟨congrArg (·.sent) hbare, congrArg (·.counters) hbare, congrArg (·.routes) hbare, congrArg (·.outstanding) hbare⟩
  time _ := hI _ _ ⟨rfl, rfl, rfl, rfl⟩

theorem discreet_of_standard {service : Service Obj} (h : service ∈ Agent.standardServices) : service.Discreet where
  run _ _ _ _ hserves hr _ hI s hs :=
    (((lasting_of_alike hI).steady _).conduct _ (fun _ _ _ _ => hI _ _ ⟨rfl, rfl, rfl, rfl⟩)
      (fun _ _ _ _ => hI _ _ ⟨rfl, rfl, rfl, rfl⟩)).run h hserves hr s hs

omit [ManagedObject Obj] in
theorem Request.Apt.fail {who : Requester} {callable : ObjectId → Prop} {r : Request} (h : r.Apt who callable)
    (status : Status) : (r.fail status).Apt who callable := by
  unfold Request.fail
  cases hitems : r.items with
  | nil => exact h.map rfl rfl (f := Item.finish) (by simp [hitems]) fun _ => ⟨rfl, rfl⟩
  | cons first rest =>
    refine ⟨h.requester, h.kind, fun x hx => ?_⟩
    obtain ⟨y, hy, rfl⟩ := List.mem_map.mp hx
    refine Item.Fits.finish ?_
    rcases List.mem_cons.mp hy with rfl | hy
    · refine (h.items first (hitems ▸ List.mem_cons_self)).of_eq (by simp) fun object hobject => ?_
      rwa [Item.setError_target] at hobject
    · exact h.items y (hitems ▸ List.mem_cons_of_mem _ hy)

omit [ManagedObject Obj] in
/-- A service that asks no object is discreet. -/
theorem discreet_canned (kinds : List Pdu.Kind) (deed : Canned.Deed) :
    (Canned.service kinds deed : Service Obj).Discreet where
  run _ _ who r _ hr _ _ _ hs := by
    have hmoved : (Canned.moved r).Apt who fun _ => True := by
      unfold Canned.moved
      cases hadvance : r.advance? with
      | none => exact hr
      | some r' => exact hr.advance hadvance
    refine ⟨hs, ?_⟩
    cases deed with
    | complete value =>
      refine hmoved.map rfl rfl rfl fun x => ?_
      cases value <;> exact ⟨rfl, rfl⟩
    | fail => exact hmoved.fail .resourceUnavailable
    | refuse reason => exact hr
    | nothing => exact hr

end Discreet

/-! ### What there is to say -/

theorem Request.fail_pdu (r : Request) (status : Status) : (r.fail status).pdu = r.pdu := by
  unfold Request.fail
  split <;> rfl

namespace Agent

/-- The mapping is what the community of a message stands for; there is none where communities do not count. -/
def Grants (a : Agent Obj) (m₀ : Inbound) (mapping : Option Mapping) : Prop :=
  a.admission m₀ = match mapping with
    | none => .direct
    | some mapping => .mapped mapping

/-- The engine that a message is for. -/
def engineOf (m₀ : Inbound) (mapping : Option Mapping) : Octets := (mapping.map Mapping.engine).getD m₀.engine

/-- The request is made for a message, which it keeps as its community limits it. -/
structure Handles (m₀ : Inbound) (mapping : Option Mapping) (p : Pending) : Prop where
  message : p.message = limited m₀ mapping
  kind : p.request.requester.kind = m₀.pdu.kind
  apt : p.request.Apt p.request.requester fun _ => True

/-- The message is for another engine, and the agent passes nothing on. -/
structure Strays (a : Agent Obj) (m₀ : Inbound) (mapping : Option Mapping) : Prop where
  foreign : a.settings.isOwnEngine (engineOf m₀ mapping) = false
  closed : a.proxies = false

/-- A request that is made for a message has come to its end. -/
inductive Concluded (a : Agent Obj) (m₀ : Inbound) (mapping : Option Mapping) : Request → Prop
  /-- A pass over it has ended, and it is complete. -/
  | completed {p : Pending} {s t : State Obj} {r : Request} (hp : Handles m₀ mapping p)
      (hpass : (a.pass p).Yields (fun _ _ => True) s (some (r, none)) t) (hcomplete : r.isComplete = true) :
      Concluded a m₀ mapping r
  /-- It has failed before any pass over it: there is no view, or no registry for it. -/
  | failed {s : State Obj} {status : Status} (hstatus : status = .authorizationError ∨ status = .genErr) :
      Concluded a m₀ mapping ((a.draft (limited m₀ mapping) mapping s).fail status)

/-- An agent can have something to say to a message. -/
inductive Utters (a : Agent Obj) (routes : Proxy.Routes) (m₀ : Inbound) (mapping : Option Mapping) : Pdu → Prop
  /-- A service has seen to it. -/
  | answered {r : Request} (hr : a.Concluded m₀ mapping r) : Utters a routes m₀ mapping (r.answer m₀.version)
  /-- Nobody serves messages of its kind. -/
  | unserved {count : UInt32} (hservice : a.serviceFor? m₀.pdu.kind = none) (hkind : m₀.pdu.kind.isConfirmed = true) :
      Utters a routes m₀ mapping (if m₀.version = .v3 then Reply.report m₀.pdu .unknownPduHandlers count
        else m₀.pdu.toErrorResponse .genErr)
  /-- It is for another engine, and a forwarder has brought a response. -/
  | relayed {forwarder : Proxy.Forwarder} {requestClass : Proxy.Class} {pdu : Pdu}
      (hforeign : a.settings.isOwnEngine (engineOf m₀ mapping) = false)
      (hroute : routes.find? (engineOf m₀ mapping) requestClass = some forwarder)
      (hrelay : forwarder.relay ⟨limited m₀ mapping, mapping, engineOf m₀ mapping, requestClass⟩ = some pdu) :
      Utters a routes m₀ mapping pdu
  /-- It is for another engine, and a forwarder has brought no response. -/
  | unreturned {forwarder : Proxy.Forwarder} {requestClass : Proxy.Class} {count : UInt32}
      (hforeign : a.settings.isOwnEngine (engineOf m₀ mapping) = false)
      (hroute : routes.find? (engineOf m₀ mapping) requestClass = some forwarder)
      (hrelay : forwarder.relay ⟨limited m₀ mapping, mapping, engineOf m₀ mapping, requestClass⟩ = none)
      (hversion : m₀.version = .v3) : Utters a routes m₀ mapping (Reply.report m₀.pdu .proxyDrops count)

/-- What an agent has handed over since some state corresponds to letters for messages that were submitted, and so do
the drops that it has counted, but for stray messages. The requests that it has parked are made for such messages. -/
structure Corresponds (a : Agent Obj) (submitted : Inbound → Prop) (s t : State Obj) : Prop where
  letters : ∃ (letters : List Letter) (strays : List Inbound),
    t.sent = s.sent ++ letters.flatMap (·.outs a.outlet) ∧
    t.counters.silentDrops = s.counters.silentDrops +
      UInt32.ofNat ((letters.map Letter.drops).sum + strays.length) ∧
    (∀ l ∈ letters, submitted l.message ∧ a.Grants l.message l.mapping ∧
      a.Utters s.routes l.message l.mapping l.answer) ∧
    ∀ m₀ ∈ strays, submitted m₀ ∧ ∃ mapping, a.Grants m₀ mapping ∧ a.Strays m₀ mapping
  routes : t.routes = s.routes
  parked : ∀ x ∈ t.outstanding.entries, ∀ p, x.parked = some p →
    ∃ m₀ mapping, submitted m₀ ∧ a.Grants m₀ mapping ∧ Handles m₀ mapping p

/-- However a message comes to be answered, a letter is posted that says what there is to say. -/
structure Answering [ManagedObject Obj] (a : Agent Obj) : Prop where
  /-- After a pass over its request, if the request is complete. Else nothing is handed over or dropped. -/
  driven : ∀ {m₀ : Inbound} {mapping : Option Mapping} {p : Pending}, Handles m₀ mapping p →
    ∀ {rely : State Obj → State Obj → Prop} {s u : State Obj} {result : Except Error Unit},
      (a.drive p).Yields rely s result u → ∃ out t, (a.pass p).Yields rely s out t ∧
        ((∃ r, out = some (r, none) ∧ r.isComplete = true ∧
          a.Posts (.of m₀ mapping (r.answer m₀.version)) t result u) ∨
        (∀ r, out = some (r, none) → r.isComplete = false) ∧ t.Quiet u)
  /-- Where nobody serves messages of its kind. -/
  unserved : ∀ (m₀ : Inbound) (mapping : Option Mapping) (s : State Obj), a.serviceFor? m₀.pdu.kind = none →
    m₀.pdu.kind.isConfirmed = true → ∃ result t, a.serve (limited m₀ mapping) mapping s = .done result t ∧
      a.Posts (.of m₀ mapping (if m₀.version = .v3
        then Reply.report m₀.pdu .unknownPduHandlers (s.counters.unknownPduHandlers + 1)
        else m₀.pdu.toErrorResponse .genErr)) s result t
  /-- Where its sender is given no view. -/
  unseeing : ∀ (m₀ : Inbound) (mapping : Option Mapping) (s : State Obj), a.serviceFor? m₀.pdu.kind ≠ none →
    a.viewOf (limited m₀ mapping) mapping s = some none →
      ∃ result t, a.serve (limited m₀ mapping) mapping s = .done result t ∧
        a.Posts (.of m₀ mapping
          (((a.draft (limited m₀ mapping) mapping s).fail .authorizationError).answer m₀.version)) s result t
  /-- Where no registry serves its context. -/
  homeless : ∀ (m₀ : Inbound) (mapping : Option Mapping) (s : State Obj), a.serviceFor? m₀.pdu.kind ≠ none →
    a.viewOf (limited m₀ mapping) mapping s ≠ some none →
    (∀ r ∈ s.registries, r.serves (a.draft (limited m₀ mapping) mapping s).requester.context = false) →
      ∃ result t, a.serve (limited m₀ mapping) mapping s = .done result t ∧
        a.Posts (.of m₀ mapping
          (((a.draft (limited m₀ mapping) mapping s).fail .genErr).answer m₀.version)) s result t
  /-- Where it is passed on, and a response is brought back. -/
  relayed : ∀ (m₀ : Inbound) (mapping : Option Mapping) (s : State Obj) (requestClass : Proxy.Class)
    (forwarder : Proxy.Forwarder) (pdu : Pdu), a.proxies = true → Proxy.Class.ofKind? m₀.pdu.kind = some requestClass →
    s.routes.find? (engineOf m₀ mapping) requestClass = some forwarder →
    forwarder.relay ⟨limited m₀ mapping, mapping, engineOf m₀ mapping, requestClass⟩ = some pdu →
      ∃ result t, a.forward (limited m₀ mapping) mapping (engineOf m₀ mapping) s = (result, t) ∧
        a.Posts (.of m₀ mapping pdu) s result t
  /-- Where it is passed on, and no response is brought back to somebody who can be sent a report. -/
  unreturned : ∀ (m₀ : Inbound) (mapping : Option Mapping) (s : State Obj) (requestClass : Proxy.Class)
    (forwarder : Proxy.Forwarder), a.proxies = true → Proxy.Class.ofKind? m₀.pdu.kind = some requestClass →
    s.routes.find? (engineOf m₀ mapping) requestClass = some forwarder →
    forwarder.relay ⟨limited m₀ mapping, mapping, engineOf m₀ mapping, requestClass⟩ = none →
    requestClass ≠ .notify → m₀.version = .v3 →
      ∃ result t, a.forward (limited m₀ mapping) mapping (engineOf m₀ mapping) s = (result, t) ∧
        a.Posts (.of m₀ mapping (Reply.report m₀.pdu .proxyDrops (s.counters.proxyDrops + 1))) s result t

/-! ### Passes and what becomes of requests -/

section Passes
variable {a : Agent Obj} {p : Pending} {m₀ : Inbound} {mapping : Option Mapping} {s : State Obj}

/-- A pass over a request that is discreet and keeps what has been told, and what is kept track of. -/
theorem pass_ensures (hdiscreet : ∀ service ∈ a.services, service.Discreet) {I : State Obj → Prop}
    (hI : ∀ s t : State Obj, s.Alike t → I s → I t) (hp : p.request.Apt p.request.requester fun _ => True) (hs : I s) :
    (a.pass p).Ensures (fun _ => I) I s fun out t =>
      I t ∧ ∀ r error, out = some (r, error) → r.Apt p.request.requester fun _ => True := by
  have hbefore {act : Doing Obj (Request × Option Error)} (hact : act.Ensures (fun _ => I) I s fun out t =>
      I t ∧ out.1.Apt p.request.requester fun _ => True) :
      (act.before (a.expiry p.request)).Ensures (fun _ => I) I s fun out t =>
        I t ∧ ∀ r error, out = some (r, error) → r.Apt p.request.requester fun _ => True := by
    have hgiven : ∀ s t : State Obj, I s → I t → I t := fun _ _ _ h => h
    refine (Activity.ensures_before hgiven hact _).mono (fun _ => id) ?_
    rintro (_ | ⟨r, error⟩) t ht
    · exact ⟨ht, by simp⟩
    · refine ⟨ht.1, fun r' error' heq => ?_⟩
      obtain ⟨rfl, -⟩ := Prod.mk.inj (Option.some.inj heq)
      exact ht.2
  refine hbefore ?_
  split
  · next service hservice =>
    have hserves := List.find?_some hservice
    exact (hdiscreet service (List.mem_of_find?_eq_some hservice)).run _ _ (hp.kind ▸ hserves) hp hI s hs
  · exact ⟨hs, hp⟩

/-- What becomes of a request after a pass over it. -/
theorem conclude_posts (hp : Handles m₀ mapping p) {out : Option (Request × Option Error)}
    (hout : ∀ r error, out = some (r, error) → r.Apt p.request.requester fun _ => True) :
    (∃ r, out = some (r, none) ∧ r.isComplete = true ∧
      a.Posts (.of m₀ mapping (r.answer m₀.version)) s (a.conclude p out s).1 (a.conclude p out s).2) ∨
    (∀ r, out = some (r, none) → r.isComplete = false) ∧ s.Quiet (a.conclude p out s).2 := by
  rcases out with _ | ⟨r, _ | error⟩
  · exact Or.inr ⟨by simp, quiet_drop _ _ s⟩
  · unfold conclude
    by_cases hcomplete : r.isComplete = true
    · have hkind : r.pdu.kind = m₀.pdu.kind := (hout r none rfl).kind.trans hp.kind
      simp only [if_pos hcomplete, hp.message]
      exact Or.inl ⟨r, rfl, hcomplete, a.posts_finish m₀ mapping s hkind _⟩
    · simp only [if_neg hcomplete]
      refine Or.inr ⟨fun r' heq => ?_, quiet_park _ s⟩
      obtain ⟨rfl, -⟩ := Prod.mk.inj (Option.some.inj heq)
      exact Bool.eq_false_iff.mpr hcomplete
  · exact Or.inr ⟨by simp, quiet_drop _ _ s⟩

theorem ne_getBulk_of_unserved (hbulk : ∃ service ∈ a.services, service.serves .getBulk = true) {kind : Pdu.Kind}
    (hservice : a.serviceFor? kind = none) : kind ≠ .getBulk := by
  rintro rfl
  obtain ⟨service, hmem, hserves⟩ := hbulk
  exact List.find?_eq_none.mp hservice service hmem hserves

variable (mapping) in
theorem refuse_posts (hkind : m₀.pdu.kind ≠ .getBulk) (hconfirmed : m₀.pdu.kind.isConfirmed = true) :
    a.Posts (.of m₀ mapping (if m₀.version = .v3
      then Reply.report m₀.pdu .unknownPduHandlers (s.counters.unknownPduHandlers + 1)
      else m₀.pdu.toErrorResponse .genErr)) s (a.refuse (limited m₀ mapping) s).1
      (a.refuse (limited m₀ mapping) s).2 := by
  have hquiet : s.Quiet (s.count .unknownPduHandlers).2 := s.quiet_count (by simp)
  have hvalue : (s.count .unknownPduHandlers).1 = s.counters.unknownPduHandlers + 1 := rfl
  have hlimited : (limited m₀ mapping).pdu = m₀.pdu ∧ (limited m₀ mapping).version = m₀.version := by
    rw [limited_eq]
    exact ⟨rfl, rfl⟩
  unfold refuse
  simp only [hlimited, hvalue, hconfirmed, Bool.not_true, Bool.false_eq_true, if_false]
  exact (a.posts_send_plain m₀ mapping _ (Or.inl hkind)).of_quiet hquiet

/-- A request that fails before any pass over it. -/
theorem fail_posts (m₀ : Inbound) (mapping : Option Mapping) (s : State Obj) (status : Status) :
    a.Posts (.of m₀ mapping (((a.draft (limited m₀ mapping) mapping s).fail status).answer m₀.version)) s
      (a.finish ((a.draft (limited m₀ mapping) mapping s).fail status) (limited m₀ mapping) none (opened s)).1
      (a.finish ((a.draft (limited m₀ mapping) mapping s).fail status) (limited m₀ mapping) none (opened s)).2 := by
  have hkind : ((a.draft (limited m₀ mapping) mapping s).fail status).pdu.kind = m₀.pdu.kind := by
    rw [Request.fail_pdu, limited_eq]
    rfl
  exact (a.posts_finish m₀ mapping (opened s) hkind none).of_quiet ⟨rfl, rfl⟩

/-- A forwarder has brought a response. -/
theorem forward_posts {requestClass : Proxy.Class} {forwarder : Proxy.Forwarder} {pdu : Pdu}
    (hproxies : a.proxies = true) (hclass : Proxy.Class.ofKind? m₀.pdu.kind = some requestClass)
    (hroute : s.routes.find? (engineOf m₀ mapping) requestClass = some forwarder)
    (hrelay : forwarder.relay ⟨limited m₀ mapping, mapping, engineOf m₀ mapping, requestClass⟩ = some pdu) :
    a.Posts (.of m₀ mapping pdu) s (a.forward (limited m₀ mapping) mapping (engineOf m₀ mapping) s).1
      (a.forward (limited m₀ mapping) mapping (engineOf m₀ mapping) s).2 := by
  have hlimited : (limited m₀ mapping).pdu = m₀.pdu := by
    rw [limited_eq]
  unfold forward
  simp only [hproxies, Bool.not_true, Bool.false_eq_true, if_false, hlimited, hclass, Option.bind_some, hroute,
    Option.map_some, hrelay]
  exact (a.posts_send m₀ mapping _ pdu).of_quiet ⟨rfl, rfl⟩

/-- A forwarder has brought none, and a report is sent instead. -/
theorem forward_reports {requestClass : Proxy.Class} {forwarder : Proxy.Forwarder}
    (hproxies : a.proxies = true) (hclass : Proxy.Class.ofKind? m₀.pdu.kind = some requestClass)
    (hroute : s.routes.find? (engineOf m₀ mapping) requestClass = some forwarder)
    (hrelay : forwarder.relay ⟨limited m₀ mapping, mapping, engineOf m₀ mapping, requestClass⟩ = none)
    (hnotify : requestClass ≠ .notify) (hversion : m₀.version = .v3) :
    a.Posts (.of m₀ mapping (Reply.report m₀.pdu .proxyDrops (s.counters.proxyDrops + 1))) s
      (a.forward (limited m₀ mapping) mapping (engineOf m₀ mapping) s).1
      (a.forward (limited m₀ mapping) mapping (engineOf m₀ mapping) s).2 := by
  have hlimited : (limited m₀ mapping).pdu = m₀.pdu ∧ (limited m₀ mapping).version = .v3 := by
    rw [limited_eq]
    exact ⟨rfl, hversion⟩
  unfold forward
  simp only [hproxies, Bool.not_true, Bool.false_eq_true, if_false, hlimited, hclass, Option.bind_some, hroute,
    Option.map_some, hrelay, hnotify, if_true]
  exact (a.posts_send_plain m₀ mapping _ (Or.inr rfl)).of_quiet ⟨rfl, rfl⟩

end Passes

section Answers
variable [ManagedObject Obj] {a : Agent Obj}

/-- An agent whose services are discreet posts what there is to say. -/
theorem answering (hdiscreet : ∀ service ∈ a.services, service.Discreet)
    (hbulk : ∃ service ∈ a.services, service.serves .getBulk = true) : a.Answering where
  driven {m₀ mapping p} hp {rely s u result} hdrive := by
    rw [drive_eq] at hdrive
    obtain ⟨out, t, hpass, hconclude⟩ := Progress.Yields.of_bind hdrive
    obtain ⟨rfl, rfl⟩ := Progress.yields_done.mp hconclude
    have hkept := pass_ensures hdiscreet (I := fun _ => True) (fun _ _ _ => id) hp.apt (s := s) trivial
    have hout := ((Activity.ensures_iff.mp hkept).2 out t (hpass.mono fun _ _ _ => trivial)).2
    exact ⟨out, t, hpass, conclude_posts hp hout⟩
  unserved m₀ mapping s hservice hconfirmed := by
    have hkind := ne_getBulk_of_unserved hbulk hservice
    have htakeOn : a.takeOn (limited m₀ mapping) mapping s = ended (a.refuse (limited m₀ mapping) s) := by
      rw [takeOn, limited_eq, if_pos (by simp [hservice])]
    refine ⟨_, _, ?_, refuse_posts mapping hkind hconfirmed⟩
    rw [serve_eq, Activity.bind_modifyGet, htakeOn]
    rfl
  unseeing m₀ mapping s hservice hview := by
    refine ⟨_, _, ?_, fail_posts m₀ mapping s .authorizationError⟩
    have hserved : ¬(a.serviceFor? (limited m₀ mapping).pdu.kind).isNone = true := by
      rw [limited_eq]
      simpa using hservice
    rw [serve_eq, Activity.bind_modifyGet, takeOn, if_neg hserved, if_pos hview]
    rfl
  homeless m₀ mapping s hservice hview hregistry := by
    refine ⟨_, _, ?_, fail_posts m₀ mapping s .genErr⟩
    have hserved : ¬(a.serviceFor? (limited m₀ mapping).pdu.kind).isNone = true := by
      rw [limited_eq]
      simpa using hservice
    have hnone := List.findIdx?_eq_none_iff.mpr hregistry
    dsimp only [draft, Request.start] at hnone
    rw [serve_eq, Activity.bind_modifyGet, takeOn, if_neg hserved, if_neg hview, hnone]
    rfl
  relayed m₀ mapping s requestClass forwarder pdu hproxies hclass hroute hrelay :=
    ⟨_, _, rfl, forward_posts hproxies hclass hroute hrelay⟩
  unreturned m₀ mapping s requestClass forwarder hproxies hclass hroute hrelay hnotify hversion :=
    ⟨_, _, rfl, forward_reports hproxies hclass hroute hrelay hnotify hversion⟩

end Answers

end Agent

end Responder
