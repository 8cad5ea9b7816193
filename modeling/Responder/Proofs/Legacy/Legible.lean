import Responder.Proofs.Custody.Release
import Responder.Proofs.Legacy.Vouched
import Responder.Proofs.Set.Tending

/-! Answers to requesters of the first version. Its statuses are those from zero to five, and it knows neither counters
    of 64 bits nor markers. What is sent to such a requester keeps to that, but for what an object is to blame for, and
    for markers behind the first one, which alone is replaced (`legible_of_pursues`). -/

namespace Responder

/-! ### Statuses -/

namespace Status

theorem eq_of_ofCode {code c : Int32} (h : ofCode code = .unknown c) : c = code := by
  unfold ofCode at h
  split at h
  · cases hknown : known[code.toInt.toNat]? with
    | none =>
      rw [hknown] at h
      exact (unknown.inj h).symm
    | some status =>
      have hmem : status ∈ known := List.mem_of_getElem? hknown
      rw [hknown] at h
      rw [show status = .unknown c from h] at hmem
      simp [known] at hmem
  · exact (unknown.inj h).symm

theorem ofCode_code {status : Status} (hknown : ∀ c, status ≠ .unknown c) : ofCode status.code = status := by
  cases status with
  | unknown c => exact absurd rfl (hknown c)
  | _ => rfl

theorem code_forV1 {status : Status} (hknown : ∀ c, status ≠ .unknown c) :
    0 ≤ status.forV1.code.toInt ∧ status.forV1.code.toInt ≤ 5 := by
  cases status with
  | unknown c => exact absurd rfl (hknown c)
  | _ => decide

end Status

namespace Reply

/-- A response to a request of some kind, as the first version of the protocol can carry it. -/
structure Legible (kind : Pdu.Kind) (h : List Step) (p : Pdu) : Prop where
  /-- A status beyond the known ones is one that an object has reported. -/
  status : 0 ≤ p.errorStatus.toInt ∧ p.errorStatus.toInt ≤ 5 ∨ ∃ st ∈ h, st.Reports (.unknown p.errorStatus)
  /-- A marker stands behind the first one, in whose place a missing name is reported. -/
  marker : ∀ j b, p.bindings[j]? = some b → b.value.isException = true →
    ∃ i < j, p.errorStatus = Status.noSuchName.code ∧ p.errorIndex = Request.clampIndex (i + 1) ∧
      (∃ c, p.bindings[i]? = some c ∧ c.value = .null) ∧
        ∀ k ≤ i, ∀ c, p.bindings[k]? = some c → c.value.isException = false
  /-- A counter was left by an object, in a call that failed or for a request that writes. -/
  counter : ∀ b ∈ p.bindings, b.value.isCounter64 = true →
    ∃ st ∈ h, st.after.value = b.value ∧ (kind = .set ∨ st.faulted = true)

variable {kind : Pdu.Kind} {h : List Step} {p p' : Pdu} {r : Request}

theorem bindings_forV1 (p : Pdu) : (forV1 p).bindings =
    match firstException? p.bindings with
    | some i => p.bindings.modify i fun b => { b with value := .null }
    | none => p.bindings := by
  unfold forV1
  split <;> simp [clearValue, *]

/-- What is left of a response, as far as its status goes. -/
theorem status_forV1 (p : Pdu) : 0 ≤ (forV1 p).errorStatus.toInt ∧ (forV1 p).errorStatus.toInt ≤ 5 ∨
    p.status = .unknown p.errorStatus ∧ (forV1 p).errorStatus = p.errorStatus := by
  unfold forV1
  split
  · exact Or.inl (show 0 ≤ Status.noSuchName.code.toInt ∧ Status.noSuchName.code.toInt ≤ 5 by decide)
  · by_cases hknown : ∃ c, p.status = .unknown c
    · obtain ⟨c, hc⟩ := hknown
      obtain rfl := Status.eq_of_ofCode hc
      refine Or.inr ⟨hc, ?_⟩
      dsimp only
      rw [hc]
      rfl
    · exact Or.inl (Status.code_forV1 fun c hc => hknown ⟨c, hc⟩)

/-- A status without a meaning is that of an item, if it is not that of the request. -/
theorem exists_of_status (hstatus : ∀ c, r.status ≠ .unknown c) {c : Int32} (hc : r.toResponse.status = .unknown c) :
    ∃ x ∈ r.items, x.status = .unknown c := by
  by_cases herror : r.reportedStatus.isError = true
  · have hcode : r.toResponse.errorStatus = r.reportedStatus.code := by
      simp [Request.toResponse, Request.responseHeader, herror]
    rw [Pdu.status, hcode] at hc
    obtain ⟨c', hc'⟩ : ∃ c', r.reportedStatus = .unknown c' := by
      by_contra hnone
      rw [Status.ofCode_code fun c' hc' => hnone ⟨c', hc'⟩] at hc
      exact hnone ⟨c, hc⟩
    rw [hc'] at hc
    obtain rfl : c = c' := Status.eq_of_ofCode hc
    have hfirst : ((r.items.map Item.status).find? Status.isError).getD .noError = .unknown c := by
      rw [← hc', Request.reportedStatus, if_neg fun hown => ?_]
      rw [Request.reportedStatus, if_pos hown] at hc'
      exact hstatus c hc'
    cases hfound : (r.items.map Item.status).find? Status.isError with
    | none =>
      rw [hfound] at hfirst
      cases hfirst
    | some status =>
      rw [hfound] at hfirst
      obtain ⟨x, hx, hstatus⟩ := List.mem_map.mp (List.mem_of_find?_eq_some hfound)
      exact ⟨x, hx, hstatus.trans hfirst⟩
  · have hcode : r.toResponse.errorStatus = 0 := by
      simp [Request.toResponse, Request.responseHeader, herror, Pdu.toResponse]
    rw [Pdu.status, hcode] at hc
    cases hc

/-- The response to a request whose items the history vouches for. -/
theorem legible_forV1 (hstatus : ∀ c, r.status ≠ .unknown c) (hitems : ∀ x ∈ r.items, x.Vouched kind h) :
    Legible kind h (forV1 r.toResponse) where
  status := by
    rcases status_forV1 r.toResponse with hknown | ⟨hunknown, hsame⟩
    · exact Or.inl hknown
    · obtain ⟨x, hx, hcode⟩ := exists_of_status hstatus hunknown
      rw [hsame]
      exact Or.inr ((hitems x hx).status _ hcode)
  marker j b hb hmarker := by
    rw [bindings_forV1] at hb ⊢
    cases hfirst : firstException? r.toResponse.bindings with
    | none =>
      rw [hfirst] at hb
      have hnone := List.findIdx?_eq_none_iff.mp hfirst b (List.mem_of_getElem? hb)
      cases hnone.symm.trans hmarker
    | some i =>
      rw [hfirst] at hb
      obtain ⟨hi, hthere, hbefore⟩ := List.findIdx?_eq_some_iff_getElem.mp hfirst
      have hclean {k : Nat} (hk : k ≤ i) {c : Binding} (hc : (r.toResponse.bindings.modify i fun b =>
          { b with value := .null })[k]? = some c) : c.value.isException = false := by
        rw [List.getElem?_modify, Option.map_eq_map, Option.map_eq_some_iff] at hc
        obtain ⟨c', hc', rfl⟩ := hc
        by_cases heq : i = k
        · rw [if_pos heq]
          rfl
        · rw [if_neg heq]
          obtain ⟨hlt, rfl⟩ := List.getElem?_eq_some_iff.mp hc'
          exact Bool.eq_false_iff.mpr (hbefore k (by omega))
      have hij : i < j := by
        by_contra hle
        cases (hclean (Nat.le_of_not_lt hle) hb).symm.trans hmarker
      refine ⟨i, hij, ?_, ?_, ⟨{ r.toResponse.bindings[i] with value := .null }, ?_, rfl⟩, fun k hk c => hclean hk⟩
      · simp [forV1, hfirst]
      · simp [forV1, hfirst, Request.clampIndex]
      · simp [List.getElem?_eq_getElem hi]
  counter b hb hcounter := by
    rcases mem_forV1 hb with hb | ⟨b', -, rfl⟩
    · obtain ⟨x, hx, rfl⟩ := List.mem_map.mp hb
      exact (hitems x hx).counter hcounter
    · cases hcounter

/-- What fits is the response itself, or says that it was too big. -/
theorem Legible.fit {maxSize : Nat} (hp : Legible kind h p) (hfit : fit? p false maxSize = some p') :
    Legible kind h p' := by
  have htooBig : Legible kind h (tooBig p) := ⟨Or.inl (by simp [tooBig]; decide), by simp [tooBig], by simp [tooBig]⟩
  unfold fit? at hfit
  split at hfit
  · cases hfit
    exact hp
  · dsimp only at hfit
    split at hfit
    · cases hfit
      unfold shrink
      split
      · exact hp
      · exact htooBig
    · cases hfit

end Reply

/-! ### Requests of the first version -/

/-- Somebody asks by the first version of the protocol, and writes no counter of 64 bits. -/
structure Inbound.Early (m : Inbound) : Prop where
  version : m.version = .v1
  kind : m.pdu.kind = .get ∨ m.pdu.kind = .getNext ∨ m.pdu.kind = .set
  plain : ∀ b ∈ m.pdu.bindings, b.value.isCounter64 = false

/-- A request that is kept with its message. If the message is an early one, the history vouches for the items. -/
structure Pending.Carried (p : Pending) (h : List Step) : Prop where
  version : p.request.requester.version = p.message.version
  kind : p.request.requester.kind = p.message.pdu.kind
  known : p.message.Early → ∀ c, p.request.status ≠ .unknown c
  items : p.message.Early → ∀ x ∈ p.request.items, x.Vouched p.message.pdu.kind h

namespace Pending.Carried

variable {Obj : Type} {a : Agent Obj} {p : Pending} {s t : State Obj} {r : Request} {error : Option Error}
  {callable : ObjectId → Prop}

theorem start (a : Agent Obj) (m : Inbound) (mapping : Option Mapping) (s : State Obj) (registry : Nat) :
    Carried ⟨a.draft m mapping s, m, registry⟩ [] := by
  refine ⟨rfl, rfl, fun _ c => (nomatch ·), fun hearly x hx => ?_⟩
  obtain ⟨i, hi, rfl⟩ := List.mem_mapIdx.mp hx
  have hb := hearly.plain _ (List.mem_of_mem_take (List.getElem_mem hi))
  exact ⟨fun _ hcode => (nomatch hcode), fun hcounter => (nomatch hb.symm.trans hcounter)⟩

theorem retry {h : List Step} (hp : p.Carried h) : p.retry.Carried h := by
  refine ⟨hp.version, hp.kind, hp.known, fun hearly x hx => ?_⟩
  obtain ⟨y, hy, rfl⟩ := List.mem_map.mp hx
  exact (hp.items hearly y hy).of_same rfl rfl

variable [ManagedObject Obj]

/-- One pass over a request adds to its history what vouches for the items. -/
theorem of_yields (hservices : a.services = Agent.standardServices) (hapt : p.request.Apt p.request.requester callable)
    (hr : r.Apt p.request.requester callable) (hrested : Set.Rested a p (s.history p.request.transaction))
    (hp : p.Carried (s.history p.request.transaction))
    (hpass : (a.pass p).Yields (Aside p.request.transaction) s (some (r, error)) t) :
    Carried { p with request := r } (t.history p.request.transaction) := by
  obtain ⟨hwho, hstatus, hitems⟩ := p.request.begin_same
  have hkind : p.request.pdu.kind = p.message.pdu.kind := hapt.kind.trans hp.kind
  have htx : p.request.begin.requester.transaction = p.request.transaction := congrArg Requester.transaction hwho
  have hfit (hearly : p.message.Early) : Trusts p.message.pdu.kind p.request.transaction p.request.begin.items s := by
    refine ⟨trivial, fun x hx => ?_⟩
    obtain ⟨y, hy, hstatus, hvalue⟩ := hitems x hx
    exact (hp.items hearly y hy).of_same hstatus hvalue
  have hread (hearly : p.message.Early) {service : Service Obj}
      (hservice : a.serviceFor? p.request.pdu.kind = some service)
      (hrun : (service.run a.policy p.registry p.request).Ensures (Aside p.request.transaction) (fun _ => True) s
        fun out t => Read (fun _ => True) (fun x u => x.Vouched p.message.pdu.kind (u.history p.request.transaction))
          p.request.begin out.1 t) :
      (∀ c, r.status ≠ .unknown c) ∧
        ∀ x ∈ r.items, x.Vouched p.message.pdu.kind (t.history p.request.transaction) := by
    rw [Agent.pass, hservice] at hpass
    have hread := hrun.of_yields_before hpass
    obtain ⟨items, bulkDone, hsame⟩ := hread.same
    refine ⟨?_, hread.fit.items⟩
    rw [congrArg Request.status hsame]
    exact hstatus ▸ hp.known hearly
  have hall (hearly : p.message.Early) : (∀ c, r.status ≠ .unknown c) ∧
      ∀ x ∈ r.items, x.Vouched p.message.pdu.kind (t.history p.request.transaction) := by
    have hversion : p.request.begin.requester.version = .v1 :=
      (congrArg Requester.version hwho).trans (hp.version.trans hearly.version)
    rcases hearly.kind with hget | hnext | hset
    · have hservice : a.serviceFor? p.request.pdu.kind = some Get.service := by
        rw [Agent.serviceFor?, hservices, hkind, hget]
        rfl
      refine hread hearly hservice (Get.run_ensures (fun x xs u hx hu => ?_) (hfit hearly))
      exact htx ▸ Get.serve_tends hversion a.policy p.registry x xs u hx (htx.symm ▸ hu)
    · have hservice : a.serviceFor? p.request.pdu.kind = some Next.service := by
        rw [Agent.serviceFor?, hservices, hkind, hnext]
        rfl
      refine hread hearly hservice (Next.run_ensures (fun x xs u _ hu => ?_) (hfit hearly))
      exact htx ▸ Next.serve_trusts hversion a.policy p.registry _ x xs u (htx.symm ▸ hu)
    · obtain ⟨w, -⟩ := hrested.1 (hkind.trans hset)
      have hturns := (Set.driven_of_yields hservices (hkind.trans hset) w (hrested.2 (hkind.trans hset)) hpass).turns
      have hstatus := (Set.Turns.writes hturns w).status
      have hvouched := Set.Turns.vouched (fun _ _ => id) hturns (hset ▸ hp.items hearly)
      refine ⟨fun c hc => ?_, hset ▸ hvouched⟩
      dsimp only at hstatus
      rw [hc] at hstatus
      cases hstatus
  exact ⟨(congrArg Requester.version hr.requester).trans hp.version,
    (congrArg Requester.kind hr.requester).trans hp.kind, fun hearly => (hall hearly).1, fun hearly => (hall hearly).2⟩

end Pending.Carried

section Answers
variable {Obj : Type} {a : Agent Obj} {p : Pending} {s t : State Obj} {r : Request} {m : Inbound}

namespace Agent

theorem sent_send (m : Inbound) (pdu : Pdu) (bulk : Bool) (s : State Obj) :
    (a.send m pdu bulk s).2.sent = s.sent ∨ ∃ pdu', Reply.fit? pdu bulk m.maxSize = some pdu' ∧
      (a.send m pdu bulk s).2.sent = s.sent ++ [.replyTo m pdu'] := by
  unfold send
  split
  · exact Or.inl rfl
  · next pdu' hfit =>
    split
    · exact Or.inl rfl
    · exact Or.inr ⟨pdu', hfit, rfl⟩

/-- What is handed over for a request of the first version that has ended. -/
theorem fit_finish (hversion : m.version = .v1) (r : Request) (registry : Option Nat) (s : State Obj) :
    s.Hands (fun out => Reply.fit? (Reply.forV1 r.toResponse) (r.pdu.kind == .getBulk) m.maxSize = some out.pdu)
      (a.finish r m registry s).2 := by
  let removed : State Obj := { s with outstanding := s.outstanding.remove r.transaction }
  have hsend (t : State Obj) (ht : t.sent = s.sent) : s.Hands
      (fun out => Reply.fit? (Reply.forV1 r.toResponse) (r.pdu.kind == .getBulk) m.maxSize = some out.pdu)
      (a.send m (Reply.forV1 r.toResponse) (r.pdu.kind == .getBulk) t).2 := by
    rcases sent_send (a := a) m (Reply.forV1 r.toResponse) (r.pdu.kind == .getBulk) t with hsame | ⟨pdu, hfit, hsent⟩
    · exact .of_sent (hsame.trans ht)
    · exact ⟨[.replyTo m pdu], ht ▸ hsent, List.forall_mem_singleton.mpr hfit⟩
  unfold finish
  simp only [if_pos hversion]
  refine hsend _ ?_
  cases registry with
  | none => rfl
  | some registry =>
    have hsent := State.sent_eq_of_bare (removed.bare_releaseLocks registry r.transaction)
    exact hsent

/-- An early requester can read what is handed over for its request when that has ended, if its items are vouched
for. -/
theorem legible_finish (hearly : m.Early) (hkind : r.pdu.kind = m.pdu.kind) (hstatus : ∀ c, r.status ≠ .unknown c)
    {h : List Step} (hitems : ∀ x ∈ r.items, x.Vouched m.pdu.kind h) (registry : Option Nat) (s : State Obj) :
    s.Hands (fun out => Reply.Legible m.pdu.kind h out.pdu) (a.finish r m registry s).2 := by
  have hbulk : (r.pdu.kind == .getBulk) = false := by
    rw [hkind]
    rcases hearly.kind with hget | hnext | hset <;> simp [*]
  refine (fit_finish hearly.version r registry s).mono fun out hfit => ?_
  rw [hbulk] at hfit
  exact (Reply.legible_forV1 hstatus hitems).fit hfit

end Agent

variable [ManagedObject Obj] {s₀ : State Obj} {mapping : Option Mapping} {rely : State Obj → State Obj → Prop}

theorem upholds_carried (hservices : a.services = Agent.standardServices) :
    a.Upholds (fun p h => Set.Rested a p h ∧ p.Carried h) (fun p h => Set.Attended a p h ∧ p.Carried h) where
  start m mapping s registry :=
    ⟨(Set.upholds_attended hservices).start m mapping s registry, .start a m mapping s registry⟩
  retry p h hp := ⟨(Set.upholds_attended hservices).retry p h hp.1, hp.2.retry⟩
  pass hp hr hready hpass hopen := ⟨(Set.upholds_attended hservices).pass hp hr hready.1 hpass hopen,
    hready.2.of_yields hservices hp hr hready.1 hpass⟩

/-- The answer to a request after a pass over it. -/
theorem Agent.Pursues.legible (hservices : a.services = Agent.standardServices) (hearly : m.Early)
    (hfresh : s₀.history ⟨s₀.transactions⟩ = []) (hrely : ∀ s t, rely s t → Aside ⟨s₀.transactions⟩ s t)
    (h : a.Pursues rely m mapping s₀ p s) {out : Option (Request × Option Error)}
    (hpass : (a.pass p).Yields rely s out t) :
    t.Hands (fun reply => Reply.Legible m.pdu.kind ((a.conclude p out t).2.history ⟨s₀.transactions⟩) reply.pdu)
      (a.conclude p out t).2 := by
  obtain ⟨rfl, -, hapt⟩ := h.made hservices
  have hid := h.transaction_eq hservices
  rcases out with _ | ⟨r, _ | error⟩
  · exact .of_sent (Agent.sent_drop t _ _)
  · by_cases hcomplete : r.isComplete = true
    · have hready := h.upheld hservices (upholds_carried hservices) hfresh hrely
      have hr := Agent.pass_apt hservices hapt hpass
      rw [← hid] at hrely hready ⊢
      have hcarried := hready.2.of_yields hservices hapt hr hready.1 (hpass.mono hrely)
      have hquits := Agent.quits_finish (a := a) (congrArg Requester.transaction hr.requester) p.message t
      simp only [Agent.conclude, if_pos hcomplete]
      rw [State.history_congr hquits.clears.journal]
      exact Agent.legible_finish hearly (hr.kind.trans hready.2.kind) (hcarried.known hearly) (hcarried.items hearly)
        _ t
    · simp only [Agent.conclude, if_neg hcomplete]
      exact .of_sent (Agent.sent_park _ t)
  · exact .of_sent (Agent.sent_drop t _ _)

/-- The answer to a message that is refused. -/
theorem legible_of_refused (hservices : a.services = Agent.standardServices) {result : Except Error Unit}
    (htakeOn : a.takeOn m mapping s = (.inl result, t)) (hearly : m.Early) :
    s.Hands (fun out => Reply.Legible m.pdu.kind [] out.pdu) t := by
  have hcarried := Pending.Carried.start a m mapping s 0
  have hfinish {status : Status} (hstatus : ∀ c, status ≠ .unknown c)
      (h : Agent.ended (a.finish ((a.draft m mapping s).fail status) m none (Agent.opened s)) = (.inl result, t)) :
      s.Hands (fun out => Reply.Legible m.pdu.kind [] out.pdu) t := by
    obtain ⟨-, rfl⟩ := Prod.mk.inj h
    have hkind : ((a.draft m mapping s).fail status).pdu.kind = m.pdu.kind := by
      unfold Request.fail
      split <;> rfl
    have hopened : s.Hands (fun out => Reply.Legible m.pdu.kind [] out.pdu) (Agent.opened s) := .of_sent rfl
    refine hopened.trans (Agent.legible_finish hearly hkind (fun c => ?_) (fun x hx => ?_) none _)
    · unfold Request.fail
      split
      · exact hstatus c
      · exact hcarried.known hearly c
    · obtain ⟨y, hy, rfl⟩ := List.mem_map.mp hx
      refine Item.Vouched.finish ?_
      have hitems := hcarried.items hearly
      dsimp only at hitems
      split at hy
      · next hnil =>
        rw [hnil] at hy
        cases hy
      · next first rest hcons =>
        rw [hcons] at hitems
        rcases List.mem_cons.mp hy with rfl | hy
        · exact (hitems first List.mem_cons_self).setError hstatus
        · exact hitems y (List.mem_cons_of_mem _ hy)
  have hserved : ¬(a.serviceFor? m.pdu.kind).isNone = true := by
    rw [Agent.serviceFor?, hservices]
    rcases hearly.kind with hkind | hkind | hkind <;> rw [hkind] <;> exact Bool.false_ne_true
  unfold Agent.takeOn at htakeOn
  rw [if_neg hserved] at htakeOn
  split at htakeOn
  · exact hfinish (by simp) htakeOn
  · split at htakeOn
    · exact hfinish (by simp) htakeOn
    · cases htakeOn

/-- Answers to the first version are what it can carry. Take an agent with the standard services, and a message that
asks to read, search or write by the first version, with no counter of 64 bits of its own. If the message is refused at
once, or if a request is made for it and driven, whatever the objects do, whatever the others do while the request
waits, as long as they leave its history alone, and however many passes there have been: nothing is handed over for it
but an answer that has a status from zero to five unless an object reported one without a meaning, markers behind the
first one only, which is replaced and reported as a missing name, and a counter only where an object left it in a call
that failed, or for a request that writes. -/
theorem legible_of_pursues (hservices : a.services = Agent.standardServices) (hearly : m.Early)
    (hfresh : s₀.history ⟨s₀.transactions⟩ = []) :
    (∀ result t, a.takeOn m mapping s₀ = (.inl result, t) →
      s₀.Hands (fun out => Reply.Legible m.pdu.kind [] out.pdu) t) ∧
    ∀ rely : State Obj → State Obj → Prop, (∀ s t, rely s t → Aside ⟨s₀.transactions⟩ s t) →
      ∀ p s, a.Pursues rely m mapping s₀ p s → ∀ result t, (a.drive p).Yields rely s result t →
        ∃ u, (∀ theirs : Outbound → Prop, (∀ s t, rely s t → s.Hands theirs t) → s₀.Hands theirs u) ∧
          u.Hands (fun out => Reply.Legible m.pdu.kind (t.history ⟨s₀.transactions⟩) out.pdu) t := by
  refine ⟨fun result t htakeOn => legible_of_refused hservices htakeOn hearly,
    fun rely hrely p s h result t hdrive => ?_⟩
  rw [Agent.drive_eq] at hdrive
  obtain ⟨out, u, hpass, hlast⟩ := Progress.Yields.of_bind hdrive
  obtain ⟨-, rfl⟩ := Progress.yields_done.mp hlast
  refine ⟨u, fun theirs htheirs => ?_, h.legible hservices hearly hfresh hrely hpass⟩
  exact Agent.pass_hands hservices (h.made hservices).2.2 hpass htheirs (h.hands hservices htheirs)

end Answers

/-- Somebody asks for variables by the first version of the protocol. -/
def earlyInquiry (oids : List Oid) : Inbound := .ofCommunity .v1 [112] Set.writer.peer (.asking .get 1 oids)

/-- One variable is there, and another one is not. -/
theorem legible_of_inquiry :
    let clerk : Agent Instrument := { Agent.plain with settings := { maxConcurrent := 4 } }
    let m := earlyInquiry [⟨[1, 3, 1, 1]⟩, ⟨[1, 3, 9]⟩]
    ∃ p t, m.Early ∧ clerk.Pursues (Aside ⟨0⟩) m none vault p (Agent.opened vault) ∧
      (clerk.drive p).Yields (Aside ⟨0⟩) (Agent.opened vault) (.ok ()) t ∧
      t.sent.map Outbound.pdu = [⟨.response, 1, 2, 2, [⟨⟨[1, 3, 1, 1]⟩, .integer 1⟩, ⟨⟨[1, 3, 9]⟩, .null⟩]⟩] ∧
      ∃ u, (∀ theirs : Outbound → Prop, (∀ s t : State Instrument, Aside ⟨0⟩ s t → s.Hands theirs t) →
          vault.Hands theirs u) ∧
        u.Hands (fun out => Reply.Legible m.pdu.kind (t.history ⟨0⟩) out.pdu) t := by
  intro clerk m
  have hearly : m.Early := ⟨rfl, Or.inl rfl, by decide⟩
  have hrun : ((clerk.takeOn m none vault).1.getRight?.bind fun p =>
      (clerk.drive p (Agent.opened vault)).result?.map fun x => (p, x)).any (fun y => decide (y.2.1 = .ok ()) &&
        decide (y.2.2.sent.map Outbound.pdu =
          [⟨.response, 1, 2, 2, [⟨⟨[1, 3, 1, 1]⟩, .integer 1⟩, ⟨⟨[1, 3, 9]⟩, .null⟩]⟩])) = true := by
    decide +kernel
  rw [Option.any_eq_true] at hrun
  obtain ⟨⟨p, result, t⟩, hrun, htest⟩ := hrun
  simp only [Bool.and_eq_true, decide_eq_true_eq] at htest
  obtain ⟨rfl, hsent⟩ := htest
  obtain ⟨_, htaken, hrun⟩ := Option.bind_eq_some_iff.mp hrun
  obtain ⟨_, hdrive, heq⟩ := Option.map_eq_some_iff.mp hrun
  cases heq
  have hpursued : clerk.Pursues (Aside ⟨0⟩) m none vault p (Agent.opened vault) :=
    .first (Agent.takeOn_of_getRight? htaken)
  have hyields : (clerk.drive p).Yields (Aside ⟨0⟩) (Agent.opened vault) (.ok ()) t :=
    Activity.yields_of_result? hdrive
  have hfresh : vault.history ⟨vault.transactions⟩ = [] := rfl
  have hlegible := (legible_of_pursues rfl hearly hfresh).2 (Aside ⟨0⟩) (fun _ _ => id) p _ hpursued _ t hyields
  exact ⟨p, t, hearly, hpursued, hyields, hsent, hlegible⟩

/-- Two variables that are not there. The second one is answered with a marker. -/
theorem illegible_of_inquiry :
    let cellar : Schedule Instrument := ⟨vault, 100, [], [], [], 0, ⟨0⟩⟩
    let clerk : Agent Instrument := { Agent.plain with settings := { maxConcurrent := 0 } }
    let m := earlyInquiry [⟨[1, 3, 8]⟩, ⟨[1, 3, 9]⟩]
    m.Early ∧ (clerk.submit 100 m cellar).2.state.sent.map Outbound.pdu =
      [⟨.response, 1, 2, 1, [⟨⟨[1, 3, 8]⟩, .null⟩, ⟨⟨[1, 3, 9]⟩, .noSuchObject⟩]⟩] := by
  intro cellar clerk m
  exact ⟨⟨rfl, Or.inl rfl, by decide⟩, by decide +kernel⟩

end Responder
