import Responder.Agent.Submission
import Responder.Proofs.Mediation.Writing

/-! What an agent with the standard services does about messages keeps what a run has to keep. A message is served
    only for somebody who is vouched for (`vouches_of_accepts`), and his request stays licensed through every pass
    (`drive_keeps`), also when it is parked and taken up again. Nothing else that an agent does touches the objects
    or the journal (`Undisturbed`). -/

namespace Responder

variable {Obj : Type}

/-! ### What is told to others -/

/-- Nothing has happened but that something was sent, counted or noted. -/
def State.Told (s t : State Obj) : Prop := ∃ counters sent trace, t = { s with counters, sent, trace }

section Told
variable {s t u : State Obj}

theorem State.Told.refl (s : State Obj) : s.Told s := ⟨s.counters, s.sent, s.trace, rfl⟩

theorem State.Told.trans (h : s.Told t) (h' : t.Told u) : s.Told u := by
  obtain ⟨_, _, _, rfl⟩ := h
  obtain ⟨_, _, _, rfl⟩ := h'
  exact ⟨_, _, _, rfl⟩

theorem State.told_count (s : State Obj) (counter : Counter) : s.Told (s.count counter).2 := ⟨_, s.sent, s.trace, rfl⟩

theorem State.told_note (s : State Obj) (event : Event) : s.Told (s.note event) := ⟨s.counters, s.sent, _, rfl⟩

namespace Agent

variable (a : Agent Obj)

theorem told_send (m : Inbound) (pdu : Pdu) (bulk : Bool) (s : State Obj) : s.Told (a.send m pdu bulk s).2 := by
  unfold send
  split
  · exact s.told_count _
  · split
    · exact .refl s
    · exact ⟨s.counters, _, s.trace, rfl⟩

theorem told_forward (m : Inbound) (mapping : Option Mapping) (engine : Octets) (s : State Obj) :
    s.Told (a.forward m mapping engine s).2 := by
  unfold forward
  split
  · exact s.told_count _
  · split
    · exact s.told_count _
    · next forwarder requestClass _ =>
      have hnoted := s.told_note (.relay forwarder.name ⟨m, mapping, engine, requestClass⟩)
      dsimp only
      split
      · exact hnoted.trans (a.told_send _ _ _ _)
      · split
        · exact hnoted
        · have hcounted := hnoted.trans (State.told_count _ .proxyDrops)
          split
          · exact hcounted.trans (a.told_send _ _ _ _)
          · exact hcounted

theorem told_receive (m : Inbound) (s : State Obj) : s.Told (a.receive m s).2 := by
  have hgo (mapping : Option Mapping) : s.Told (let m := limited m mapping
      let engine := (mapping.map Mapping.engine).getD m.engine
      if a.settings.isOwnEngine engine then (Course.serve m mapping, s)
      else (.ended (a.forward m mapping engine s).1, (a.forward m mapping engine s).2)).2 := by
    dsimp only
    split
    · exact .refl s
    · exact a.told_forward _ _ _ _
  unfold receive
  split
  · exact .refl s
  · dsimp only
    split
    · exact s.told_count _
    · exact hgo none
    · exact hgo _

theorem told_refuse (m : Inbound) (s : State Obj) : s.Told (a.refuse m s).2 := by
  have hcounted := s.told_count .unknownPduHandlers
  unfold refuse
  dsimp only
  split
  · exact hcounted
  · exact hcounted.trans (a.told_send _ _ _ _)

end Agent
end Told

namespace Charter

/-! ### What disturbs nothing -/

section Undisturbed
variable {s t : State Obj} {a : Agent Obj}

theorem undisturbed_of_told (h : s.Told t) : Undisturbed s t := by
  obtain ⟨counters, sent, trace, rfl⟩ := h
  exact ⟨rfl, rfl, fun _ => rfl, fun x hx _ hp => ⟨x, hx, hp⟩⟩

theorem undisturbed_outstanding {outstanding : Outstanding Pending}
    (h : ∀ x ∈ outstanding.entries, ∀ p, x.parked = some p → ∃ y ∈ s.outstanding.entries, y.parked = some p) :
    Undisturbed s { s with outstanding } := ⟨rfl, rfl, fun _ => rfl, h⟩

theorem undisturbed_remove (s : State Obj) (id : TransactionId) :
    Undisturbed s { s with outstanding := s.outstanding.remove id } :=
  undisturbed_outstanding fun x hx _ hp => ⟨x, (List.mem_filter.mp hx).1, hp⟩

theorem undisturbed_track (s : State Obj) (id : TransactionId) (now : Instant) :
    Undisturbed s { s with outstanding := s.outstanding.track id now } := by
  refine undisturbed_outstanding fun x hx p hp => ?_
  rcases List.mem_append.mp hx with hx | hx
  · exact ⟨x, (List.mem_filter.mp hx).1, hp⟩
  · rw [List.mem_singleton.mp hx] at hp
    cases hp

theorem undisturbed_releaseLocks (s : State Obj) (registry : Nat) (id : TransactionId) :
    Undisturbed s (s.releaseLocks registry id).2 := undisturbed_of_bare (s.bare_releaseLocks registry id)

theorem undisturbed_send (m : Inbound) (pdu : Pdu) (bulk : Bool) (s : State Obj) :
    Undisturbed s (a.send m pdu bulk s).2 := undisturbed_of_told (a.told_send m pdu bulk s)

theorem undisturbed_finish (r : Request) (m : Inbound) (registry : Option Nat) (s : State Obj) :
    Undisturbed s (a.finish r m registry s).2 := by
  have hremoved := undisturbed_remove s r.transaction
  cases registry with
  | none => exact hremoved.trans (undisturbed_send _ _ _ _)
  | some registry => exact (hremoved.trans (undisturbed_releaseLocks _ registry _)).trans (undisturbed_send _ _ _ _)

theorem undisturbed_drop (registry : Nat) (id : TransactionId) (s : State Obj) :
    Undisturbed s (Agent.drop registry id s) := (undisturbed_releaseLocks s registry id).trans (undisturbed_remove _ id)

theorem undisturbed_receive (m : Inbound) (s : State Obj) : Undisturbed s (a.receive m s).2 :=
  undisturbed_of_told (a.told_receive m s)

theorem undisturbed_refuse (m : Inbound) (s : State Obj) : Undisturbed s (a.refuse m s).2 :=
  undisturbed_of_told (a.told_refuse m s)

theorem undisturbed_expire (s : State Obj) : Undisturbed s (Agent.expire s).2 :=
  (undisturbed_outstanding fun x hx _ hp => ⟨x, (List.mem_filter.mp hx).1, hp⟩).trans
    (undisturbed_of_bare (Agent.bare_expire s))

end Undisturbed

/-! ### Requests -/

section Requests
variable {C : Charter Obj} {registry : Nat} {m : Inbound} {r : Request}

/-- A message that is served is vouched for, once access control has given a view. -/
theorem vouches_of_accepts {a : Agent Obj} {m₀ m : Inbound} {mapping : Option Mapping} (h : a.Accepts m₀ m mapping)
    {view : Option Octets} {transaction : TransactionId}
    (hview : (a.access.map fun tables => Agent.viewFor? tables (Agent.requester m mapping transaction)) =
      view.map some) :
    m.pdu = m₀.pdu ∧ a.Vouches m₀ { Agent.requester m mapping transaction with view } := by
  obtain ⟨maxSize, rfl⟩ : ∃ maxSize, m = { m₀ with maxSize } := by
    rw [← h.limited]
    unfold Agent.limited
    split <;> exact ⟨_, rfl⟩
  have hadmission := h.admission
  unfold Agent.admission at hadmission
  refine ⟨rfl, h.kind, ⟨rfl, rfl, rfl, rfl, rfl⟩, fun communities hcommunities hcommunity => ?_, fun hdirect => ?_, ?_,
    fun tables htables => ?_⟩
  · simp only [hcommunity, hcommunities, Bool.not_true, Bool.false_eq_true, if_false] at hadmission
    split at hadmission
    · next found hfound =>
      cases mapping with
      | none => cases hadmission
      | some mapping =>
        cases hadmission
        exact ⟨_, hfound, rfl, rfl, rfl⟩
    · cases mapping <;> cases hadmission
  · have hnone : mapping = none := by
      cases mapping with
      | none => rfl
      | some mapping =>
        rcases hdirect with hdirect | hdirect
        · simp only [hdirect, ite_self, reduceCtorEq] at hadmission
        · simp only [hdirect, Bool.not_false, if_true, reduceCtorEq] at hadmission
    subst hnone
    exact ⟨rfl, rfl, rfl⟩
  · exact h.engine
  · rw [htables, Option.map_some] at hview
    obtain ⟨name, rfl, hname⟩ := Option.map_eq_some_iff.mp hview.symm
    exact ⟨name, rfl, hname.symm⟩

theorem serves_start {who : Requester} (hm : C.submitted m) (hvouched : C.agent.Vouches m who) (registry maxSize : Nat)
    (created : Instant) : C.Serves registry m (.start who m.pdu maxSize created) := by
  have hasked {x : Item} (hsearch : m.pdu.kind.isSearch = false)
      (hx : x ∈ (Request.start who m.pdu maxSize created).items) : Asked m.pdu who.context x ∧
        x.prepared = false ∧ x.target = none ∧ x.oid = x.region.lower := by
    obtain ⟨i, hi, rfl⟩ := List.mem_mapIdx.mp hx
    rw [List.getElem_take]
    have hlt : i < m.pdu.bindings.length := Nat.lt_of_lt_of_le hi (List.length_take_le' _ _)
    have hregion : Request.regionOf m.pdu who.context m.pdu.bindings[i].oid =
        (Region.point m.pdu.bindings[i].oid).inContext (some who.context) := by
      rw [Request.regionOf, hsearch]
      rfl
    exact ⟨⟨_, List.getElem?_eq_getElem hlt, hregion⟩, rfl, rfl, (congrArg (fun r : Region => r.lower) hregion).symm⟩
  refine ⟨hm, hvouched, rfl, fun _ => Or.inl rfl, fun hget x hx => (hasked (by simp [hget, Pdu.Kind.isSearch]) hx).1,
    fun hset => ⟨rfl, by simp [Request.start], fun x hx => ?_, by simp [Request.start], by simp [Request.start]⟩⟩
  obtain ⟨hx, hprepared, htarget, hoid⟩ := hasked (by simp [hset, Pdu.Kind.isSearch]) hx
  exact ⟨hx, by simp [htarget], fun _ _ _ _ => hoid, by simp [hprepared, htarget]⟩

variable [ManagedObject Obj] [Store.Among Obj]

/-- One pass of a standard service. -/
theorem pass_ensures (hC : C.Sound) {service : Service Obj} (hservice : service ∈ Agent.standardServices)
    (h : C.Serves registry m r) (hserves : service.serves m.pdu.kind = true)
    (hrested : r.phase = .start ∨ ∀ x ∈ r.items, x.deferred = false) {s : State Obj} (hs : C.Upheld s) :
    (service.run C.agent.policy registry r).Ensures (fun _ => C.Upheld) C.Upheld s fun out t =>
      C.Upheld t ∧ C.Serves registry m out.1 := by
  have hsplit : service ∈ [Get.service, Next.service, Bulk.service] ∨ service = Set.service := by
    simpa [Agent.standardServices, or_assoc] using hservice
  rcases hsplit with hreads | rfl
  · exact read_ensures hreads h hserves hs
  · exact write_ensures hC (eq_of_beq hserves) h hrested hs

theorem upheld_park {p : Pending} {s : State Obj} (h : C.Serves p.registry m p.request) (hs : C.Upheld s) :
    C.Upheld (Agent.park p s) := by
  unfold Agent.park
  split
  · next outstanding hparked =>
    have houtstanding := Option.some.inj (Option.ite_none_right_eq_some.mp hparked).2
    refine ⟨hs.objects, hs.entries, hs.mediated, hs.stores, hs.confined, fun x hx q hq => ?_⟩
    rw [← houtstanding] at hx
    obtain ⟨y, hy, rfl⟩ := List.mem_map.mp hx
    split at hq
    · obtain rfl := Option.some.inj hq
      exact ⟨m, h⟩
    · exact hs.parked y hy q hq
  · exact hs.undisturbed (undisturbed_releaseLocks s _ _)

/-- One pass over a request, and what becomes of the request after it. -/
theorem drive_keeps (hC : C.Sound) (hservices : C.agent.services = Agent.standardServices) {p : Pending}
    (h : C.Serves p.registry m p.request)
    (hrested : p.request.phase = .start ∨ ∀ x ∈ p.request.items, x.deferred = false) :
    Keeps C.Upheld (C.agent.drive p) := by
  intro s hs
  have hmeanwhile (s t : State Obj) (_ : C.Upheld s) (ht : C.Upheld t) : C.Upheld t := ht
  have hbefore {pass : Doing Obj (Request × Option Error)} (hpass : pass.Ensures (fun _ => C.Upheld) C.Upheld s
      fun out t => C.Upheld t ∧ C.Serves p.registry m out.1) :=
    Activity.ensures_before hmeanwhile hpass (C.agent.expiry p.request)
  have hdropped {t : State Obj} (ht : C.Upheld t) : C.Upheld (Agent.drop p.registry p.request.transaction t) :=
    ht.undisturbed (undisturbed_drop _ _ t)
  show (C.agent.drive p).Ensures (fun _ => C.Upheld) C.Upheld s fun _ => C.Upheld
  simp only [Agent.drive, Activity.ensures_bind]
  refine (hbefore ?_).mono (fun _ => id) fun result t ht => ?_
  · split
    · next service hservice =>
      have hserves := List.find?_some hservice
      have hmem := List.mem_of_find?_eq_some hservice
      rw [hservices] at hmem
      exact pass_ensures hC hmem h (h.pdu ▸ hserves) hrested hs
    · exact ⟨hs, h⟩
  · rcases result with _ | ⟨r, _ | error⟩
    · exact hdropped ht
    · obtain ⟨ht, hr⟩ := ht
      dsimp only
      split
      · exact ht.undisturbed (undisturbed_finish r p.message (some p.registry) t)
      · exact upheld_park (p := { p with request := r }) hr ht
    · exact hdropped ht.1

/-! ### Messages -/

theorem finish_keeps (r : Request) (m : Inbound) (registry : Option Nat) :
    Keeps C.Upheld (modifyGet (C.agent.finish r m registry) : Doing Obj (Except Error Unit)) :=
  fun s hs => hs.undisturbed (undisturbed_finish r m registry s)

/-- A message that is for this engine. -/
theorem serve_keeps (hC : C.Sound) (hservices : C.agent.services = Agent.standardServices) {m₀ m : Inbound}
    {mapping : Option Mapping} (hm : C.submitted m₀) (haccepts : C.agent.Accepts m₀ m mapping) :
    Keeps C.Upheld (C.agent.serve m mapping) := by
  intro s hs
  show (C.agent.serve m mapping).Ensures (fun _ => C.Upheld) C.Upheld s fun _ => C.Upheld
  unfold Agent.serve
  split
  · exact hs.undisturbed (undisturbed_refuse m s)
  · simp only [Activity.ensures_bind, Activity.ensures_modifyGet, Activity.ensures_get, Activity.ensures_set,
      State.newTransaction]
    have hopened : C.Upheld { s with
        transactions := s.transactions + 1, outstanding := s.outstanding.track ⟨s.transactions⟩ s.now } :=
      hs.undisturbed (undisturbed_track s _ s.now |>.trans ⟨rfl, rfl, fun _ => rfl, fun x hx _ hp => ⟨x, hx, hp⟩⟩)
    by_cases hgranted : (C.agent.access.map fun tables =>
        Agent.viewFor? tables (Agent.requester m mapping ⟨s.transactions⟩)) = some none
    · simp only [hgranted, if_true]
      exact finish_keeps _ _ _ _ hopened
    · simp only [hgranted, if_false]
      split
      · exact finish_keeps _ _ _ _ hopened
      · next registry _ =>
        have hgiven {view : Option (Option Octets)} (hview : view ≠ some none) : view = view.join.map some := by
          rcases view with _ | _ | name
          · rfl
          · exact absurd rfl hview
          · rfl
        obtain ⟨hpdu, hvouched⟩ := vouches_of_accepts haccepts (hgiven hgranted)
        have hserves := serves_start hm hvouched registry m.maxSize s.now
        rw [← hpdu] at hserves
        exact drive_keeps (p := ⟨_, m, registry⟩) hC hservices hserves (Or.inl rfl) _ hopened

/-- A message, up to where it would be served. -/
theorem receive_upheld {m : Inbound} {s : State Obj} (hs : C.Upheld s) :
    C.Upheld (C.agent.receive m s).2 := hs.undisturbed (undisturbed_receive m s)

theorem process_keeps (hC : C.Sound) (hservices : C.agent.services = Agent.standardServices) (hm : C.submitted m) :
    Keeps C.Upheld (C.agent.process m) := by
  intro s hs
  show (C.agent.process m).Ensures (fun _ => C.Upheld) C.Upheld s fun _ => C.Upheld
  have hreceived := receive_upheld (m := m) hs
  simp only [Agent.process, Activity.ensures_bind, Activity.ensures_modifyGet]
  split
  · exact hreceived
  · next m' mapping hserve =>
    obtain ⟨haccepts, -⟩ := Agent.receive_eq_serve_iff.mp (Prod.ext hserve rfl)
    exact serve_keeps hC hservices hm haccepts _ hreceived

theorem driveAll_keeps (hC : C.Sound) (hservices : C.agent.services = Agent.standardServices) :
    ∀ parked : List (TransactionId × Pending), (∀ x ∈ parked, ∃ m, C.Serves x.2.registry m x.2.request) →
      Keeps C.Upheld (C.agent.driveAll parked)
  | [], _ => Keeps.pure _
  | (_, p) :: rest, h => by
    obtain ⟨⟨m, hp⟩, hrest⟩ := List.forall_mem_cons.mp h
    have hrested : ∀ x ∈ p.request.retry.items, x.deferred = false := List.forall_mem_map.mpr fun _ _ => rfl
    refine Keeps.bind (drive_keeps (p := { p with request := p.request.retry }) hC hservices hp.retry (Or.inr hrested))
      fun result => Keeps.bind (driveAll_keeps hC hservices rest hrest) fun later => ?_
    cases result <;> exact Keeps.pure _

/-- The requests that are parked are taken up again. -/
theorem takeUp_keeps (hC : C.Sound) (hservices : C.agent.services = Agent.standardServices) :
    Keeps C.Upheld C.agent.takeUp := by
  intro s hs
  have hparked : ∀ x ∈ s.outstanding.takeParked.1, ∃ m, C.Serves x.2.registry m x.2.request := by
    rintro ⟨id, p⟩ hx
    rw [Outstanding.takeParked, List.mem_mergeSort, List.mem_filterMap] at hx
    obtain ⟨x, hx, hp⟩ := hx
    obtain ⟨p', hp', heq⟩ := Option.map_eq_some_iff.mp hp
    obtain ⟨-, rfl⟩ := Prod.mk.inj heq
    exact hs.parked x hx p' hp'
  have htaken : C.Upheld { s with outstanding := s.outstanding.takeParked.2 } := by
    refine hs.undisturbed (undisturbed_outstanding fun x hx p hp => ?_)
    obtain ⟨y, -, rfl⟩ := List.mem_map.mp hx
    cases hp
  show C.agent.takeUp.Ensures (fun _ => C.Upheld) C.Upheld s fun _ => C.Upheld
  simp only [Agent.takeUp, Activity.ensures_bind, Activity.ensures_modifyGet]
  refine Progress.Ensures.mono (driveAll_keeps hC hservices _ hparked _ htaken) (fun _ => id) fun result t ht => ?_
  cases result <;> exact ht

end Requests

end Charter
end Responder
