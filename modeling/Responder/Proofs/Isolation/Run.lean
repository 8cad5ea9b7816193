import Responder.Proofs.Drive
import Responder.Proofs.Isolation.Schedule
import Responder.Proofs.Mediation.Run
import Responder.Proofs.Registration

/-! Contexts are isolated from each other. Agents whose registries differ in nothing that a context sees do the same
    about messages for that context, whatever else happens to them: they send the same answers, leave the same objects,
    and call no object that is only registered under other contexts (`isolated_of_deeds`). All that happens is blind,
    because the requests that are served, now or after they were parked, are the context's own (`Secluded`). -/

namespace Responder

variable {Obj : Type} {c : ContextName}

/-- The object is registered in a registry for the context, or for all contexts. -/
def State.Exposes (s : State Obj) (c : ContextName) (number : Nat) (object : ObjectId) : Prop :=
  ∃ e ∈ (s.registry number).entries, e.object = object ∧ e.region.seenIn c = true

/-- A parked request is made in the context, and may go on with what its registry exposes there. -/
structure Pending.Within (s : State Obj) (c : ContextName) (p : Pending) : Prop where
  apt : p.request.Apt p.request.requester (s.Exposes c p.registry)
  context : p.request.requester.context = c

/-- What the requests of a context keep: nothing is registered, and only what is exposed to the context is called. -/
structure State.Secluded (s₀ : State Obj) (c : ContextName) (s : State Obj) : Prop where
  entries : ∀ number, (s.registry number).entries = (s₀.registry number).entries
  calls : ∀ st ∈ s.journal, ∀ id, st.object = some id → ∃ number, s₀.Exposes c number id
  parked : ∀ x ∈ s.outstanding.entries, ∀ p, x.parked = some p → p.Within s₀ c

/-- Where a message is served, it is served in the context. -/
def Agent.Addresses (a : Agent Obj) (m : Inbound) (c : ContextName) : Prop :=
  ∀ m' mapping, a.Accepts m m' mapping → (mapping.map Mapping.context).getD m'.context = c

/-- A user names the context of a message in it. -/
theorem Agent.addresses_of_user (a : Agent Obj) {m : Inbound} (h : m.version.isCommunityBased = false) :
    a.Addresses m m.context := by
  intro m' mapping haccepts
  have hadmission := haccepts.admission
  simp only [admission, h, Bool.not_false, if_true] at hadmission
  cases mapping with
  | none =>
    rw [← haccepts.limited]
    rfl
  | some mapping => cases hadmission

/-! ### What is done about requests is not about entries -/

namespace Agent

variable (a : Agent Obj) (s : State Obj)

theorem send_seenBy (m : Inbound) (pdu : Pdu) (bulk : Bool) :
    a.send m pdu bulk (s.seenBy c) = ((a.send m pdu bulk s).1, (a.send m pdu bulk s).2.seenBy c) := by
  unfold send
  split
  · rfl
  · split <;> rfl

theorem finish_seenBy (r : Request) (m : Inbound) (registry : Option Nat) :
    a.finish r m registry (s.seenBy c) = ((a.finish r m registry s).1, (a.finish r m registry s).2.seenBy c) := by
  have hremoved : ({ s.seenBy c with outstanding := (s.seenBy c).outstanding.remove r.transaction } : State Obj) =
    ({ s with outstanding := s.outstanding.remove r.transaction } : State Obj).seenBy c := rfl
  cases registry with
  | none => exact a.send_seenBy { s with outstanding := s.outstanding.remove r.transaction } _ _ _
  | some registry =>
    simp only [finish]
    rw [hremoved, State.releaseLocks_seenBy]
    exact a.send_seenBy _ _ _ _

theorem drop_seenBy (registry : Nat) (id : TransactionId) :
    drop registry id (s.seenBy c) = (drop registry id s).seenBy c := by
  simp only [drop]
  rw [State.releaseLocks_seenBy]
  rfl

theorem park_seenBy (p : Pending) : park p (s.seenBy c) = (park p s).seenBy c := by
  have houtstanding : (s.seenBy c).outstanding = s.outstanding := rfl
  unfold park
  rw [houtstanding]
  split
  · rfl
  · rw [State.releaseLocks_seenBy]

theorem refuse_seenBy (m : Inbound) : a.refuse m (s.seenBy c) = ((a.refuse m s).1, (a.refuse m s).2.seenBy c) := by
  unfold refuse
  dsimp only
  split
  · rfl
  · exact a.send_seenBy (s.count .unknownPduHandlers).2 _ _ _

theorem forward_seenBy (m : Inbound) (mapping : Option Mapping) (engine : Octets) :
    a.forward m mapping engine (s.seenBy c) =
      ((a.forward m mapping engine s).1, (a.forward m mapping engine s).2.seenBy c) := by
  have hroutes : (s.seenBy c).routes = s.routes := rfl
  unfold forward
  rw [hroutes]
  split
  · rfl
  · split
    · rfl
    · next forwarder requestClass _ =>
      let parcel : Proxy.Parcel := ⟨m, mapping, engine, requestClass⟩
      dsimp only
      split
      · exact a.send_seenBy (s.note (.relay forwarder.name parcel)) _ _ _
      · split
        · rfl
        · split
          · exact a.send_seenBy ((s.note (.relay forwarder.name parcel)).count .proxyDrops).2 _ _ _
          · rfl

theorem receive_seenBy (m : Inbound) : a.receive m (s.seenBy c) = ((a.receive m s).1, (a.receive m s).2.seenBy c) := by
  unfold receive
  split
  · rfl
  · dsimp only
    cases a.admission m with
    | denied => rfl
    | direct =>
      dsimp only
      split
      · rfl
      · rw [forward_seenBy]
    | mapped mapping =>
      dsimp only
      split
      · rfl
      · rw [forward_seenBy]

theorem conclude_seenBy (p : Pending) (out : Option (Request × Option Error)) :
    a.conclude p out (s.seenBy c) = ((a.conclude p out s).1, (a.conclude p out s).2.seenBy c) := by
  rcases out with _ | ⟨r, _ | error⟩
  · exact congrArg (Prod.mk _) (drop_seenBy s _ _)
  · simp only [conclude]
    split
    · exact a.finish_seenBy s r _ _
    · exact congrArg (Prod.mk _) (park_seenBy s _)
  · exact congrArg (Prod.mk _) (drop_seenBy s _ _)

theorem takeOn_seenBy (m : Inbound) (mapping : Option Mapping) :
    a.takeOn m mapping (s.seenBy c) = ((a.takeOn m mapping s).1, (a.takeOn m mapping s).2.seenBy c) := by
  have hview : a.viewOf m mapping (s.seenBy c) = a.viewOf m mapping s := rfl
  have hdraft : a.draft m mapping (s.seenBy c) = a.draft m mapping s := rfl
  have hopened : opened (s.seenBy c) = (opened s).seenBy c := rfl
  have htransactions : (s.seenBy c).transactions = s.transactions := rfl
  unfold takeOn
  rw [hview, hdraft, hopened, htransactions, refuse_seenBy, finish_seenBy, finish_seenBy, State.findIdx?_seenBy]
  split
  · rfl
  · split
    · rfl
    · split <;> rfl

theorem expire_seenBy : expire (s.seenBy c) = ((expire s).1, (expire s).2.seenBy c) := by
  have hfold {β : Type} (f : State Obj → β → State Obj) (hf : ∀ s x, f (s.seenBy c) x = (f s x).seenBy c)
      (xs : List β) (s : State Obj) : xs.foldl f (s.seenBy c) = (xs.foldl f s).seenBy c :=
    List.foldl_hom (fun s : State Obj => s.seenBy c) (fun s x => hf s x)
  have hreleased (s : State Obj) (x : TransactionId × Option Pending) :
      releaseExpired (s.seenBy c) x = (releaseExpired s x).seenBy c := by
    obtain ⟨id, _ | p⟩ := x
    · have hlength : (s.seenBy c).registries.length = s.registries.length := List.length_map _
      simp only [releaseExpired, hlength]
      exact hfold _ (fun s registry => by rw [State.releaseLocks_seenBy]) _ s
    · simp only [releaseExpired]
      rw [State.releaseLocks_seenBy]
  exact congrArg (Prod.mk _) (hfold releaseExpired hreleased _ { s with outstanding := (s.outstanding.expire s.now).2 })

end Agent

/-! ### What is kept -/

namespace State.Secluded

variable {s₀ s t : State Obj}

theorem undisturbed (h : s₀.Secluded c s) (hst : Charter.Undisturbed s t) : s₀.Secluded c t where
  entries number := (hst.entries number).trans (h.entries number)
  calls := by
    rw [hst.journal]
    exact h.calls
  parked x hx p hp := by
    obtain ⟨y, hy, hyp⟩ := hst.parked x hx p hp
    exact h.parked y hy p hyp

theorem lasting : Lasting (s₀.Secluded c) where
  locks hbare h := h.undisturbed (Charter.undisturbed_of_bare hbare)
  time _ h := h.undisturbed ⟨rfl, rfl, fun _ => rfl, fun x hx _ hp => ⟨x, hx, hp⟩⟩

/-- The journal goes on with a step on an object that is exposed, if on any. -/
theorem enter (h : s₀.Secluded c s) {st : Step} (hst : ∀ id, st.object = some id → ∃ number, s₀.Exposes c number id) :
    s₀.Secluded c (s.enter st) where
  entries := h.entries
  calls := List.forall_mem_append.mpr ⟨h.calls, List.forall_mem_singleton.mpr hst⟩
  parked := h.parked

theorem call [ManagedObject Obj] (h : s₀.Secluded c s) {number : Nat} {id : ObjectId} (hid : s₀.Exposes c number id)
    (callback : Callback) (who : Requester) (item : Item) : s₀.Secluded c (s.call callback who id item).2 := by
  let st : Step := ⟨who, callback, some id, item, (s.call callback who id item).1.1, (s.call callback who id item).1.2⟩
  have hentered := h.enter fun id' (hid' : st.object = some id') => ⟨number, Option.some.inj hid' ▸ hid⟩
  exact ⟨hentered.entries, hentered.calls, hentered.parked⟩

theorem park (h : s₀.Secluded c s) {p : Pending} (hp : p.Within s₀ c) : s₀.Secluded c (Agent.park p s) := by
  unfold Agent.park
  split
  · next outstanding hparked =>
    have houtstanding := Option.some.inj (Option.ite_none_right_eq_some.mp hparked).2
    refine ⟨h.entries, h.calls, fun x hx q hq => ?_⟩
    rw [← houtstanding] at hx
    obtain ⟨y, hy, rfl⟩ := List.mem_map.mp hx
    split at hq
    · exact Option.some.inj hq ▸ hp
    · exact h.parked y hy q hq
  · exact h.undisturbed (Charter.undisturbed_releaseLocks s _ _)

end State.Secluded

section Requests
variable [ManagedObject Obj] {a : Agent Obj} {s₀ : State Obj}

open Activity (Blind)

/-- All that a service does for a request of the context. -/
theorem conduct_blind (hordered : ∀ number, Registry.Ordered (s₀.registry number).entries) {who : Requester}
    (hwho : who.context = c) (registry : Nat) (p : Policy) :
    Conduct p registry who (s₀.Exposes c registry) fun {α : Type} (act : Doing Obj α) post =>
      Blind c (s₀.Secluded c) act post := by
  refine Blind.conduct State.Secluded.lasting (fun s hs number => hs.entries number ▸ hordered number) hwho
    (fun s hs e he hseen => ?_) (fun s callback object item hs hobject => hs.call hobject callback who item)
    (fun s callback item status hs => ?_) p
  · rw [hs.entries] at he
    exact ⟨e, he, rfl, hseen⟩
  · exact hs.enter fun id hid => by cases hid

variable (hordered : ∀ number, Registry.Ordered (s₀.registry number).entries)
  (hservices : a.services = Agent.standardServices)
include hordered hservices

/-- One pass over a request, and what becomes of the request after it. -/
theorem drive_blind {p : Pending} (h : p.Within s₀ c) : Blind c (s₀.Secluded c) (a.drive p) fun _ => True := by
  have hpass : Blind c (s₀.Secluded c) (a.pass p) fun out =>
      ∀ r, out = some r → r.1.Apt p.request.requester (s₀.Exposes c p.registry) := by
    refine Blind.before ?_ _
    split
    · next service hservice =>
      have hserves := List.find?_some hservice
      have hmem := List.mem_of_find?_eq_some hservice
      rw [hservices] at hmem
      exact (conduct_blind hordered h.context p.registry a.policy).run hmem (h.apt.kind ▸ hserves) h.apt
    · exact .pure h.apt
  rw [Agent.drive_eq]
  refine .bind hpass fun out hout => .modifyGet fun s hs => ⟨a.conclude_seenBy s p out, ?_, trivial⟩
  rcases out with _ | ⟨r, _ | error⟩
  · exact hs.undisturbed (Charter.undisturbed_drop _ _ s)
  · have hr := hout _ rfl
    simp only [Agent.conclude]
    split
    · exact hs.undisturbed (Charter.undisturbed_finish r _ _ s)
    · have hwithin : ({ p with request := r } : Pending).Within s₀ c :=
        ⟨hr.requester ▸ hr, hr.requester ▸ h.context⟩
      exact hs.park hwithin
  · exact hs.undisturbed (Charter.undisturbed_drop _ _ s)

/-- A message that is for this engine. -/
theorem serve_blind {m m' : Inbound} {mapping : Option Mapping} (hm : a.Addresses m c)
    (haccepts : a.Accepts m m' mapping) : Blind c (s₀.Secluded c) (a.serve m' mapping) fun _ => True := by
  rw [Agent.serve_eq]
  have htakeOn : Blind c (s₀.Secluded c) (modifyGet (a.takeOn m' mapping))
      fun out => ∀ p, out = .inr p → p.Within s₀ c := by
    refine .modifyGet fun s hs => ⟨a.takeOn_seenBy s m' mapping, ?_⟩
    have hopened : s₀.Secluded c (Agent.opened s) := by
      have htracked := hs.undisturbed (Charter.undisturbed_track s ⟨s.transactions⟩ s.now)
      exact ⟨htracked.entries, htracked.calls, htracked.parked⟩
    have hended {out : Except Error Unit × State Obj} (hout : s₀.Secluded c out.2) :
        s₀.Secluded c (Agent.ended out).2 ∧ ∀ p, (Agent.ended out).1 = .inr p → p.Within s₀ c :=
      ⟨hout, fun p hp => by cases hp⟩
    have hfinished (r : Request) := hended (hopened.undisturbed (Charter.undisturbed_finish (a := a) r m' none _))
    unfold Agent.takeOn
    split
    · exact hended (hs.undisturbed (Charter.undisturbed_refuse m' s))
    · split
      · exact hfinished _
      · split
        · exact hfinished _
        · refine ⟨hopened, fun p hp => ?_⟩
          obtain rfl := Sum.inr.inj hp
          exact ⟨.start rfl _ _, hm m' mapping haccepts⟩
  refine .bind htakeOn fun out hout => ?_
  cases out with
  | inl result => exact .pure trivial
  | inr p => exact drive_blind hordered hservices (hout p rfl)

theorem process_blind {m : Inbound} (hm : a.Addresses m c) :
    Blind c (s₀.Secluded c) (a.process m) fun _ => True := by
  have hreceive : Blind c (s₀.Secluded c) (modifyGet (a.receive m))
      fun course => ∀ m' mapping, course = .serve m' mapping → a.Accepts m m' mapping :=
    .modifyGet fun s hs => ⟨a.receive_seenBy s m, hs.undisturbed (Charter.undisturbed_receive m s),
      fun m' mapping hserve => (Agent.receive_eq_serve_iff.mp (Prod.ext hserve rfl)).1⟩
  refine .bind hreceive fun course hcourse => ?_
  cases course with
  | ended result => exact .pure trivial
  | serve m' mapping => exact serve_blind hordered hservices hm (hcourse m' mapping rfl)

theorem driveAll_blind : ∀ parked : List (TransactionId × Pending), (∀ x ∈ parked, x.2.Within s₀ c) →
    Blind c (s₀.Secluded c) (a.driveAll parked) fun _ => True
  | [], _ => .pure trivial
  | (_, p) :: rest, h => by
    obtain ⟨hp, hrest⟩ := List.forall_mem_cons.mp h
    have hretried : ({ p with request := p.request.retry } : Pending).Within s₀ c := ⟨hp.apt.retry, hp.context⟩
    refine .bind (drive_blind hordered hservices hretried) fun result _ =>
      .bind (driveAll_blind rest hrest) fun later _ => ?_
    cases result <;> exact .pure trivial

/-- The requests that are parked are taken up again. -/
theorem takeUp_blind : Blind c (s₀.Secluded c) a.takeUp fun _ => True := by
  let take (s : State Obj) : List (TransactionId × Pending) × State Obj :=
    (s.outstanding.takeParked.1, { s with outstanding := s.outstanding.takeParked.2 })
  have htake : Blind c (s₀.Secluded c) (modifyGet take) fun parked => ∀ x ∈ parked, x.2.Within s₀ c := by
    refine .modifyGet fun s hs => ⟨rfl, ?_, ?_⟩
    · refine hs.undisturbed (Charter.undisturbed_outstanding fun x hx p hp => ?_)
      obtain ⟨y, -, rfl⟩ := List.mem_map.mp hx
      cases hp
    · rintro ⟨id, p⟩ hx
      simp only [take, Outstanding.takeParked, List.mem_mergeSort, List.mem_filterMap] at hx
      obtain ⟨x, hx, hp⟩ := hx
      obtain ⟨p', hp', heq⟩ := Option.map_eq_some_iff.mp hp
      obtain ⟨-, rfl⟩ := Prod.mk.inj heq
      exact hs.parked x hx p' hp'
  refine .bind htake fun parked hparked => .bind (driveAll_blind hordered hservices parked hparked) fun error _ => ?_
  cases error <;> exact .pure trivial

/-! ### Runs -/

variable {s : Schedule Obj}

theorem submit_blind {m : Inbound} (hm : a.Addresses m c) (turns : Nat) (h : s.Blind c (s₀.Secluded c)) :
    (a.submit turns m (s.seenBy c)).2 = (a.submit turns m s).2.seenBy c ∧
      (a.submit turns m s).2.Blind c (s₀.Secluded c) := by
  by_cases hinline : a.settings.maxConcurrent = 0
  · simp only [Agent.submit, if_pos hinline]
    obtain ⟨heq, hblind⟩ := h.run State.Secluded.lasting (process_blind hordered hservices hm) turns
    exact ⟨congrArg Prod.snd heq, hblind⟩
  · have hstate := h.state.undisturbed (Charter.undisturbed_receive (a := a) m s.state)
    have hreceived := h.withState State.Secluded.lasting hstate
    simp only [Agent.submit, if_neg hinline]
    rw [show (s.seenBy c).state = s.state.seenBy c from rfl, a.receive_seenBy]
    cases hcourse : a.receive m s.state with
    | mk course state =>
      rw [hcourse] at hreceived
      cases course with
      | ended result => exact hreceived
      | serve m' mapping =>
        obtain ⟨haccepts, -⟩ := Agent.receive_eq_serve_iff.mp hcourse
        obtain ⟨heq, hblind⟩ := hreceived
        have htask : Blind c (s₀.Secluded c) (a.task m' mapping) fun _ => True :=
          .bind (serve_blind hordered hservices hm haccepts) fun _ _ => .pure trivial
        exact ⟨congrArg (Schedule.push · _) heq, hblind.push htask⟩

/-- Whatever happens to the agent, it leads to the same apart from what the context does not see. -/
theorem perform_blind {deed : Deed} (hdeed : ∀ m, deed = .submit m → a.Addresses m c) (turns : Nat)
    (h : s.Blind c (s₀.Secluded c)) : deed.perform a turns (s.seenBy c) = (deed.perform a turns s).seenBy c ∧
      (deed.perform a turns s).Blind c (s₀.Secluded c) := by
  have hexpired {s : Schedule Obj} (h : s.Blind c (s₀.Secluded c)) :
      (s.seenBy c).withState (Agent.expire (s.seenBy c).state).2 =
          (s.withState (Agent.expire s.state).2).seenBy c ∧
        (s.withState (Agent.expire s.state).2).Blind c (s₀.Secluded c) := by
    rw [show (s.seenBy c).state = s.state.seenBy c from rfl, Agent.expire_seenBy]
    exact h.withState State.Secluded.lasting (h.state.undisturbed (Charter.undisturbed_expire _))
  cases deed with
  | submit m => exact submit_blind hordered hservices (hdeed m rfl) turns h
  | takeUp =>
    obtain ⟨heq, hblind⟩ := h.run State.Secluded.lasting (takeUp_blind hordered hservices) turns
    exact ⟨congrArg Prod.snd heq, hblind⟩
  | expire => exact hexpired h
  | sweep =>
    obtain ⟨hfirst, hdrained⟩ := Schedule.Blind.drain State.Secluded.lasting turns s h
    obtain ⟨hsecond, hswept⟩ := hexpired hdrained
    obtain ⟨hthird, hleft⟩ := Schedule.Blind.drain State.Secluded.lasting turns _ hswept
    refine ⟨?_, hleft⟩
    simp only [Deed.perform, Agent.sweep]
    rw [hfirst, hsecond, hthird]
  | drain => exact Schedule.Blind.drain State.Secluded.lasting turns s h
  | pass duration =>
    exact h.withState State.Secluded.lasting (State.Secluded.lasting.time (s.state.now.plus duration) h.state)
  | relock registry locks =>
    have hkept := State.Secluded.lasting.locks
      (t := (s.state.setLocks registry locks).noteRelease registry) (s.state.bare_setLocks registry locks) h.state
    obtain ⟨heq, hblind⟩ := h.withState State.Secluded.lasting hkept
    refine ⟨?_, hblind⟩
    have hseen := congrArg (State.noteRelease · registry) (State.seenBy_setLocks s.state c registry locks)
    exact (congrArg (Schedule.withState _) hseen).trans heq

theorem performAll_blind (turns : Nat) : ∀ (deeds : List Deed) (s : Schedule Obj),
    (∀ m, Deed.submit m ∈ deeds → a.Addresses m c) → s.Blind c (s₀.Secluded c) →
      a.performAll turns deeds (s.seenBy c) = (a.performAll turns deeds s).seenBy c ∧
        (a.performAll turns deeds s).Blind c (s₀.Secluded c)
  | [], _, _, h => ⟨rfl, h⟩
  | deed :: deeds, s, hdeeds, h => by
    obtain ⟨heq, hblind⟩ := perform_blind hordered hservices (fun m hm => hdeeds m (hm ▸ List.mem_cons_self)) turns h
    obtain ⟨hrest, hleft⟩ := performAll_blind turns deeds _ (fun m hm => hdeeds m (List.mem_cons_of_mem _ hm)) hblind
    exact ⟨(congrArg (a.performAll turns deeds) heq).trans hrest, hleft⟩

end Requests

/-- Nothing has been done yet, so all of it has been done in the context. -/
theorem blind_of_fresh {s : Schedule Obj} (hs : s.Fresh) : s.Blind c (s.state.Secluded c) where
  state := ⟨fun _ => rfl, by simp [hs.journal], fun x hx p hp => by simp [hs.parked x hx] at hp⟩
  ready job hjob := by
    obtain ⟨registry, owner, object, rfl⟩ := hs.ready job hjob
    trivial
  waiters := by simp [hs.waiters]
  backlog := by simp [hs.backlog]

theorem Schedule.Fresh.of_seenBy {s s' : Schedule Obj} (hs : s.Fresh) (h : s'.seenBy c = s.seenBy c) : s'.Fresh := by
  have hjournal : s'.state.journal = s.state.journal := congrArg (fun s => s.state.journal) h
  have houtstanding : s'.state.outstanding = s.state.outstanding := congrArg (fun s => s.state.outstanding) h
  have hready : s'.ready = s.ready := congrArg (fun s => s.ready) h
  have hwaiters : s'.waiters = s.waiters := congrArg (fun s => s.waiters) h
  have hbacklog : s'.backlog = s.backlog := congrArg (fun s => s.backlog) h
  exact ⟨hjournal ▸ hs.journal, houtstanding ▸ hs.parked, hready ▸ hs.ready, hwaiters ▸ hs.waiters,
    hbacklog ▸ hs.backlog⟩

/-- The registry holds what some calls have registered, in whatever contexts and under whatever regions. -/
def Registry.Built (r : Registry) : Prop :=
  ∃ contexts locks locking calls, r = performAll { contexts, locks, locking } calls

theorem Registry.Built.ordered {r : Registry} (h : r.Built) : Ordered r.entries := by
  obtain ⟨contexts, locks, locking, calls, rfl⟩ := h
  exact Ordered.performAll ⟨.nil, .nil⟩ calls

theorem State.ordered_registry {s : State Obj} (h : ∀ r ∈ s.registries, r.Built) (number : Nat) :
    Registry.Ordered (s.registry number).entries := by
  rw [State.registry, List.getD_eq_getElem?_getD]
  cases hr : s.registries[number]? with
  | none => exact ⟨.nil, .nil⟩
  | some r => exact (h r (List.mem_of_getElem? hr)).ordered

/-- Isolation. Two agents with the standard services and the same objects, whose registries differ in nothing but
entries under named contexts other than one, serve requests in that one alike: whatever happens to them, they have sent
the same answers, the objects hold the same, and have been called for the same. No object has been called that was not
registered for this context or for all contexts. -/
theorem isolated_of_deeds [ManagedObject Obj] {a : Agent Obj} (hservices : a.services = Agent.standardServices)
    {s s' : Schedule Obj} (hfresh : s.Fresh) (hsame : s'.seenBy c = s.seenBy c)
    (hbuilt : ∀ r ∈ s.state.registries, r.Built) (hbuilt' : ∀ r ∈ s'.state.registries, r.Built) (turns : Nat)
    {deeds : List Deed} (haddressed : ∀ m, Deed.submit m ∈ deeds → a.Addresses m c) :
    let t := (a.performAll turns deeds s).state
    let t' := (a.performAll turns deeds s').state
    t'.sent = t.sent ∧ t'.objects = t.objects ∧ t'.journal = t.journal ∧
      ∀ st ∈ t.journal, ∀ id, st.object = some id → ∃ number, s.state.Exposes c number id := by
  intro t t'
  obtain ⟨heq, hblind⟩ := performAll_blind (State.ordered_registry hbuilt) hservices turns deeds s haddressed
    (blind_of_fresh hfresh)
  obtain ⟨heq', -⟩ := performAll_blind (State.ordered_registry hbuilt') hservices turns deeds s' haddressed
    (blind_of_fresh (hfresh.of_seenBy hsame))
  -- The two runs agree in all that the context sees of their states.
  have hruns := heq'.symm.trans ((congrArg (a.performAll turns deeds) hsame).trans heq)
  have hsent := congrArg (fun s => s.state.sent) hruns
  have hobjects := congrArg (fun s => s.state.objects) hruns
  have hjournal := congrArg (fun s => s.state.journal) hruns
  exact ⟨hsent, hobjects, hjournal, hblind.state.calls⟩

/-- A table with one variable, which can be written. -/
def drawer (number : UInt32) : Store :=
  .table ⟨⟨[1, 3, number]⟩, .existing, ⟨[(⟨[1, 3, number, 1]⟩, .gauge32 number)]⟩⟩

/-- Three tables and a registry that serves two contexts. -/
def cabinet (calls : List Registry.Call) : Schedule Instrument where
  state := {
    objects := fun id => Store.Among.put (drawer id.number.toUInt32)
    registries := [Registry.performAll { contexts := [[120], [121]] } calls]
    outstanding := ⟨.seconds 300, []⟩ }
  limit := 100

/-- One table is for all contexts, and another one for one of the two. -/
def labels : List Registry.Call := [
  .register ⟨1⟩ (ManagedObject.region (drawer 1)) none, .register ⟨3⟩ (ManagedObject.region (drawer 3)) (some [120])]

/-- The table between them is for the other context. -/
def foreign : Registry.Call := .register ⟨2⟩ (ManagedObject.region (drawer 2)) (some [121])

def inquiry (pdu : Pdu) : Deed := .submit (.ofUser [117] .noAuthNoPriv [] [120] ⟨.v4 192 0 2 10, 50161, 0⟩ pdu)

/-- A search passes over the table that is there for the other context, which nothing can be written to either. -/
theorem isolated_of_inquiries :
    let deeds := [inquiry (.asking .getNext 1 [⟨[1, 3, 1, 1]⟩]),
      inquiry (.setting 2 [⟨⟨[1, 3, 2, 1]⟩, .gauge32 7⟩]), .drain]
    let t := (Agent.plain.performAll 100 deeds (cabinet labels)).state
    let t' := (Agent.plain.performAll 100 deeds (cabinet (labels ++ [foreign]))).state
    t'.sent.map (fun m => (m.pdu.status, m.pdu.bindings)) = [
      (.noError, [⟨⟨[1, 3, 3, 1]⟩, .gauge32 3⟩]), (.noCreation, [⟨⟨[1, 3, 2, 1]⟩, .gauge32 7⟩])] ∧
    t'.sent = t.sent ∧ t'.objects = t.objects ∧ t'.journal = t.journal ∧
      ∀ st ∈ t.journal, ∀ id, st.object = some id → ∃ number, (cabinet labels).state.Exposes [120] number id := by
  intro deeds t t'
  have hbuilt (calls : List Registry.Call) : ∀ r ∈ (cabinet calls).state.registries, r.Built :=
    fun r hr => ⟨[[120], [121]], {}, .writes, calls, List.mem_singleton.mp hr⟩
  have hfresh : (cabinet labels).Fresh := ⟨rfl, by simp [cabinet], by simp [cabinet], rfl, rfl⟩
  have hsame : (cabinet (labels ++ [foreign])).seenBy [120] = (cabinet labels).seenBy [120] := rfl
  refine ⟨by decide +kernel, isolated_of_deeds rfl hfresh hsame (hbuilt _) (hbuilt _) 100 fun m hm => ?_⟩
  simp only [deeds, inquiry, List.mem_cons, Deed.submit.injEq, reduceCtorEq, List.not_mem_nil, or_false] at hm
  rcases hm with rfl | rfl <;> exact Agent.addresses_of_user _ rfl

end Responder
