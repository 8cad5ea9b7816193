import Responder.Proofs.Mediation.Dispatch

/-! Complete mediation. Whatever happens to an agent with the standard services, one thing after the other
    (`Deed`): when it calls an object, it does so for a message that was handed to it, on behalf of somebody who is
    vouched for, and unless it searches for a variable that he may touch; and of a store no variable changes but
    one that he writes and may write (`mediated_of_deeds`). -/

namespace Responder

variable {Obj : Type}

/-- What can happen to an agent. Messages are handed to it, the requests that it has parked are taken up again or
expire, its tasks get turns, time passes, and others take locks and release them. -/
inductive Deed where
  | submit (m : Inbound)
  | takeUp
  | expire
  | sweep
  | drain
  | pass (duration : Duration)
  | relock (registry : Nat) (locks : Locks)

/-- Nothing has been done yet. Nothing is under way but releases of locks that others hold. -/
structure Schedule.Fresh (s : Schedule Obj) : Prop where
  journal : s.state.journal = []
  parked : ∀ x ∈ s.state.outstanding.entries, x.parked = none
  ready : ∀ job ∈ s.ready, ∃ registry owner object, job = .unlock registry owner object
  waiters : s.waiters = []
  backlog : s.backlog = []

variable [ManagedObject Obj]

/-- What becomes of an agent's activities, none of which goes on for more than a number of turns. -/
def Deed.perform (a : Agent Obj) (turns : Nat) (s : Schedule Obj) : Deed → Schedule Obj
  | submit m => (a.submit turns m s).2
  | takeUp => (s.run turns a.takeUp).2
  | expire => s.withState (Agent.expire s.state).2
  | sweep => Agent.sweep turns s
  | drain => s.drain turns
  | pass duration => s.withState { s.state with now := s.state.now.plus duration }
  | relock registry locks => s.withState ((s.state.setLocks registry locks).noteRelease registry)

/-- What becomes of an agent's activities when one thing happens after the other. -/
def Agent.performAll (a : Agent Obj) (turns : Nat) (deeds : List Deed) (s : Schedule Obj) : Schedule Obj :=
  deeds.foldl (Deed.perform a turns) s

namespace Charter

variable [Store.Among Obj] {C : Charter Obj} {s : Schedule Obj}

theorem kept_of_fresh (hC : C.Sound) (hs : s.Fresh) (hobjects : C.objects = s.state.objects)
    (hentries : ∀ registry, C.entries registry = (s.state.registry registry).entries) : s.Kept C.Upheld := by
  refine ⟨⟨?_, fun registry => (hentries registry).symm, ?_, fun id b hb => ?_, fun past st hpast => ?_,
    fun x hx p hp => ?_⟩, fun job hjob => ?_, by simp [hs.waiters], by simp [hs.backlog]⟩
  · rw [hs.journal, hobjects]
    rfl
  · simp [hs.journal]
  · obtain ⟨hput, hformed⟩ := hC.stores id b hb
    exact ⟨b, hobjects ▸ hput, hformed, rfl⟩
  · rw [hs.journal] at hpast
    simp at hpast
  · rw [hs.parked x hx] at hp
    cases hp
  · obtain ⟨registry, owner, object, rfl⟩ := hs.ready job hjob
    trivial

theorem submit_kept (hC : C.Sound) (hservices : C.agent.services = Agent.standardServices) {m : Inbound}
    (hm : C.submitted m) (turns : Nat) (h : s.Kept C.Upheld) : (C.agent.submit turns m s).2.Kept C.Upheld := by
  unfold Agent.submit
  split
  · exact h.run C.lasting (process_keeps hC hservices hm) turns
  · have hreceived := receive_upheld (m := m) h.state
    split
    · next result state heq =>
      rw [heq] at hreceived
      exact h.withState C.lasting hreceived
    · next m' mapping state heq =>
      obtain ⟨haccepts, -⟩ := Agent.receive_eq_serve_iff.mp heq
      rw [heq] at hreceived
      have htask : Keeps C.Upheld (C.agent.task m' mapping) :=
        Keeps.bind (serve_keeps hC hservices hm haccepts) fun _ => Keeps.pure _
      exact (h.withState C.lasting hreceived).push htask

/-- Whatever happens keeps what a run has to keep. -/
theorem perform_kept (hC : C.Sound) (hservices : C.agent.services = Agent.standardServices) {deed : Deed}
    (hdeed : ∀ m, deed = .submit m → C.submitted m) (turns : Nat) (h : s.Kept C.Upheld) :
    (deed.perform C.agent turns s).Kept C.Upheld := by
  have hexpired {s : Schedule Obj} (h : s.Kept C.Upheld) : (s.withState (Agent.expire s.state).2).Kept C.Upheld :=
    h.withState C.lasting (h.state.undisturbed (undisturbed_expire _))
  cases deed with
  | submit m => exact submit_kept hC hservices (hdeed m rfl) turns h
  | takeUp => exact h.run C.lasting (takeUp_keeps hC hservices) turns
  | expire => exact hexpired h
  | sweep => exact .drain C.lasting turns _ (hexpired (.drain C.lasting turns _ h))
  | drain => exact .drain C.lasting turns _ h
  | pass duration => exact h.withState C.lasting (C.lasting.time _ h.state)
  | relock registry locks =>
    exact h.withState C.lasting (C.lasting.locks (s.state.bare_setLocks registry locks) h.state)

theorem performAll_kept (hC : C.Sound) (hservices : C.agent.services = Agent.standardServices) (turns : Nat) :
    ∀ (deeds : List Deed) (s : Schedule Obj), (∀ m, Deed.submit m ∈ deeds → C.submitted m) → s.Kept C.Upheld →
      (C.agent.performAll turns deeds s).Kept C.Upheld
  | [], _, _, h => h
  | deed :: deeds, s, hdeeds, h => by
    refine performAll_kept hC hservices turns deeds _ (fun m hm => hdeeds m (List.mem_cons_of_mem _ hm)) ?_
    exact perform_kept hC hservices (fun m hm => hdeeds m (hm ▸ List.mem_cons_self)) turns h

end Charter

/-- Complete mediation. Whatever happens to an agent with the standard services, its journal accounts for all that
becomes of its objects, and every call in it is mediated by a message that was handed over. Where the stores among
the objects are registered under their own regions, no call changes any variable of a store but one that somebody
writes who may. -/
theorem mediated_of_deeds [Store.Among Obj] {a : Agent Obj} (hservices : a.services = Agent.standardServices)
    {s : Schedule Obj} (hfresh : s.Fresh) (turns : Nat) (deeds : List Deed) :
    (a.performAll turns deeds s).state.objects =
        replay s.state.objects (a.performAll turns deeds s).state.journal ∧
      (∀ st ∈ (a.performAll turns deeds s).state.journal, st.object.isSome = true →
        ∃ m, Deed.submit m ∈ deeds ∧ st.Mediated a m) ∧
      ∀ regionOf : ObjectId → Region, (∀ r ∈ s.state.registries, r.Reachable regionOf) →
        (∀ id b, s.state.objects id = Store.Among.put b → b.WellFormed ∧ regionOf id = ManagedObject.region b) →
          ∀ past st, past ++ [st] <+: (a.performAll turns deeds s).state.journal →
            ∀ id b, s.state.objects id = Store.Among.put b → st.Confined a id (replay s.state.objects past) := by
  let charter (stores : ObjectId → Option Store) : Charter Obj :=
    ⟨a, fun m => Deed.submit m ∈ deeds, fun registry => (s.state.registry registry).entries, s.state.objects, stores⟩
  have hupheld (stores : ObjectId → Option Store) (hsound : (charter stores).Sound) :
      (charter stores).Upheld (a.performAll turns deeds s).state :=
    (Charter.performAll_kept hsound hservices turns deeds s (fun _ => id)
      (Charter.kept_of_fresh hsound hfresh rfl fun _ => rfl)).state
  -- Without stores to be watched, nothing is asked of the registries.
  have hbare := hupheld (fun _ => none) ⟨by simp [charter], by simp [charter], by simp [charter]⟩
  refine ⟨hbare.objects, hbare.mediated, fun regionOf hreachable hstores past st hpast id b hb => ?_⟩
  let stores (id : ObjectId) : Option Store := Function.partialInv Store.Among.put (s.state.objects id)
  have hput (id : ObjectId) (b : Store) : stores id = some b ↔ s.state.objects id = Store.Among.put b :=
    (Store.Among.put_injective.isPartialInv b _).trans eq_comm
  have hregistered (registry : Nat) : Registry.Ordered (s.state.registry registry).entries ∧
      ∀ e ∈ (s.state.registry registry).entries, e.region.toRange = (regionOf e.object).toRange := by
    refine Registry.Reachable.ordered (r := s.state.registry registry) ?_
    rcases lt_or_ge registry s.state.registries.length with hlt | hge
    · refine hreachable _ ?_
      simp only [State.registry, List.getD_eq_getElem?_getD, List.getElem?_eq_getElem hlt, Option.getD_some,
        List.getElem_mem]
    · rw [State.registry, List.getD_eq_getElem?_getD, List.getElem?_eq_none hge]
      exact .empty rfl rfl
  have hsound : (charter stores).Sound := by
    refine ⟨fun id b hb => ?_, fun registry e he b hb => ?_, fun registry e _ _ => (hregistered registry).1⟩
    · exact ⟨(hput id b).mp hb, (hstores id b ((hput id b).mp hb)).1⟩
    · rw [(hregistered registry).2 e he, (hstores e.object b ((hput _ _).mp hb)).2]
  exact (hupheld stores hsound).confined past st hpast id (Option.isSome_iff_exists.mpr ⟨b, (hput id b).mpr hb⟩)

/-- A table with one variable, which can be written. -/
def vaultStore : Store := .table ⟨⟨[1, 3, 1]⟩, .existing, ⟨[(⟨[1, 3, 1, 1]⟩, .integer 1)]⟩⟩

/-- What has to be asked twice before it lets a value pass. -/
def vaultLock : Scripted where
  region := .subtree ⟨[1, 3, 2]⟩
  values := .empty
  script
    | .prepare => [{ edits := [.defer] }]
    | _ => []

def vault : State Instrument where
  objects id := if id = ⟨0⟩ then Store.Among.put vaultStore else .scripted vaultLock
  registries := [{
    entries := [⟨.subtree ⟨[1, 3, 1]⟩, ⟨0⟩⟩, ⟨.subtree ⟨[1, 3, 2]⟩, ⟨1⟩⟩]
    regions := [(⟨⟨1⟩, none⟩, .subtree ⟨[1, 3, 2]⟩), (⟨⟨0⟩, none⟩, .subtree ⟨[1, 3, 1]⟩)] }]
  outstanding := ⟨.seconds 300, []⟩

/-- A community stands for somebody who may write below one object, and below another one all but one variable. -/
def custodian : Agent Instrument where
  services := Agent.standardServices
  communities := some { entries := [([99], { (default : Mapping) with securityName := [116] })] }
  access := some {
    groups := [((.v2c, [116]), [103])]
    rows := [{ group := [103], writeView := [118] }]
    views := [([118], ⟨[⟨⟨[1, 3]⟩, [], true⟩, ⟨⟨[1, 3, 1, 2]⟩, [], false⟩]⟩)] }

def deposit : Inbound := .ofCommunity .v2c [99] ⟨.v4 192 0 2 10, 50161, 0⟩
  (.setting 1 [⟨⟨[1, 3, 1, 1]⟩, .integer 5⟩, ⟨⟨[1, 3, 2, 1]⟩, .integer 6⟩])

def vaultRegion (id : ObjectId) : Region := if id = ⟨0⟩ then .subtree ⟨[1, 3, 1]⟩ else .subtree ⟨[1, 3, 2]⟩

theorem vault_reachable : (vault.registry 0).Reachable vaultRegion := by
  have hempty : Registry.Reachable vaultRegion {} := .empty rfl rfl
  have hone := hempty.register (show Registry.register {} ⟨0⟩ (vaultRegion ⟨0⟩) none = .ok _ from rfl)
  exact hone.register (show Registry.register _ ⟨1⟩ (vaultRegion ⟨1⟩) none = .ok _ from rfl)

theorem vaultStore_formed : vaultStore.WellFormed := by
  have hsorted : OidMap.Sorted (⟨[(⟨[1, 3, 1, 1]⟩, .integer 1)]⟩ : OidMap Value) := List.pairwise_singleton _ _
  refine ⟨hsorted, fun o v ho => ?_⟩
  obtain ⟨rfl, -⟩ := Prod.mk.inj (List.mem_singleton.mp ((OidMap.get?_eq_some_iff hsorted).mp ho))
  decide

/-- A request that is parked while it is prepared, and taken up again. -/
theorem mediated_of_deposit : ∃ journal,
    (custodian.performAll 100 [.submit deposit, .drain, .takeUp] ⟨vault, 100, [], [], [], 0, ⟨0⟩⟩).state.journal =
      journal ∧
    journal.map (fun st => (st.callback, st.object)) = [(.prepare, some ⟨0⟩), (.prepare, some ⟨1⟩),
      (.prepare, some ⟨1⟩), (.commit, some ⟨0⟩), (.commit, some ⟨1⟩), (.cleanup, some ⟨0⟩), (.cleanup, some ⟨1⟩)] ∧
    (∀ st ∈ journal, st.object.isSome = true → st.Mediated custodian deposit) ∧
    ∀ past st, past ++ [st] <+: journal → st.Confined custodian ⟨0⟩ (replay vault.objects past) := by
  have hfresh : Schedule.Fresh ⟨vault, 100, [], [], [], 0, ⟨0⟩⟩ := ⟨rfl, by simp [vault], by simp, rfl, rfl⟩
  obtain ⟨-, hmediated, hconfined⟩ := mediated_of_deeds (a := custodian) rfl hfresh 100
    [.submit deposit, .drain, .takeUp]
  refine ⟨_, rfl, by decide +kernel, fun st hst hsome => ?_, fun past st hpast => ?_⟩
  · obtain ⟨m, hm, hmed⟩ := hmediated st hst hsome
    obtain rfl : m = deposit := by simpa using hm
    exact hmed
  · refine hconfined vaultRegion (fun r hr => ?_) (fun id b hb => ?_) past st hpast ⟨0⟩ vaultStore rfl
    · obtain rfl := List.mem_singleton.mp hr
      exact vault_reachable
    · by_cases hid : id = ⟨0⟩
      · subst hid
        have hput : (Store.Among.put vaultStore : Instrument) = Store.Among.put b := hb
        obtain rfl := Store.Among.put_injective hput
        exact ⟨vaultStore_formed, rfl⟩
      · have hlock : Instrument.scripted vaultLock = Store.Among.put b := (if_neg hid).symm.trans hb
        cases b <;> cases hlock

end Responder
