import Responder.Proofs.Custody.Release
import Responder.Proofs.Pursuit

/-! The upkeep of requests. A pass over a request that goes on alone comes to what is ensured of it among others
    (`Activity.Ensures.of_comes`), and leaves alone whatever lasts (`Agent.pass_keeps`). So what can be said of a
    request and its history when it begins, and of what a pass makes of them, can be said of every request that goes
    on, whatever happens to an agent without tasks in the background (`Upkeep.of_chronicle`). -/

namespace Responder

variable {Obj α : Type}

/-! ### What is ensured among others -/

section Frame
variable {I : State Obj → Prop} {s t : State Obj}

theorem Lasting.later (hI : Lasting I) (ht : s.Later t) (hs : I s) : I t := by
  obtain ⟨now, released, rfl⟩ := ht
  have htimed := hI.time now hs
  exact hI.locks (s := { s with now }) rfl htimed

theorem Wait.Ends.lasting {wait : Wait} {wakeup : Wakeup} (h : wait.Ends s wakeup t) (hI : Lasting I) (hs : I s) :
    I t := by
  cases wakeup with
  | granted =>
    obtain ⟨u, hu, htaken⟩ := h
    have hbare : t.bare = u.bare := by
      rw [← u.bare_tryLock wait.registry wait.owner wait.object, htaken]
    exact hI.locks hbare (hI.later hu hs)
  | timedOut => exact hI.later h hs
  | expired => exact hI.later h hs

theorem Wait.Ends.history {wait : Wait} {wakeup : Wakeup} (h : wait.Ends s wakeup t) (tx : TransactionId) :
    t.history tx = s.history tx := by
  have hcalm : Lasting fun u : State Obj => u.history tx = s.history tx :=
    ⟨fun hbare hu => (State.history_eq_of_bare tx hbare).trans hu, fun _ hu => hu⟩
  exact h.lasting hcalm rfl

/-- What an activity ensures among others that may do all that the end of a wait does, it comes to alone. -/
theorem Activity.Ensures.of_comes {rely : State Obj → State Obj → Prop} {here : State Obj → Prop}
    {act : Doing Obj α} {ends : α → State Obj → Prop} {a : α} (h : act.Ensures rely here s ends)
    (hrely : ∀ {wait : Wait} {s t wakeup}, here s → wait.Ends s wakeup t → rely s t) (hcomes : act.Comes s a t) :
    ends a t := by
  unfold Ensures at h
  unfold Comes at hcomes
  generalize act s = q at h hcomes
  induction hcomes with
  | done a s => exact h
  | wait hends next ih => exact ih (h.2 _ _ (hrely h.1 hends))

/-- What an activity comes to alone, it yields among others that leave a history alone. -/
theorem Activity.Comes.yields {act : Doing Obj α} {a : α} (h : act.Comes s a t) (tx : TransactionId) :
    act.Yields (Aside tx) s a t :=
  (Activity.ensures_self act (Aside tx) s).of_comes (fun _ hends => hends.history tx) h

/-- One pass over a request keeps what lasts and is left alone by calls and refusals. -/
theorem Agent.pass_keeps [ManagedObject Obj] {callable : ObjectId → Prop} {a : Agent Obj}
    (hservices : a.services = Agent.standardServices) {p : Pending}
    (hp : p.request.Apt p.request.requester callable) (hI : Lasting I)
    (hcall : ∀ callback object item s, I s → I (s.call callback p.request.requester object item).2)
    (hrefuse : ∀ callback item status s, I s → I (s.refuse callback p.request.requester item status).2)
    {out : Option (Request × Option Error)} (hpass : (a.pass p).Comes s out t) (hs : I s) : I t := by
  have hpassed := Agent.pass_steady hservices hp (hI.steady p.registry) hcall hrefuse hs
  exact (hpassed.of_comes (fun hs hends => hends.lasting hI hs) hpass).1

end Frame

/-! ### Histories -/

section Histories
variable {entries : Nat → List Entry} {number : Nat} {who : Requester} {callable : ObjectId → Prop} {s t : State Obj}
  {tx : TransactionId}

/-- The history of others is left alone. -/
theorem Touches.history_of_ne (h : Touches number who callable s t) (hne : who.transaction ≠ tx) :
    t.history tx = s.history tx := by
  obtain ⟨steps, hsteps, hall⟩ := h.journal
  have hnone : steps.filter (fun st => st.who.transaction = tx) = [] := by
    refine List.filter_eq_nil_iff.mpr fun st hst => ?_
    rw [decide_eq_true_eq, (hall st hst).1]
    exact hne
  rw [State.history, State.history, hsteps, List.filter_append, hnone, List.append_nil]

theorem Agent.journal_conclude {a : Agent Obj} {p : Pending} {out : Option (Request × Option Error)}
    (h : Settled entries s (p :: hands)) (hid : ∀ r, out = some r → r.1.transaction = p.request.transaction) :
    (a.conclude p out s).2.journal = s.journal ∧ (a.conclude p out s).2.transactions = s.transactions := by
  rcases Agent.conclude_cases (a := a) (s := s) hid with ⟨r, hr, -, hparked⟩ | ⟨hquits, -⟩
  · rw [hparked, h.park_eq (hid _ hr)]
    exact ⟨rfl, rfl⟩
  · exact ⟨hquits.clears.journal, hquits.clears.transactions⟩

end Histories

/-! ### Runs -/

variable {a : Agent Obj} {entries : Nat → List Entry} {s₀ s t : State Obj} {hs : List Happening}
  {hands : List Pending} {p : Pending} {ready rested : Pending → List Step → Prop}

/-- What holds of the requests at hand with their histories, and of the parked ones with theirs. -/
structure Upkeep (ready rested : Pending → List Step → Prop) (s : State Obj) (hands : List Pending) : Prop where
  -- A request that begins has no history, as its transaction is new.
  known : ∀ st ∈ s.journal, st.who.transaction.number < s.transactions
  ready : ∀ p ∈ hands, ready p (s.history p.request.transaction)
  rested : ∀ x ∈ s.outstanding.entries, ∀ p, x.parked = some p → rested p (s.history p.request.transaction)

theorem Upkeep.of_same (h : Upkeep ready rested s hands) (houtstanding : t.outstanding.entries = s.outstanding.entries)
    (hjournal : t.journal = s.journal) (htransactions : s.transactions ≤ t.transactions) :
    Upkeep ready rested t hands where
  known st hst := (h.known st (hjournal ▸ hst)).trans_le htransactions
  ready p hp := State.history_congr hjournal _ ▸ h.ready p hp
  rested x hx p hp := State.history_congr hjournal _ ▸ h.rested x (houtstanding ▸ hx) p hp

theorem Upkeep.of_vacant (h : s.Vacant) (hjournal : s.journal = []) : Upkeep ready rested s [] where
  known := by simp [hjournal]
  ready := by simp
  rested := by simp [h.outstanding]

namespace Upkeep

theorem opened (h : Upkeep ready rested s []) (hs : Settled entries s [])
    (hp : ready p []) (hid : p.request.transaction = ⟨s.transactions⟩) :
    Upkeep ready rested (Agent.opened s) [p] where
  known st hst := (h.known st hst).trans (Nat.lt_succ_self _)
  ready q hq := by
    obtain rfl := List.mem_singleton.mp hq
    have hnew : s.history q.request.transaction = [] := by
      refine List.filter_eq_nil_iff.mpr fun st hst heq => ?_
      have hlt := h.known st hst
      rw [of_decide_eq_true heq, hid] at hlt
      exact Nat.lt_irrefl _ hlt
    have hsame : (Agent.opened s).history q.request.transaction = s.history q.request.transaction := rfl
    rw [hsame, hnew]
    exact hp
  rested x hx q hq := by
    rcases hs.mem_opened.mp hx with hx | rfl
    · exact h.rested x hx q hq
    · cases hq

theorem takeUp (h : Upkeep ready rested s []) (hretry : ∀ p h, rested p h → ready p.retry h) :
    Upkeep ready rested { s with outstanding := s.outstanding.takeParked.2 }
      (s.outstanding.takeParked.1.map fun x => x.2.retry) where
  known := h.known
  ready q hq := by
    obtain ⟨x, hx, rfl⟩ := List.mem_map.mp hq
    obtain ⟨y, hy, hparked, -⟩ := s.outstanding.mem_takeParked.mp hx
    exact hretry x.2 _ (h.rested y hy x.2 hparked)
  rested x hx q hq := by
    obtain ⟨y, -, rfl⟩ := List.mem_map.mp hx
    cases hq

variable [ManagedObject Obj]

theorem drive (hservices : a.services = Agent.standardServices) (hU : a.Upholds ready rested)
    (h : Upkeep ready rested s (p :: hands)) (hs : Settled entries s (p :: hands))
    {out : Option (Request × Option Error)} (hpass : (a.pass p).Comes s out t) :
    Upkeep ready rested (a.conclude p out t).2 hands := by
  obtain ⟨htouches, hsettled, hapt, -⟩ := hs.drive hservices hpass
  have hp := hs.apt p (Or.inl List.mem_cons_self)
  have hid (r : Request × Option Error) (hr : out = some r) : r.1.transaction = p.request.transaction :=
    congrArg Requester.transaction (hapt r hr).requester
  obtain ⟨hjournal, htransactions⟩ := Agent.journal_conclude (a := a) hsettled hid
  have hother {q : Pending} (hne : q.request.transaction ≠ p.request.transaction) :
      (a.conclude p out t).2.history q.request.transaction = s.history q.request.transaction :=
    (State.history_congr hjournal _).trans (htouches.history_of_ne hne.symm)
  refine ⟨fun st hst => ?_, fun q hq => ?_, fun x hx q hq => ?_⟩
  · rw [htransactions, htouches.transactions]
    obtain ⟨steps, hsteps, hall⟩ := htouches.journal
    rw [hjournal, hsteps] at hst
    rcases List.mem_append.mp hst with hst | hst
    · exact h.known st hst
    · rw [(hall st hst).1]
      obtain ⟨x, hx, hxid, -⟩ := hs.listed p List.mem_cons_self
      have hfresh := hs.fresh x hx
      rw [hxid] at hfresh
      exact hfresh
  · have hne : q.request.transaction ≠ p.request.transaction := fun heq =>
      (List.nodup_cons.mp hs.once).1 (List.mem_map.mpr ⟨q, hq, heq⟩)
    rw [hother hne]
    exact h.ready q (List.mem_cons_of_mem _ hq)
  · have hkept (hx : x ∈ t.outstanding.entries) (hne : q.request.transaction ≠ p.request.transaction) :
        rested q ((a.conclude p out t).2.history q.request.transaction) := by
      rw [hother hne]
      exact h.rested x (htouches.outstanding ▸ hx) q hq
    rcases Agent.conclude_cases (a := a) (s := t) hid with ⟨r, rfl, hopen, hparked⟩ | ⟨hquits, -⟩
    · rw [hparked] at hx
      rcases (hsettled.mem_park (hid _ rfl)).mp hx with ⟨hx, hne⟩ | ⟨y, -, -, rfl⟩
      · exact hkept hx (hsettled.own x hx q hq ▸ hne)
      · obtain rfl := Option.some.inj hq
        rw [State.history_congr hjournal]
        show rested _ (t.history r.transaction)
        rw [hid _ rfl]
        exact hU.pass hp (hapt _ rfl) (h.ready p List.mem_cons_self) (hpass.yields _) hopen
    · rw [hquits.outstanding, Outstanding.remove, List.mem_filter, decide_eq_true_eq] at hx
      exact hkept hx.1 (hsettled.own x hx.1 q hq ▸ hx.2)

/-- What is kept when a request begins, is taken up again and has a pass, is kept whatever happens. -/
theorem of_chronicle (hservices : a.services = Agent.standardServices) (hU : a.Upholds ready rested)
    (hs₀ : Settled entries s₀ []) (hstart : Upkeep ready rested s₀ []) (h : Chronicle a s₀ hs s hands) :
    Upkeep ready rested s hands := by
  induction h with
  | start => exact hstart
  | later h ht ih =>
    obtain ⟨now, released, rfl⟩ := ht
    exact ih.of_same rfl rfl le_rfl
  | @receive hs s h m ih =>
    obtain ⟨-, houtstanding, htransactions, hjournal⟩ := State.Told.registries (a.told_receive m s)
    exact ih.of_same (congrArg Outstanding.entries houtstanding) hjournal htransactions.ge
  | @takeOn hs s h m mapping ih =>
    have hsettled := h.settled hservices hs₀
    rcases hsettled.takeOn_cases (a := a) m mapping with
      ⟨_, _, heq, -, houtstanding, htransactions, hjournal⟩ | ⟨registry, heq⟩
    · rw [heq]
      exact ih.of_same houtstanding hjournal htransactions
    · rw [heq]
      exact ih.opened hsettled (hU.start m mapping s registry) rfl
  | takeUp h ih => exact ih.takeUp hU.retry
  | drive h hpass ih => exact ih.drive hservices hU (h.settled hservices hs₀) hpass
  | @expire hs s h ih =>
    have hclears := (h.settled hservices hs₀).clears_expire
    refine ⟨fun st hst => ?_, by simp, fun x hx p hp => ?_⟩
    · rw [hclears.transactions]
      exact ih.known st (hclears.journal ▸ hst)
    · rw [Roster.entries_expire] at hx
      exact State.history_congr hclears.journal _ ▸ ih.rested x (List.mem_filter.mp hx).1 p hp

end Upkeep

end Responder
