import Responder.Proofs.Custody.Settled
import Responder.Proofs.Custody.Story

/-! No lock outlives its request. Whatever happens to an agent without tasks in the background, every lock belongs to a
    request that goes on (`Chronicle.settled`). Between two things that happen no request is at hand, so what is
    outstanding is parked, and without outstanding requests no lock is taken (`settled_of_deeds`). -/

namespace Responder

variable {Obj : Type} {entries : Nat → List Entry} {s t u : State Obj} {hands : List Pending} {p : Pending}

/-! ### How requests begin and end -/

/-- The request has ended: it is no longer outstanding, and has given up its locks. -/
structure Pending.Quits (p : Pending) (s t : State Obj) : Prop where
  clears : s.Clears (fun number id => number = p.registry ∧ id = p.request.transaction) t
  outstanding : t.outstanding = s.outstanding.remove p.request.transaction

theorem State.outstanding_releaseLocks (s : State Obj) (number : Nat) (owner : TransactionId) :
    (s.releaseLocks number owner).2.outstanding = s.outstanding := by
  have houtstanding := congrArg State.outstanding (s.bare_releaseLocks number owner)
  exact houtstanding

namespace Agent

variable {a : Agent Obj} {r : Request}

theorem quits_drop (p : Pending) (s : State Obj) : p.Quits s (drop p.registry p.request.transaction s) := by
  have hclears := s.clears_releaseLocks p.registry p.request.transaction
  refine ⟨⟨hclears.sound, hclears.holds, hclears.entries, hclears.locking, hclears.transactions, hclears.journal⟩, ?_⟩
  exact congrArg (Outstanding.remove · p.request.transaction) (s.outstanding_releaseLocks _ _)

theorem quits_finish (hid : r.transaction = p.request.transaction) (m : Inbound) (s : State Obj) :
    p.Quits s (a.finish r m (some p.registry) s).2 := by
  let removed : State Obj := { s with outstanding := s.outstanding.remove r.transaction }
  have hclears := removed.clears_releaseLocks p.registry r.transaction
  obtain ⟨hregistries, houtstanding, htransactions, hjournal⟩ := State.Told.registries <|
    a.told_send m (if m.version = .v1 then Reply.forV1 r.toResponse else r.toResponse) (r.pdu.kind == .getBulk)
      (removed.releaseLocks p.registry r.transaction).2
  have htold := hclears.trans (State.clears_nothing hregistries htransactions hjournal)
  refine ⟨⟨htold.sound, fun number h => ?_, htold.entries, htold.locking, htold.transactions, htold.journal⟩, ?_⟩
  · refine (htold.holds number h).trans ?_
    rw [or_false, hid]
    rfl
  · refine houtstanding.trans ((removed.outstanding_releaseLocks _ _).trans ?_)
    rw [← hid]

/-- After a pass a request is parked, answered or dropped. -/
theorem conclude_cases {out : Option (Request × Option Error)}
    (hout : ∀ r, out = some r → r.1.transaction = p.request.transaction) :
    (∃ r, out = some (r, none) ∧ r.isComplete = false ∧ (a.conclude p out s).2 = park { p with request := r } s) ∨
      p.Quits s (a.conclude p out s).2 ∧
        ((∃ r, out = some (r, none) ∧ r.isComplete = true) ∨ parting p out = [.dropped p.request.transaction]) := by
  rcases out with _ | ⟨r, _ | error⟩
  · exact Or.inr ⟨quits_drop p s, Or.inr rfl⟩
  · have hid := hout _ rfl
    by_cases hcomplete : r.isComplete = true
    · refine Or.inr ⟨?_, Or.inl ⟨r, rfl, hcomplete⟩⟩
      simp only [conclude, if_pos hcomplete]
      exact quits_finish hid p.message s
    · refine Or.inl ⟨r, rfl, Bool.eq_false_iff.mpr hcomplete, ?_⟩
      simp only [conclude, if_neg hcomplete]
  · exact Or.inr ⟨quits_drop p s, Or.inr rfl⟩

end Agent

namespace Settled

/-- A request ends that was at hand. -/
theorem quit (h : Settled entries s (p :: hands)) (hp : p.Quits s t) : Settled entries t hands := by
  refine h.leave hp.clears (h.toRoster.quit hp.outstanding hp.clears.transactions) fun q hq hdead => ?_
  have heq : q.request.transaction = p.request.transaction :=
    Classical.byContradiction fun hne => hdead ((h.lives_quit hp.outstanding).mpr ⟨hq, hne⟩)
  exact ⟨congrArg Pending.registry (h.unique hq (Or.inl List.mem_cons_self) heq), heq⟩

/-- A request begins, and is at hand. -/
theorem opened (h : Settled entries s []) (hid : p.request.transaction = ⟨s.transactions⟩)
    (hp : p.request.Apt p.request.requester (Registers entries p.registry)) :
    Settled entries (Agent.opened s) [p] where
  toRoster := h.toRoster.opened hid hp
  tidy := ⟨h.tidy.sound, h.tidy.entries⟩
  held number x hx := by
    obtain ⟨q, hq, hrest⟩ := h.held number x hx
    exact ⟨q, h.lives_opened.mpr (Or.inr hq), hrest⟩

/-- All that is parked is taken up again, and is at hand. -/
theorem takeUp (h : Settled entries s []) : Settled entries { s with outstanding := s.outstanding.takeParked.2 }
    (s.outstanding.takeParked.1.map fun x => x.2.retry) where
  toRoster := h.toRoster.takeUp
  tidy := ⟨h.tidy.sound, h.tidy.entries⟩
  held number x hx := by
    obtain ⟨q, hq, hregistry, howner⟩ := h.held number x hx
    exact ⟨q.retry, Roster.lives_takeUp.mpr ⟨q, hq, rfl⟩, hregistry, howner⟩

end Settled

/-! ### Expiry -/

/-- What has expired has given up the locks of what was parked. -/
theorem clears_expired : ∀ (expired : List (TransactionId × Option Pending)) (s : State Obj),
    (∀ x ∈ expired, x.2.isSome = true) →
      s.Clears (fun number id => ∃ p, (id, some p) ∈ expired ∧ p.registry = number)
        (expired.foldl Agent.releaseExpired s)
  | [], s, _ => (State.clears_nothing rfl rfl rfl).congr fun number id => by simp
  | (id, none) :: _, _, h => by cases h _ List.mem_cons_self
  | (id, some p) :: rest, s, h => by
    have hclears := clears_expired rest (s.releaseLocks p.registry id).2 fun x hx => h x (List.mem_cons_of_mem _ hx)
    refine ((s.clears_releaseLocks p.registry id).trans hclears).congr fun number other => ?_
    constructor
    · rintro (⟨rfl, rfl⟩ | ⟨q, hq, hregistry⟩)
      · exact ⟨p, List.mem_cons_self, rfl⟩
      · exact ⟨q, List.mem_cons_of_mem _ hq, hregistry⟩
    · rintro ⟨q, hq, hregistry⟩
      rcases List.mem_cons.mp hq with heq | hq
      · obtain ⟨rfl, hpq⟩ := Prod.mk.inj heq
        obtain rfl := Option.some.inj hpq
        exact Or.inl ⟨hregistry.symm, rfl⟩
      · exact Or.inr ⟨q, hq, hregistry⟩

namespace Settled

theorem clears_expire (h : Settled entries s []) :
    s.Clears (fun number id => ∃ p, (id, some p) ∈ (s.outstanding.expire s.now).1 ∧ p.registry = number)
      (Agent.expire s).2 := by
  let shed : State Obj := { s with outstanding := (s.outstanding.expire s.now).2 }
  have hclears := clears_expired (s.outstanding.expire s.now).1 shed fun x hx => by
    obtain ⟨y, hy, rfl⟩ := List.mem_map.mp hx
    obtain ⟨p, hp⟩ := h.parked (List.mem_filter.mp hy).1
    exact hp ▸ rfl
  exact ⟨hclears.sound, hclears.holds, hclears.entries, hclears.locking, hclears.transactions, hclears.journal⟩

/-- Requests expire when none is at hand. -/
theorem expire (h : Settled entries s []) : Settled entries (Agent.expire s).2 [] := by
  refine h.leave h.clears_expire h.toRoster.expire fun q hq hdead => ⟨q, ?_, rfl⟩
  exact Classical.byContradiction fun hopen => hdead (h.lives_expire.mpr ⟨hq, hopen⟩)

end Settled

/-! ### Runs -/

section Runs
variable [ManagedObject Obj] {a : Agent Obj} {s₀ : State Obj} {hs : List Happening}

omit [ManagedObject Obj] in
/-- A message that is served becomes a request at hand, or ends at once. -/
theorem Settled.takeOn (h : Settled entries s []) (m : Inbound) (mapping : Option Mapping) :
    Settled entries (a.takeOn m mapping s).2 (a.takeOn m mapping s).1.getRight?.toList := by
  rcases h.takeOn_cases (a := a) m mapping with
    ⟨_, _, heq, hregistries, houtstanding, htransactions, -⟩ | ⟨registry, heq⟩
  · rw [heq]
    exact h.of_same hregistries houtstanding htransactions
  · rw [heq]
    exact h.opened rfl (.start rfl _ _)

/-- What is at hand has one pass, and is parked, answered or dropped after it. -/
theorem Settled.drive (hservices : a.services = Agent.standardServices) (h : Settled entries s (p :: hands))
    {out : Option (Request × Option Error)} (hpass : (a.pass p).Comes s out t) :
    Touches p.registry p.request.requester (Registers entries p.registry) s t ∧ Settled entries t (p :: hands) ∧
      (∀ r, out = some r → r.1.Apt p.request.requester (Registers entries p.registry)) ∧
      Settled entries (a.conclude p out t).2 hands := by
  have hp := h.apt p (Or.inl List.mem_cons_self)
  obtain ⟨htouches, hout⟩ := (Agent.pass_touches hservices hp h.tidy).of_comes hpass
  have htouched := h.touch List.mem_cons_self htouches
  refine ⟨htouches, htouched, hout, ?_⟩
  have hid (r : Request × Option Error) (hr : out = some r) : r.1.transaction = p.request.transaction :=
    congrArg Requester.transaction (hout r hr).requester
  rcases Agent.conclude_cases (a := a) (s := t) hid with ⟨r, hr, -, hparked⟩ | ⟨hquits, -⟩
  · rw [hparked]
    exact htouched.park (hout _ hr)
  · exact htouched.quit hquits

/-- Whatever happens, every lock belongs to a request that goes on. -/
theorem Chronicle.settled (hservices : a.services = Agent.standardServices) (hs₀ : Settled entries s₀ [])
    (h : Chronicle a s₀ hs s hands) : Settled entries s hands := by
  induction h with
  | start => exact hs₀
  | later h ht ih =>
    obtain ⟨now, released, rfl⟩ := ht
    exact ih.of_same rfl rfl le_rfl
  | @receive hs s h m ih =>
    obtain ⟨hregistries, houtstanding, htransactions, -⟩ := State.Told.registries (a.told_receive m s)
    exact ih.of_same hregistries (congrArg Outstanding.entries houtstanding) htransactions.ge
  | takeOn h m mapping ih => exact ih.takeOn m mapping
  | takeUp h ih => exact ih.takeUp
  | drive h hpass ih => exact (ih.drive hservices hpass).2.2.2
  | expire h ih => exact ih.expire

/-- Nothing is outstanding, and no lock is taken. -/
structure State.Vacant (s : State Obj) : Prop where
  outstanding : s.outstanding.entries = []
  locks : ∀ r ∈ s.registries, r.locks.holds = []

omit [ManagedObject Obj] in
theorem State.Vacant.holds (h : s.Vacant) (number : Nat) : (s.registry number).locks.holds = [] := by
  rw [State.registry, List.getD_eq_getElem?_getD]
  cases hr : s.registries[number]? with
  | none => rfl
  | some r => exact h.locks r (List.mem_of_getElem? hr)

omit [ManagedObject Obj] in
theorem Settled.of_vacant (h : s.Vacant) : Settled (fun number => (s.registry number).entries) s [] := by
  refine ⟨.of_empty h.outstanding, ⟨fun number => ?_, fun _ => rfl⟩, fun number x hx => ?_⟩
  · have hempty : (s.registry number).locks = {} := congrArg Locks.mk (h.holds number)
    rw [hempty]
    exact Locks.sound_nil
  · rw [h.holds] at hx
    cases hx

/-- No lock outlives its request. Whatever happens to an agent with the standard services and without tasks in the
background, if nobody else takes locks: what is outstanding is parked, every lock of a registry belongs to a parked
request that the registry serves, and with nothing outstanding no lock is taken. -/
theorem settled_of_deeds (hservices : a.services = Agent.standardServices) (hinline : a.settings.maxConcurrent = 0)
    {s : Schedule Obj} (hidle : s.Idle) (hvacant : s.state.Vacant) {deeds : List Deed}
    (hdeeds : ∀ registry locks, Deed.relock registry locks ∉ deeds) :
    ∃ enough, ∀ turns ≥ enough,
      let t := (a.performAll turns deeds s).state
      (∀ x ∈ t.outstanding.entries, ∃ p, x.parked = some p ∧ p.request.transaction = x.id) ∧
        (∀ number, ∀ h ∈ (t.registry number).locks.holds, ∃ x ∈ t.outstanding.entries, ∃ p,
          x.parked = some p ∧ p.registry = number ∧ x.id = h.owner) ∧
        (t.outstanding.entries = [] → ∀ number, (t.registry number).locks.holds = []) := by
  obtain ⟨enough, hs, t, hstory, hrun⟩ := chronicle_of_deeds hinline deeds hidle (.start (a := a)) hdeeds
  have hsettled := hstory.settled hservices (.of_vacant hvacant)
  have hheld (number : Nat) (h : Hold) (hh : h ∈ (t.registry number).locks.holds) : ∃ x ∈ t.outstanding.entries, ∃ p,
      x.parked = some p ∧ p.registry = number ∧ x.id = h.owner := by
    obtain ⟨p, hp, hregistry, howner⟩ := hsettled.held number h hh
    obtain ⟨x, hx, hparked⟩ := hp.resolve_left List.not_mem_nil
    exact ⟨x, hx, p, hparked, hregistry, (hsettled.own x hx p hparked).symm.trans howner⟩
  refine ⟨enough, fun turns hturns => ?_⟩
  rw [hrun turns hturns]
  refine ⟨fun x hx => ?_, hheld, fun hempty number => List.eq_nil_iff_forall_not_mem.mpr fun h hh => ?_⟩
  · obtain ⟨p, hp⟩ := hsettled.parked hx
    exact ⟨p, hp, hsettled.own x hx p hp⟩
  · obtain ⟨x, hx, -⟩ := hheld number h hh
    rw [hempty] at hx
    cases hx

end Runs

/-- A request that writes two variables is parked while it is prepared, and then holds the locks of both objects. -/
theorem settled_of_deposit :
    let cellar : Schedule Instrument := ⟨vault, 100, [], [], [], 0, ⟨0⟩⟩
    let keeper := { custodian with settings := { custodian.settings with maxConcurrent := 0 } }
    ((keeper.performAll 100 [.submit deposit] cellar).state.registry 0).locks.holds =
      [⟨⟨0⟩, ⟨0⟩, 1⟩, ⟨⟨1⟩, ⟨0⟩, 1⟩] ∧
    ((keeper.performAll 100 [.submit deposit, .takeUp] cellar).state.registry 0).locks.holds = [] ∧
    ∃ enough, ∀ turns ≥ enough,
      let t := (keeper.performAll turns [.submit deposit, .takeUp] cellar).state
      (∀ x ∈ t.outstanding.entries, ∃ p, x.parked = some p ∧ p.request.transaction = x.id) ∧
        (∀ number, ∀ h ∈ (t.registry number).locks.holds, ∃ x ∈ t.outstanding.entries, ∃ p,
          x.parked = some p ∧ p.registry = number ∧ x.id = h.owner) ∧
        (t.outstanding.entries = [] → ∀ number, (t.registry number).locks.holds = []) := by
  intro cellar keeper
  have hvacant : cellar.state.Vacant := ⟨rfl, by simp [cellar, vault]⟩
  exact ⟨by decide +kernel, by decide +kernel, settled_of_deeds rfl rfl ⟨rfl, rfl, rfl⟩ hvacant (by simp)⟩

end Responder
