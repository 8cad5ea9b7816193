import Responder.Proofs.Custody.Failing
import Responder.Proofs.Posting.Answering
import Responder.Proofs.Resuming.Bulk
import Responder.Proofs.Resuming.Writing

/-! Calls that are put off are made again. While a request is alone under way, and an object puts off a call of a pass
    over it, the request is parked incomplete, and when it is taken up the next time, the call is made again before
    anything is answered; unless a fault of another call is passed on, which ends the request without an answer
    (`recalled_of_deferral`). -/

namespace Responder

variable {Obj : Type} [ManagedObject Obj]

/-- What a pass of a standard service leaves of a request that is alone under way. -/
theorem Solo.leaves {S : Solo} {service : Service Obj} (hservice : service ∈ Agent.standardServices)
    (hserves : service.serves S.who.kind = true) (hversion : S.who.version ≠ .v1)
    (hkeeps : S.who.kind.isSearch = true → KeepsFinds Obj) {s : State Obj} (hs : S.Holds s) {r : Request}
    (hr : S.Ready r) : (service.run S.policy S.registry r).Gives s (S.Leaves (service.run S.policy S.registry) s) := by
  simp only [Agent.standardServices, List.mem_cons, List.not_mem_nil, or_false] at hservice
  rcases hservice with rfl | rfl | rfl | rfl
  · exact get_leaves hversion hs hr (eq_of_beq hserves)
  · have hkind : S.who.kind = .getNext := eq_of_beq hserves
    exact next_leaves hversion hs hr hkind (hkeeps (by rw [hkind]; rfl))
  · have hkind : S.who.kind = .getBulk := eq_of_beq hserves
    exact bulk_leaves hversion hkind (hkeeps (by rw [hkind]; rfl)) hs hr
  · exact set_leaves (eq_of_beq hserves) hs hr

namespace State

/-- The state when the parked requests have been taken up. -/
def taken (s : State Obj) : State Obj := { s with outstanding := s.outstanding.takeParked.2 }

/-- The request is parked, and no other one is outstanding. -/
def Parks (p : Pending) (s : State Obj) : Prop :=
  ∃ deadline, s.outstanding.entries = [⟨p.request.transaction, deadline, some p⟩]

/-- No message comes in, nothing is registered or locked, and nothing expires. Time may pass, and objects may change,
but for what they find where a search is under way. -/
structure Rests (searching : Bool) (s t : State Obj) : Prop where
  registries : t.registries = s.registries
  outstanding : t.outstanding = s.outstanding
  finds : searching = true → ∀ object region, ManagedObject.find? (t.objects object) region =
    ManagedObject.find? (s.objects object) region

end State

namespace Agent

/-- A request for a message is about to be driven, and is alone under way: the message has just been taken on where
nothing was outstanding and no lock was taken, or the request was parked after a pass and nothing has happened since. -/
inductive Attends (a : Agent Obj) (m : Inbound) : Pending → State Obj → Prop
  | first {mapping : Option Mapping} {s t : State Obj} {p : Pending} (hvacant : s.Vacant)
      (htake : a.takeOn m mapping s = (.inr p, t)) : Attends a m p t
  | again {p p' : Pending} {s t t' : State Obj} {result : Except Error Unit} (before : Attends a m p s)
      (hdrive : a.drive p s = .done result t) (hparked : t.Parks p') (hrests : t.Rests m.pdu.kind.isSearch t') :
      Attends a m p'.retry t'.taken

/-- The parked request is taken up, and the call of a step made again before anything is handed over; or else a fault
is passed on before, and the request is not answered. -/
def CallsAgain (a : Agent Obj) (st : Step) (p : Pending) (s : State Obj) : Prop :=
  ∃ out t result, a.pass p.retry s.taken = .done out t ∧ t.sent = s.sent ∧
    a.takeUp s = .done result (a.conclude p.retry out t).2 ∧
    (st.Recalled s t ∨ ∃ error, result = .error error ∧ a.settings.forwardFaults = true ∧
      (a.conclude p.retry out t).2.sent = s.sent)

/-- What look-ups for a request depend on. -/
def solo (a : Agent Obj) (p : Pending) (s : State Obj) : Solo where
  policy := a.policy
  registry := p.registry
  who := p.request.requester
  entries := (s.registry p.registry).entries
  finds object region := ManagedObject.find? (s.objects object) region

/-- A request is made for a message, and nothing else is under way. -/
structure Sole (a : Agent Obj) (m : Inbound) (p : Pending) (s : State Obj) : Prop where
  message : p.message = m
  kind : p.request.requester.kind = m.pdu.kind
  version : p.request.requester.version = m.version
  apt : p.request.Apt p.request.requester fun _ => True
  ready : (a.solo p s).Ready p.request
  owned : (s.registry p.registry).locks.OwnedBy p.request.transaction
  tracked : ∃ deadline, s.outstanding.entries = [⟨p.request.transaction, deadline, none⟩]

variable {a : Agent Obj} {m : Inbound} {p p' : Pending} {s t t' u : State Obj} {service : Service Obj} {r : Request}

omit [ManagedObject Obj] in
/-- Whether a request is ready to be served depends only on the one it is served for. -/
theorem ready_congr {S S' : Solo} (hwho : S'.who = S.who) (h : S.Ready r) : S'.Ready r := by
  have hsuits (x : Item) : S'.Suits x ↔ S.Suits x := by rw [Solo.Suits, Solo.Suits, hwho]
  refine ⟨h.requester.trans hwho.symm, h.kind.trans (congrArg Requester.kind hwho.symm), h.status,
    fun x hx => (hsuits x).mpr (h.suits x hx), h.rested, fun hset => h.phase (hwho ▸ hset), h.sized⟩

omit [ManagedObject Obj] in
/-- A request is ready at its start. -/
theorem ready_start {S : Solo} {pdu : Pdu} (hkind : pdu.kind = S.who.kind) (maxSize : Nat) (created : Instant) :
    S.Ready (.start S.who pdu maxSize created) := by
  have hitem {x : Item} (hx : x ∈ (Request.start S.who pdu maxSize created).items) :
      ∃ index b, x = { index, binding := b, region := Request.regionOf pdu S.who.context b.oid } := by
    obtain ⟨index, _, rfl⟩ := List.mem_mapIdx.mp hx
    exact ⟨index, _, rfl⟩
  refine ⟨rfl, hkind, rfl, fun x hx => ?_, fun x hx => ?_, fun _ => by simp [Request.start], ?_⟩
  · obtain ⟨index, b, rfl⟩ := hitem hx
    cases hsearch : pdu.kind.isSearch with
    | true => exact Or.inr (hkind ▸ hsearch)
    | false =>
      refine Or.inl ?_
      simp only [Request.regionOf, hsearch, Bool.false_eq_true, if_false]
      rfl
  · obtain ⟨index, b, rfl⟩ := hitem hx
    rfl
  · by_cases hbulk : pdu.kind = .getBulk
    · simp only [Repetition.start, Request.size, Request.start, Request.shape?, Request.shapeOf?, hbulk, if_true,
        List.length_mapIdx, List.length_take, Request.startCount, Option.map_some, Option.getD_some, BulkShape.ofPdu]
      split <;> omega
    · simp [Repetition.start, Request.start, Request.shape?, Request.shapeOf?, hbulk]

theorem Sole.holds (h : a.Sole m p s) : (a.solo p s).Holds s :=
  ⟨rfl, h.owned, fun _ _ _ => rfl⟩

/-- A message that has just been taken on. -/
theorem sole_takeOn {mapping : Option Mapping} (hvacant : s.Vacant)
    (htake : a.takeOn m mapping s = (.inr p, t)) : a.Sole m p t := by
  obtain ⟨registry, rfl, rfl⟩ : ∃ registry, p = ⟨a.draft m mapping s, m, registry⟩ ∧ t = opened s := by
    unfold takeOn at htake
    split at htake
    · cases htake
    · split at htake
      · cases htake
      · split at htake
        · cases htake
        · cases htake
          exact ⟨_, rfl, rfl⟩
  have hnobody : (s.registry registry).locks.OwnedBy ⟨s.transactions⟩ := by
    simp [Locks.OwnedBy, hvacant.holds registry]
  refine ⟨rfl, rfl, rfl, .start rfl _ _,
    ready_start (S := a.solo ⟨a.draft m mapping s, m, registry⟩ (opened s)) rfl _ _, hnobody,
    s.now.plus s.outstanding.timeout, ?_⟩
  show (s.outstanding.track ⟨s.transactions⟩ s.now).entries = _
  simp only [Outstanding.track, Outstanding.remove, hvacant.outstanding, List.filter_nil, List.nil_append]
  rfl

section Pass
variable (hservice : a.serviceFor? m.pdu.kind = some service) (hstandard : service ∈ standardServices)
  (hversion : m.version ≠ .v1) (hkeeps : m.pdu.kind.isSearch = true → KeepsFinds Obj)
include hservice hstandard hversion hkeeps

/-- One pass over a request that is alone under way. -/
theorem Sole.pass (h : a.Sole m p s) : ∃ out t, a.pass p s = .done (some out) t ∧
    service.run a.policy p.registry p.request s = .done out t ∧
      (a.solo p s).Leaves (service.run a.policy p.registry) s out t ∧ s.Alike t ∧
        out.1.Apt p.request.requester fun _ => True := by
  have hkind : p.request.pdu.kind = m.pdu.kind := h.apt.kind.trans h.kind
  have hserves : service.serves p.request.requester.kind = true := by
    have hserves := List.find?_some hservice
    exact h.kind ▸ hserves
  have hleaves := Solo.leaves (S := a.solo p s) hstandard hserves (h.version ▸ hversion)
    (fun hsearch => hkeeps (h.kind ▸ hsearch)) h.holds h.ready
  obtain ⟨out, t, hdone, hleaves⟩ := Activity.gives_iff.mp hleaves
  have hdiscreet := (discreet_of_standard hstandard).run a.policy p.registry hserves h.apt (I := s.Alike)
    (fun t u htu hst => ⟨htu.sent.trans hst.sent, htu.counters.trans hst.counters, htu.routes.trans hst.routes,
      htu.outstanding.trans hst.outstanding⟩) s ⟨rfl, rfl, rfl, rfl⟩
  rw [Activity.Ensures, show service.run a.policy p.registry p.request s = .done out t from hdone,
    Progress.ensures_done] at hdiscreet
  refine ⟨out, t, ?_, hdone, hleaves, hdiscreet⟩
  simp only [Agent.pass, hkind, hservice]
  exact Activity.before_of_done hdone _

end Pass

/-- Nothing is left of the one request that was outstanding. -/
theorem Sole.gone (h : a.Sole m p s) (halike : s.Alike t) (hquits : p.Quits t u) : u.outstanding.entries = [] := by
  obtain ⟨deadline, htracked⟩ := h.tracked
  rw [hquits.outstanding, Outstanding.remove, halike.outstanding, htracked]
  simp

/-- An incomplete request is parked, and if nothing happens then, it is alone when it is taken up again. -/
theorem Sole.parked (h : a.Sole m p s) {run : Request → Doing Obj (Request × Option Error)}
    {out : Request × Option Error} (hleaves : (a.solo p s).Leaves run s out t) (halike : s.Alike t)
    (hapt : out.1.Apt p.request.requester fun _ => True) :
    (park { p with request := out.1 } t).Parks { p with request := out.1 } ∧
      ∀ u, (park { p with request := out.1 } t).Rests m.pdu.kind.isSearch u →
        (a.solo p s).Holds u.taken ∧ a.Sole m ({ p with request := out.1 } : Pending).retry u.taken := by
  obtain ⟨r, error⟩ := out
  obtain ⟨deadline, htracked⟩ := h.tracked
  have hid : r.transaction = p.request.transaction := congrArg Requester.transaction hapt.requester
  have hentries : t.outstanding.entries = [⟨r.transaction, deadline, none⟩] := by
    rw [halike.outstanding, htracked, hid]
  have hpark : park { p with request := r } t = { t with outstanding :=
      { t.outstanding with entries := [⟨r.transaction, deadline, some { p with request := r }⟩] } } := by
    simp [park, Outstanding.park?, Outstanding.contains, hentries]
  rw [hpark]
  refine ⟨⟨deadline, rfl⟩, fun u hrests => ?_⟩
  have hregistry (number : Nat) : u.taken.registry number = t.registry number :=
    State.registry_congr (show u.taken.registries = t.registries from hrests.registries) number
  have hholds : (a.solo p s).Holds u.taken := by
    refine ⟨(congrArg Registry.entries (hregistry _)).trans hleaves.holds.entries, ?_, fun hsearch object region => ?_⟩
    · rw [hregistry]
      exact hleaves.holds.owned
    · refine (hrests.finds ?_ object region).trans (hleaves.holds.finds hsearch object region)
      rwa [← h.kind]
  have hwho : r.retry.requester = p.request.requester := hapt.requester
  refine ⟨hholds, h.message, (congrArg Requester.kind hwho).trans h.kind,
    (congrArg Requester.version hwho).trans h.version, ?_, ready_congr (S := a.solo p s) hwho hleaves.ready, ?_,
    deadline, ?_⟩
  · show r.retry.Apt r.retry.requester _
    rw [hwho]
    exact hapt.retry
  · show (u.taken.registry p.registry).locks.OwnedBy r.transaction
    rw [hid]
    exact hholds.owned
  · show (u.outstanding.takeParked.2).entries = _
    rw [hrests.outstanding]
    rfl

theorem takeUp_of_driveAll {first : Option Error}
    (h : a.driveAll s.outstanding.takeParked.1 s.taken = .done first t) :
    ∃ result, a.takeUp s = .done result t ∧ ∀ error, first = some error → result = .error error := by
  unfold takeUp
  rw [Activity.bind_modifyGet]
  cases first with
  | none => exact ⟨_, Activity.bind_of_done h, by simp⟩
  | some error => exact ⟨_, Activity.bind_of_done h, by simp⟩

/-- To take up the one request that is parked is to drive it. -/
theorem takeUp_of_parks (h : s.Parks p) {result : Except Error Unit}
    (hdrive : a.drive p.retry s.taken = .done result t) : ∃ result', a.takeUp s = .done result' t ∧
      ∀ error, result = .error error → result' = .error error := by
  obtain ⟨deadline, hentries⟩ := h
  have hparked : s.outstanding.takeParked.1 = [(p.request.transaction, p)] := by
    simp [Outstanding.takeParked, hentries]
  have hall {first : Option Error} (hfirst : a.driveAll [(p.request.transaction, p)] s.taken = .done first t) :=
    takeUp_of_driveAll (hparked ▸ hfirst)
  cases result with
  | ok =>
    obtain ⟨result', htakeUp, -⟩ := hall ((Activity.bind_of_done hdrive).trans rfl)
    exact ⟨result', htakeUp, by simp⟩
  | error error =>
    obtain ⟨result', htakeUp, herror⟩ := hall ((Activity.bind_of_done hdrive).trans rfl)
    exact ⟨result', htakeUp, by simpa using herror⟩

theorem drive_of_pass {out : Option (Request × Option Error)} (h : a.pass p s = .done out t) :
    a.drive p s = .done (a.conclude p out t).1 (a.conclude p out t).2 := by
  rw [drive_eq]
  exact Activity.bind_of_done h

section Runs
variable (hservice : a.serviceFor? m.pdu.kind = some service) (hstandard : service ∈ standardServices)
  (hversion : m.version ≠ .v1) (hkeeps : m.pdu.kind.isSearch = true → KeepsFinds Obj)
include hservice hstandard hversion hkeeps

/-- A request that is alone at first is alone whenever it is driven. -/
theorem Attends.sole (h : a.Attends m p s) : a.Sole m p s := by
  induction h with
  | first hvacant htake => exact sole_takeOn hvacant htake
  | @again p p' s t t' result before hdrive hparked hrests ih =>
    obtain ⟨⟨r, error⟩, u, hpass, -, hleaves, halike, hapt⟩ := ih.pass hservice hstandard hversion hkeeps
    have hid : r.transaction = p.request.transaction := congrArg Requester.transaction hapt.requester
    cases hdrive.symm.trans (drive_of_pass hpass)
    obtain ⟨deadline, hentries⟩ := hparked
    have hdropped {v : State Obj} (hquits : p.Quits u v) (hv : v.outstanding.entries =
        [⟨p'.request.transaction, deadline, some p'⟩]) : False := by
      rw [ih.gone halike hquits] at hv
      cases hv
    cases error with
    | some error => exact (hdropped (quits_drop p u) hentries).elim
    | none =>
      by_cases hcomplete : r.isComplete = true
      · simp only [conclude, if_pos hcomplete] at hentries
        exact (hdropped (quits_finish hid p.message u) hentries).elim
      · simp only [conclude, if_neg hcomplete] at hentries hrests
        obtain ⟨⟨deadline', hparks⟩, hagain⟩ := ih.parked hleaves halike hapt
        have hsame : ({ p with request := r } : Pending) = p' := by
          injection hparks.symm.trans hentries with hentry
          injection hentry with _ _ hparked
          injection hparked
        subst hsame
        exact (hagain t' hrests).2

/-- **Calls that are put off are made again.** Take a request of version 2c or 3 that is alone under way, and any pass
over it. If an object puts off a call in it, then nothing is handed over, the request is parked incomplete, and when it
is taken up next, the same call of the same object is made for the same item before anything is handed over. What
objects find must not change by a search, and either pass may end instead in the fault of another call that is passed
on, and leave the request unanswered. -/
theorem recalled_of_deferral (h : a.Attends m p s) : ∃ result t calls, a.drive p s = .done result t ∧
    t.journal = s.journal ++ calls ∧ ∀ st ∈ calls, st.PutOff → st.callback ≠ .cleanup → t.sent = s.sent ∧
      ((∃ error, result = .error error ∧ a.settings.forwardFaults = true ∧ t.outstanding.entries = []) ∨
        result = .ok () ∧ ∃ p', t.Parks p' ∧ p'.message = m ∧ p'.request.isComplete = false ∧
          ∀ t', t.Rests m.pdu.kind.isSearch t' → a.CallsAgain st p' t') := by
  have hsole := h.sole hservice hstandard hversion hkeeps
  obtain ⟨⟨r, error⟩, u, hpass, -, hleaves, halike, hapt⟩ := hsole.pass hservice hstandard hversion hkeeps
  have hid : r.transaction = p.request.transaction := congrArg Requester.transaction hapt.requester
  obtain ⟨calls, hcalls, hputs⟩ := hleaves.steps
  refine ⟨_, _, calls, drive_of_pass hpass, ?_, fun st hst hoff hcleanup => ?_⟩
  · have hout (r' : Request × Option Error) (hr' : some (r, error) = some r') :
        r'.1.transaction = p.request.transaction := Option.some.inj hr' ▸ hid
    obtain ⟨r', hr', -, hparked⟩ | ⟨hquits, -⟩ := conclude_cases (a := a) (s := u) hout
    · rw [hparked, park]
      split
      · exact hcalls
      · exact (u.clears_releaseLocks _ _).journal.trans hcalls
    · exact hquits.clears.journal.trans hcalls
  cases error with
  | some error =>
    refine ⟨(quiet_drop _ _ u).sent.trans halike.sent, Or.inl ⟨error, rfl, hleaves.fault rfl, ?_⟩⟩
    exact hsole.gone halike (quits_drop p u)
  | none =>
    obtain ⟨hopen, hrecall⟩ := hputs st hst hoff hcleanup rfl
    have hconclude : a.conclude p (some (r, none)) u = (.ok (), park { p with request := r } u) := by
      simp only [conclude, hopen, Bool.false_eq_true, if_false]
    rw [hconclude]
    refine ⟨(quiet_park _ u).sent.trans halike.sent, Or.inr ⟨rfl, { p with request := r }, ?_⟩⟩
    obtain ⟨hparks, hagain⟩ := hsole.parked hleaves halike hapt
    refine ⟨hparks, hsole.message, hopen, fun t' hrests => ?_⟩
    -- The next pass is a pass over a request that is alone, and it is the one that makes the call again.
    obtain ⟨hholds, hsole'⟩ := hagain t' hrests
    have hparks' : t'.Parks { p with request := r } := by
      obtain ⟨deadline, hentries⟩ := hparks
      exact ⟨deadline, hrests.outstanding ▸ hentries⟩
    obtain ⟨⟨r', error'⟩, v, hpass', hrun', hleaves', halike', -⟩ :=
      hsole'.pass hservice hstandard hversion hkeeps
    obtain ⟨result, htakeUp, herror⟩ := takeUp_of_parks hparks' (drive_of_pass hpass')
    refine ⟨_, v, result, hpass', halike'.sent, htakeUp, ?_⟩
    cases error' with
    | some error' =>
      exact Or.inr ⟨error', herror error' rfl, hleaves'.fault rfl, (quiet_drop _ _ v).sent.trans halike'.sent⟩
    | none =>
      obtain ⟨out, w, hrun, hrecalled⟩ := Activity.gives_iff.mp (hrecall t'.taken hholds)
      cases hrun'.symm.trans hrun
      exact Or.inl (hrecalled rfl)

end Runs

/-! ### Runs that are resumed, and runs that are not -/

/-- No object of this library changes what it finds when it is searched. -/
theorem keepsFinds_instrument : KeepsFinds Instrument := by
  intro x who item region
  cases x with
  | scripted x =>
    have hplainly (x : Scripted) : (x.plainly .next item).object = x := by
      simp only [Scripted.plainly]
      split <;> rfl
    simp only [ManagedObject.next, Instrument.forward, Reaction.mapObject, Scripted.react]
    split
    · rw [hplainly]
    · simp only [Scripted.play]
      split
      · rw [hplainly]
        rfl
      · rfl
  | _ =>
    simp only [ManagedObject.next, Instrument.forward, Reaction.mapObject]
    split <;> rfl

/-- Two probes that play scripts, with a variable each. -/
def rehearsal (script : ObjectId → Callback → List Action) : State Instrument :=
  let probe (id : ObjectId) : Scripted :=
    { region := .subtree ⟨[if id.number = 0 then 1 else 2]⟩
      values := ⟨[(⟨[if id.number = 0 then 1 else 2, 0]⟩, .integer 1)]⟩
      script := script id }
  { Set.probes with objects := fun id => .scripted (probe id) }

/-- A request for a variable of each probe. -/
def prompt (kind : Pdu.Kind) (oids : List Oid) : Inbound :=
  .ofUser [117] .noAuthNoPriv [] [] Set.writer.peer (.asking kind 1 oids)

/-- A search of which the second part is put off. -/
theorem recalled_of_rehearsal :
    let m := prompt .getNext [⟨[1]⟩, ⟨[2]⟩]
    let start := rehearsal fun id callback =>
      if id.number = 1 ∧ callback = .next then [{ edits := [.defer] }] else []
    let p : Pending := ⟨plain.draft m none start, m, 0⟩
    plain.Attends m p (opened start) ∧ ∃ t st p', plain.drive p (opened start) = .done (.ok ()) t ∧
      st ∈ t.journal ∧ st.callback = .next ∧ st.PutOff ∧ t.Parks p' ∧ plain.CallsAgain st p' t := by
  intro m start p
  have hattends : plain.Attends m p (opened start) := by
    refine .first ⟨rfl, by simp [start, rehearsal, Set.probes]⟩ (show plain.takeOn m none start = _ from rfl)
  refine ⟨hattends, ?_⟩
  obtain ⟨result, t, calls, hdrive, hcalls, hagain⟩ := recalled_of_deferral
    (show plain.serviceFor? m.pdu.kind = some Next.service from rfl) (by simp [standardServices]) (by decide)
    (fun _ => keepsFinds_instrument) hattends
  have hrun : ((plain.drive p (opened start)).result?.any fun out => out.2.journal.any fun st =>
      decide (st.callback = .next ∧ st.PutOff)) = true := by
    decide +kernel
  rw [hdrive] at hrun
  have hrun : (t.journal.any fun st => decide (st.callback = .next ∧ st.PutOff)) = true := hrun
  obtain ⟨st, hst, hnext⟩ := List.any_eq_true.mp hrun
  obtain ⟨hnext, hoff⟩ := of_decide_eq_true hnext
  have hst : st ∈ calls := by simpa using (show st ∈ [] ++ calls from hcalls ▸ hst)
  obtain ⟨-, ⟨error, -, hforwards, -⟩ | ⟨rfl, p', hparks, -, -, hrests⟩⟩ := hagain st hst hoff (by simp [hnext])
  · cases hforwards
  · refine ⟨t, st, p', hdrive, hcalls ▸ List.mem_append_right _ hst, hnext, hoff, hparks, hrests t ?_⟩
    exact ⟨rfl, rfl, fun _ _ _ => rfl⟩

/-- A variable that is no longer found once it has been searched for. -/
structure Mirage where
  oid : Oid
  faded : Bool := false

instance : ManagedObject Mirage where
  region x := .subtree x.oid
  find? x region := if region.contains x.oid && !x.faded then some x.oid else none
  get _ _ x := { object := x, result := .ok () }
  next _ _ x := { object := { x with faded := true }, edits := [.defer], result := .ok true }

/-- Nothing but a variable that fades. -/
def desert : State Mirage where
  objects _ := { oid := ⟨[1, 0]⟩ }
  registries := [{ entries := [⟨.subtree ⟨[1]⟩, ⟨0⟩⟩] }]
  outstanding := ⟨.seconds 300, []⟩

/-- What the theorem excludes does happen. Two variables are read, and the first object asks to be called again. Then
the fault of the second one is passed on; or both ask to be called again, and the first one has a fault before it is the
second one's turn; or the first object has also completed the item. At last, a variable is searched for that is not
found any more when the search is resumed. In none of these runs is the call made again. -/
theorem unrecalled_of_rehearsals :
    let asks (st : Step) : Bool :=
      st.after.deferred && decide (st.result = .ok true ∧ st.after.status = st.before.status)
    let play (a : Agent Instrument) (script : ObjectId → List Action) : State Instrument :=
      let stage := rehearsal fun id callback => if callback = .get then script id else []
      let deeds : List Deed := [.submit (prompt .get [⟨[1, 0]⟩, ⟨[2, 0]⟩]), .drain, .takeUp]
      (a.performAll 100 deeds ⟨stage, 100, [], [], [], 0, ⟨0⟩⟩).state
    let told {Obj : Type} (s : State Obj) :=
      (s.journal.map fun st => (st.callback, st.index, asks st), s.sent.length, s.outstanding.entries.length)
    let off : Action := { edits := [.defer] }
    let fault : Action := { fault := some ⟨none, "disk full"⟩ }
    told (play strict fun id => if id.number = 0 then [off] else [fault]) =
      ([(.get, 0, true), (.get, 1, false)], 0, 0) ∧
    told (play strict fun id => if id.number = 0 then [off, fault] else [off]) =
      ([(.get, 0, true), (.get, 1, true), (.get, 0, false)], 0, 0) ∧
    told (play plain fun id => if id.number = 0 then [{ edits := [.complete, .defer] }] else []) =
      ([(.get, 0, true), (.get, 1, false)], 1, 0) ∧
    told (({ services := standardServices } : Agent Mirage).performAll 100
      [.submit (prompt .getNext [⟨[1]⟩]), .drain, .takeUp] ⟨desert, 100, [], [], [], 0, ⟨0⟩⟩).state =
        ([(.next, 0, true)], 1, 0) := by
  decide +kernel

end Agent
end Responder
