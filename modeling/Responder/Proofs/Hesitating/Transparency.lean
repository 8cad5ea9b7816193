import Responder.Proofs.Hesitating.Reading
import Responder.Proofs.Hesitating.Writing
import Responder.Proofs.Resuming.Recall

/-! Objects may put off their calls without anybody noticing. A message is processed with nothing else under way, and
    what is parked is taken up again and again. Sooner or later the request is complete, and what is sent then, and
    what the objects hold, is the same as where no call is put off (`Agent.unnoticed_of_hesitation`). -/

namespace Responder

variable {Obj' Obj : Type} [ManagedObject Obj'] [ManagedObject Obj] {H : Hesitation Obj' Obj}

omit [ManagedObject Obj'] in
/-- Where nothing is outstanding, no lock is taken. -/
theorem Settled.vacant {entries : Nat → List Entry} {s : State Obj'} (h : Settled entries s [])
    (hempty : s.outstanding.entries = []) : s.Vacant := by
  refine ⟨hempty, fun registry hregistry => List.eq_nil_iff_forall_not_mem.mpr fun x hx => ?_⟩
  obtain ⟨number, hnumber⟩ := List.mem_iff_getElem?.mp hregistry
  have hsame : s.registry number = registry := by
    rw [State.registry, List.getD_eq_getElem?_getD, hnumber, Option.getD_some]
  obtain ⟨p, hlives, -⟩ := h.held number x (hsame ▸ hx)
  rcases hlives with hp | ⟨y, hy, -⟩
  · cases hp
  · rw [hempty] at hy
    cases hy

/-- What look-ups depend on is the same where the registries and the objects are. -/
theorem Solo.Holds.congr {S : Solo} {s t : State Obj'} (h : S.Holds s) (hregistries : t.registries = s.registries)
    (hobjects : t.objects = s.objects) : S.Holds t := by
  have hregistry := State.registry_congr hregistries S.registry
  refine ⟨?_, ?_, hobjects ▸ h.finds⟩
  · rw [hregistry]
    exact h.entries
  · rw [hregistry]
    exact h.owned

/-- Each standard service but the one for bulk requests brings a request to its one end. -/
theorem Hesitation.steers (H : Hesitation Obj' Obj) {S : Solo} {service : Service Obj'}
    (hprompt : Prompt Obj) (hservice : service ∈ Agent.standardServices) (hserves : service.serves S.who.kind = true)
    (hkind : S.who.kind ≠ .getBulk) (hversion : S.who.version ≠ .v1) (hquiet : S.policy.forwardFaults = false) :
    ∃ leads, H.Steers S (service.run S.policy S.registry) leads := by
  simp only [Agent.standardServices, List.mem_cons, List.not_mem_nil, or_false] at hservice
  rcases hservice with rfl | rfl | rfl | rfl
  · exact ⟨_, get_steers hversion hprompt hquiet (eq_of_beq hserves)⟩
  · exact ⟨_, next_steers hversion hprompt hquiet (eq_of_beq hserves)⟩
  · exact absurd (eq_of_beq hserves) hkind
  · exact ⟨_, set_steers hprompt hquiet (eq_of_beq hserves)⟩

namespace Agent

variable {a : Agent Obj'} {m : Inbound} {p : Pending} {s t u : State Obj'} {service : Service Obj'}

/-- Takes up what is parked, so many times. -/
def takeUps (a : Agent Obj') : Nat → Doing Obj' Unit
  | 0 => return ()
  | n + 1 => a.takeUp >>= fun _ => a.takeUps n

/-- Processes a message, and then takes up what is parked, so many times. -/
def seeThrough (a : Agent Obj') (m : Inbound) (n : Nat) : Doing Obj' Unit := a.process m >>= fun _ => a.takeUps n

/-- Nothing happens where nothing is outstanding. -/
theorem takeUps_of_idle (h : s.outstanding.entries = []) (n : Nat) : a.takeUps n s = .done () s := by
  have htaken : s.taken = s := by
    have hsame : s.outstanding.takeParked.2 = s.outstanding := by
      rw [Outstanding.takeParked, h, List.map_nil, ← h]
    rw [State.taken, hsame]
  have hall : a.driveAll s.outstanding.takeParked.1 s.taken = .done none s := by
    rw [htaken, Outstanding.takeParked, h, List.filterMap_nil, List.mergeSort_nil]
    rfl
  obtain ⟨result, htakeUp, -⟩ := takeUp_of_driveAll hall
  induction n with
  | zero => rfl
  | succ n ih => exact (Activity.bind_of_done htakeUp).trans ih

/-- A request has come to an end that its course leads to, and has been answered. -/
structure Ends (H : Hesitation Obj' Obj) (a : Agent Obj') (m : Inbound)
    (leads : Standing Obj → Standing Obj → Prop) (p : Pending) (s : State Obj')
    (r : Request) (t u : State Obj') : Prop where
  leads : leads (p.request.calm, H.world s.objects) (r.calm, H.world t.objects)
  complete : r.isComplete = true
  pdu : r.pdu = p.request.pdu
  quiet : s.Quiet t
  answered : u = (a.finish r m (some p.registry) t).2
  vacant : u.Vacant

/-- A request is about to be driven, and it is the one whose course is considered. -/
structure OnCourse (a : Agent Obj') (m : Inbound) (S : Solo) (entries : Nat → List Entry) (p : Pending)
    (s : State Obj') : Prop where
  policy : S.policy = a.policy
  registry : S.registry = p.registry
  who : S.who = p.request.requester
  sole : a.Sole m p s
  holds : S.Holds s
  phased : S.Phased p.request
  settled : Settled entries s [p]

section Course
variable (hprompt : Prompt Obj) (hservices : a.services = standardServices)
  (hservice : a.serviceFor? m.pdu.kind = some service) (hversion : m.version ≠ .v1) {S : Solo}
  {leads : Standing Obj → Standing Obj → Prop}
  (hsteers : H.Steers S (service.run S.policy S.registry) leads) {entries : Nat → List Entry}
include hprompt hservices hservice hversion hsteers

/-- When the request has been driven, it has come to its end, or it is parked and there is less to go through. -/
theorem OnCourse.driven (h : a.OnCourse m S entries p s) :
    (∃ r t result u, a.drive p s = .done result u ∧ a.Ends H m leads p s r t u) ∨
      ∃ q result t, a.drive p s = .done result t ∧ t.Parks q ∧ q.registry = p.registry ∧
        a.OnCourse m S entries q.retry t.taken ∧ s.Quiet t ∧
        q.request.pdu = p.request.pdu ∧
        leads (p.request.calm, H.world s.objects) (q.retry.request.calm, H.world t.objects) ∧
        H.doubts S.entries t.objects < H.doubts S.entries s.objects := by
  have hstandard : service ∈ standardServices := hservices ▸ List.mem_of_find?_eq_some hservice
  obtain ⟨⟨r, error⟩, t, hpass, hrun, hleaves, halike, hapt⟩ :=
    h.sole.pass hservice hstandard hversion fun _ => H.keepsFinds hprompt
  have hready : S.Ready p.request := ready_congr (S := a.solo p s) h.who h.sole.ready
  have hfit : p.request.Apt S.who fun object => ∃ e ∈ S.entries, e.object = object := by
    have hentries : entries p.registry = S.entries := by
      rw [← h.settled.tidy.entries, ← h.registry, h.holds.entries]
    have hapt := h.settled.apt p (Or.inl (List.mem_singleton_self p))
    unfold Registers at hapt
    rwa [hentries, ← h.who] at hapt
  obtain ⟨out, t', hdone, hled⟩ := Activity.gives_iff.mp (hsteers.pass h.holds hready h.phased hfit)
  rw [h.policy, h.registry] at hdone
  cases hrun.symm.trans hdone
  obtain rfl : error = none := hled.quiet
  have hid : r.transaction = p.request.transaction := congrArg Requester.transaction hapt.requester
  have hcomes : (a.pass p).Comes s (some (r, none)) t := by
    rw [Activity.Comes, hpass]
    exact Progress.comes_done.mpr ⟨rfl, rfl⟩
  obtain ⟨-, hsettled, -, hafter⟩ := h.settled.drive hservices hcomes
  have hdrive := drive_of_pass hpass
  have hquiet : s.Quiet t := ⟨halike.sent, congrArg Counters.silentDrops halike.counters⟩
  by_cases hcomplete : r.isComplete = true
  · simp only [conclude, if_pos hcomplete, h.sole.message] at hdrive hafter
    have hgone := h.sole.gone halike (quits_finish (a := a) hid m t)
    exact Or.inl ⟨r, t, _, _, hdrive, hled.leads, hcomplete, hled.pdu, hquiet, rfl, hafter.vacant hgone⟩
  · -- To park it changes neither the objects nor the registries, so there is as much left as after the pass.
    simp only [conclude, if_neg hcomplete] at hdrive hafter
    obtain ⟨hparks, hagain⟩ := h.sole.parked hleaves halike hapt
    obtain ⟨-, hsole⟩ := hagain _ ⟨rfl, rfl, fun _ _ _ => rfl⟩
    have hpark := hsettled.park_eq (q := { p with request := r }) hid
    have hobjects : (park { p with request := r } t).objects = t.objects := by rw [hpark]
    have hregistries : (park { p with request := r } t).registries = t.registries := by rw [hpark]
    have hretried : ((park { p with request := r } t).outstanding.takeParked.1.map fun x => x.2.retry) =
        [({ p with request := r } : Pending).retry] := by
      obtain ⟨deadline, hentries⟩ := hparks
      simp [Outstanding.takeParked, hentries]
    refine Or.inr ⟨_, _, _, hdrive, hparks, rfl, ⟨h.policy, h.registry, ?_, hsole, ?_, hled.phased, ?_⟩,
      hquiet.trans (quiet_park _ t), hled.pdu, ?_, ?_⟩
    · exact h.who.trans hapt.requester.symm
    · exact hled.holds.congr hregistries hobjects
    · exact hretried ▸ hafter.takeUp
    · rw [hobjects, show ({ p with request := r } : Pending).retry.request.calm = r.calm from Request.calm_retry]
      exact hled.leads
    · rw [hobjects]
      exact hled.less.resolve_left hcomplete

/-- A request that is alone under way comes to its end, when it has been taken up as often as a call could be put
off. -/
theorem OnCourse.ends (n : Nat) : ∀ {p : Pending} {s : State Obj'}, a.OnCourse m S entries p s →
    H.doubts S.entries s.objects ≤ n → ∃ r t u, a.Ends H m leads p s r t u ∧
      (a.drive p >>= fun _ => a.takeUps n) s = .done () u := by
  induction n with
  | zero =>
    intro p s h hdoubts
    rcases h.driven hprompt hservices hservice hversion hsteers with ⟨r, t, result, u, hdrive, hends⟩ |
      ⟨q, result, t, -, -, -, -, -, -, -, hless⟩
    · exact ⟨r, t, u, hends, Activity.bind_of_done hdrive⟩
    · omega
  | succ n ih =>
    intro p s h hdoubts
    rcases h.driven hprompt hservices hservice hversion hsteers with ⟨r, t, result, u, hdrive, hends⟩ |
      ⟨q, result, t, hdrive, hparks, hregistry, hcourse, hquiet, hpdu, hleads, hless⟩
    · exact ⟨r, t, u, hends, (Activity.bind_of_done hdrive).trans (takeUps_of_idle hends.vacant.outstanding _)⟩
    · obtain ⟨r, t', u, hends, hrun⟩ := ih hcourse (by show H.doubts S.entries t.objects ≤ n; omega)
      refine ⟨r, t', u, ⟨hsteers.trans hleads hends.leads, hends.complete, hends.pdu.trans hpdu, hquiet.trans ?_, ?_,
        hends.vacant⟩, ?_⟩
      · exact ⟨hends.quiet.sent, hends.quiet.drops⟩
      · rw [← hregistry]
        exact hends.answered
      · -- What is parked is all that is taken up, so that to take it up is to drive it.
        obtain ⟨result', v, hagain⟩ : ∃ result' v, a.drive q.retry t.taken = .done result' v := by
          rcases hcourse.driven hprompt hservices hservice hversion hsteers with ⟨-, -, result', v, hagain, -⟩ |
            ⟨-, result', v, hagain, -⟩
          · exact ⟨result', v, hagain⟩
          · exact ⟨result', v, hagain⟩
        obtain ⟨taken, htakeUp, -⟩ := takeUp_of_parks hparks hagain
        rw [Activity.bind_of_done hagain] at hrun
        exact (Activity.bind_of_done hdrive).trans ((Activity.bind_of_done htakeUp).trans hrun)

end Course

/-! ### What does not depend on objects -/

/-- Another state of the objects. -/
abbrev withObjects (objects : ObjectId → Obj') {α : Type} (out : α × State Obj') : α × State Obj' :=
  (out.1, { out.2 with objects })

section Objects
variable (a) (m) (s) (objects : ObjectId → Obj')

omit [ManagedObject Obj']

theorem send_objects (pdu : Pdu) (bulk : Bool) :
    a.send m pdu bulk { s with objects } = withObjects objects (a.send m pdu bulk s) := by
  unfold send
  split
  · rfl
  · split <;> rfl

theorem forward_objects (mapping : Option Mapping) (engine : Octets) :
    a.forward m mapping engine { s with objects } = withObjects objects (a.forward m mapping engine s) := by
  unfold forward
  split
  · rfl
  · dsimp only
    split
    · rfl
    · next forwarder requestClass _ =>
      let noted := s.note (.relay forwarder.name ⟨m, mapping, engine, requestClass⟩)
      split
      · exact send_objects a m noted objects _ _
      · split
        · rfl
        · split
          · exact send_objects a m (noted.count .proxyDrops).2 objects _ _
          · rfl

theorem receive_objects : a.receive m { s with objects } = withObjects objects (a.receive m s) := by
  have hgo (mapping : Option Mapping) : (let m := limited m mapping
      let engine := (mapping.map Mapping.engine).getD m.engine
      if a.settings.isOwnEngine engine then (Course.serve m mapping, ({ s with objects } : State Obj'))
      else (.ended (a.forward m mapping engine { s with objects }).1,
        (a.forward m mapping engine { s with objects }).2)) = withObjects objects (let m := limited m mapping
      let engine := (mapping.map Mapping.engine).getD m.engine
      if a.settings.isOwnEngine engine then (Course.serve m mapping, s)
      else (.ended (a.forward m mapping engine s).1, (a.forward m mapping engine s).2)) := by
    dsimp only
    split
    · rfl
    · rw [forward_objects]
  unfold receive
  split
  · rfl
  · dsimp only
    split
    · rfl
    · exact hgo none
    · exact hgo _

/-- What becomes of a message before any object is called. -/
theorem takeOn_objects (mapping : Option Mapping) :
    a.takeOn m mapping { s with objects } = withObjects objects (a.takeOn m mapping s) := by
  have hfinish (r : Request) :
      a.finish r m none (opened { s with objects }) = withObjects objects (a.finish r m none (opened s)) :=
    send_objects a m { opened s with outstanding := (opened s).outstanding.remove r.transaction } objects _ _
  have hrefuse : a.refuse m { s with objects } = withObjects objects (a.refuse m s) := by
    unfold refuse
    dsimp only
    split
    · rfl
    · exact send_objects a m (s.count .unknownPduHandlers).2 objects _ _
  have hview : a.viewOf m mapping { s with objects } = a.viewOf m mapping s := rfl
  have hdraft : a.draft m mapping { s with objects } = a.draft m mapping s := rfl
  unfold takeOn
  rw [hview, hdraft, hfinish, hfinish, hrefuse]
  split
  · rfl
  · split
    · rfl
    · dsimp only
      split <;> rfl

omit a m objects in
theorem objects_finish (a : Agent Obj') (r : Request) (m : Inbound) (registry : Option Nat) :
    (a.finish r m registry s).2.objects = s.objects := by
  let removed : State Obj' := { s with outstanding := s.outstanding.remove r.transaction }
  have hreleased (registry : Nat) : (removed.releaseLocks registry r.transaction).2.objects = removed.objects :=
    State.objects_eq_of_bare (removed.bare_releaseLocks registry r.transaction)
  have hsent (u : State Obj') (pdu : Pdu) (bulk : Bool) : (a.send m pdu bulk u).2.objects = u.objects := by
    obtain ⟨_, _, _, htold⟩ := a.told_send m pdu bulk u
    rw [htold]
  unfold finish
  dsimp only
  rw [hsent]
  cases registry with
  | none => rfl
  | some registry => exact hreleased registry

end Objects

/-! ### Responses -/

/-- A message has got one response; or none, as there was no room even to say that the response would have been too
big. -/
def Responds (m : Inbound) (s t : State Obj') : Prop :=
  (∃ reply, t.sent = s.sent ++ [.replyTo m reply]) ∨
    m.maxSize < (Reply.tooBig m.pdu.toResponse).size ∧ t.sent = s.sent ∧
      t.counters.silentDrops = s.counters.silentDrops + 1

omit [ManagedObject Obj'] in
theorem limited_version (m : Inbound) (mapping : Option Mapping) : (limited m mapping).version = m.version := by
  rw [limited_eq]

omit [ManagedObject Obj'] in
theorem responds_of_posts {m₀ : Inbound} {mapping : Option Mapping} {r : Request} {result : Except Error Unit}
    (h : a.Posts (.of m₀ mapping (r.answer m₀.version)) s result t) (hopen : a.outlet = .open)
    (hkind : m₀.pdu.kind ≠ .getBulk) (hversion : m₀.version ≠ .v1) (hpdu : r.pdu = m₀.pdu) :
    Responds (limited m₀ mapping) s t := by
  have hanswer : r.answer m₀.version = r.toResponse := if_neg hversion
  have hshortest : Reply.tooBig r.toResponse = Reply.tooBig m₀.pdu.toResponse := by
    rw [← hpdu]
    unfold Request.toResponse Request.responseHeader
    split <;> rfl
  have hlimit : (limited m₀ mapping).maxSize = m₀.limit mapping := by rw [limited_eq]
  cases hposted : (Letter.of m₀ mapping (r.answer m₀.version)).posted with
  | some reply =>
    refine Or.inl ⟨reply, ?_⟩
    rw [h.sent, hopen, Letter.outs, hposted]
    rfl
  | none =>
    refine Or.inr ⟨?_, ?_, ?_⟩
    · have hfitted := (Letter.of m₀ mapping (r.answer m₀.version)).fitted
      rw [hposted] at hfitted
      rw [hlimit, limited_pdu, ← hshortest, ← hanswer]
      cases hfitted with
      | report _ hreport => cases (r.kind_answer m₀.version).symm.trans hreport
      | noPart _ _ hbulk => exact absurd (eq_of_beq hbulk) hkind
      | nothing _ _ _ hnone => exact hnone
    · rw [h.sent, hopen, Letter.outs, hposted]
      exact List.append_nil _
    · rw [h.drops, Letter.drops, if_pos hposted]
      rfl

/-! ### Two runs -/

section Runs
variable {m₀ : Inbound} {mapping : Option Mapping}

omit [ManagedObject Obj'] in
theorem ne_getBulk {kind : Pdu.Kind} (hkind : kind = .get ∨ kind = .getNext ∨ kind = .set) : kind ≠ .getBulk := by
  rcases hkind with rfl | rfl | rfl <;> simp

/-- There is a service for whatever is read or written. -/
theorem served_of_standard (hservices : a.services = standardServices) {kind : Pdu.Kind}
    (hkind : kind = .get ∨ kind = .getNext ∨ kind = .set) : ∃ service, a.serviceFor? kind = some service := by
  rw [serviceFor?, hservices]
  rcases hkind with rfl | rfl | rfl <;> exact ⟨_, rfl⟩

theorem process_of_accepts {out : Except Error Unit ⊕ Pending} (h : a.Accepts m₀ m mapping)
    (htake : a.takeOn m mapping s = (out, t)) : a.process m₀ s = a.goOn out t := by
  rw [process, Activity.bind_modifyGet, receive_eq_serve_iff.mpr ⟨h, rfl⟩]
  dsimp only
  rw [serve_eq, Activity.bind_modifyGet, htake]

/-- The end of a request is that its answer is posted. -/
theorem Ends.posts {leads : Standing Obj → Standing Obj → Prop} {r : Request}
    (h : a.Ends H (limited m₀ mapping) leads p s r t u) (hpdu : p.request.pdu = m₀.pdu) :
    ∃ result, a.Posts (.of m₀ mapping (r.answer m₀.version)) s result u := by
  have hkind : r.pdu.kind = m₀.pdu.kind := congrArg Pdu.kind (h.pdu.trans hpdu)
  rw [h.answered]
  exact ⟨_, (a.posts_finish m₀ mapping t hkind _).of_quiet h.quiet⟩

omit [ManagedObject Obj'] in
/-- What ends at once where there is a service for it has failed. -/
theorem finish_of_ended {result : Except Error Unit} (hservice : a.serviceFor? m.pdu.kind = some service)
    (h : a.takeOn m mapping s = (.inl result, t)) :
    ∃ status, t = (a.finish ((a.draft m mapping s).fail status) m none (opened s)).2 := by
  unfold takeOn at h
  rw [if_neg (by simp [hservice])] at h
  split at h
  · obtain ⟨-, rfl⟩ := Prod.mk.inj h
    exact ⟨_, rfl⟩
  · split at h
    · obtain ⟨-, rfl⟩ := Prod.mk.inj h
      exact ⟨_, rfl⟩
    · cases h

theorem seeThrough_of_taken (h : a.Accepts m₀ m mapping) (htake : a.takeOn m mapping s = (.inr p, t)) {n : Nat}
    (hrun : (a.drive p >>= fun _ => a.takeUps n) t = .done () u) : a.seeThrough m₀ n s = .done () u := by
  rw [← hrun]
  exact congrArg (Progress.bind · _) (process_of_accepts h htake)

/-- Two runs for a message end alike. They have sent the same, all objects hold the same, and nothing is outstanding or
locked. If the message was accepted, it has been responded to. -/
structure Unnoticed (H : Hesitation Obj' Obj) (a : Agent Obj') (m₀ : Inbound) (s t t' : State Obj') : Prop where
  sent : t'.sent = t.sent
  world : H.world t'.objects = H.world t.objects
  vacant : t.Vacant
  vacant' : t'.Vacant
  responds : ∀ m mapping, a.Accepts m₀ m mapping → a.outlet = .open → Responds m s t

/-- What ends before any object is called ends alike. -/
theorem unnoticed_of_ended {objects : ObjectId → Obj'} (hworld : H.world objects = H.world s.objects)
    {result : Except Error Unit} (hended : a.process m₀ s = .done result t)
    (hended' : a.process m₀ { s with objects } = .done result { t with objects }) (hobjects : t.objects = s.objects)
    (hvacant : t.Vacant) (hresponds : ∀ m mapping, a.Accepts m₀ m mapping → a.outlet = .open → Responds m s t)
    (n n' : Nat) : ∃ u u', a.seeThrough m₀ n s = .done () u ∧ a.seeThrough m₀ n' { s with objects } = .done () u' ∧
      a.Unnoticed H m₀ s u u' := by
  have hvacant' : ({ t with objects } : State Obj').Vacant := ⟨hvacant.outstanding, hvacant.locks⟩
  refine ⟨t, { t with objects }, ?_, ?_, rfl, hobjects ▸ hworld, hvacant, hvacant', hresponds⟩
  · exact (Activity.bind_of_done hended).trans (takeUps_of_idle hvacant.outstanding n)
  · exact (Activity.bind_of_done hended').trans (takeUps_of_idle hvacant'.outstanding n')

/-- A request that begins where nothing is outstanding is on its course, whatever its objects put off. -/
theorem onCourse_of_takeOn (hvacant : s.Vacant) (htake : a.takeOn m mapping s = (.inr p, t))
    {objects : ObjectId → Obj'} (hworld : H.world objects = H.world s.objects) :
    a.OnCourse m (a.solo p (opened s)) (fun number => (s.registry number).entries) p { t with objects } := by
  obtain ⟨⟨registry, rfl⟩, rfl⟩ := takeOn_inr htake
  have hvacant' : ({ s with objects } : State Obj').Vacant := ⟨hvacant.outstanding, hvacant.locks⟩
  have htake' : a.takeOn m mapping { s with objects } =
      (.inr ⟨a.draft m mapping s, m, registry⟩, { opened s with objects }) := by
    rw [takeOn_objects, htake]
  have hsole := sole_takeOn hvacant' htake'
  have hsettled := (Settled.of_vacant hvacant').takeOn (a := a) m mapping
  rw [htake'] at hsettled
  refine ⟨rfl, rfl, rfl, hsole, ⟨rfl, hsole.owned, fun _ object region => ?_⟩, fun _ => Or.inl rfl, hsettled⟩
  show ManagedObject.find? (objects object) region = ManagedObject.find? (s.objects object) region
  rw [H.find, H.find (s.objects object)]
  exact congrArg (ManagedObject.find? · region) (congrFun hworld object)

section Served
variable (hprompt : Prompt Obj) (hservices : a.services = standardServices)
  (hquiet : a.settings.forwardFaults = false) (hversion : m.version ≠ .v1)
  (hkind : m.pdu.kind = .get ∨ m.pdu.kind = .getNext ∨ m.pdu.kind = .set)
include hprompt hservices hquiet hversion hkind

/-- A request that begins comes to one end, however its objects hesitate. -/
theorem ends_alike (H : Hesitation Obj' Obj) (hvacant : s.Vacant) (htake : a.takeOn m mapping s = (.inr p, t)) :
    ∃ c : Standing Obj, ∀ objects : ObjectId → Obj', H.world objects = H.world s.objects →
      ∃ enough : Nat, ((∀ object, H.left (objects object) = 0) → enough = 0) ∧
      ∀ n ≥ enough, ∃ leads r u v, a.Ends H m leads p { t with objects } r u v ∧ (r.calm, H.world u.objects) = c ∧
        (a.drive p >>= fun _ => a.takeUps n) { t with objects } = .done () v := by
  obtain ⟨service, hservice⟩ := served_of_standard hservices hkind
  obtain ⟨⟨registry, rfl⟩, rfl⟩ := takeOn_inr htake
  let p : Pending := ⟨a.draft m mapping s, m, registry⟩
  let S : Solo := a.solo p (opened s)
  have hstandard : service ∈ standardServices := hservices ▸ List.mem_of_find?_eq_some hservice
  have hserves := List.find?_some hservice
  obtain ⟨leads, hsteers⟩ := H.steers (S := S) hprompt hstandard hserves (ne_getBulk hkind) hversion hquiet
  have hends (objects : ObjectId → Obj') (hworld : H.world objects = H.world s.objects) {n : Nat}
      (hn : H.doubts S.entries objects ≤ n) :=
    (onCourse_of_takeOn hvacant htake hworld).ends hprompt hservices hservice hversion hsteers n hn
  obtain ⟨r, u, v, hfirst, -⟩ := hends s.objects rfl le_rfl
  refine ⟨(r.calm, H.world u.objects), fun objects hworld =>
    ⟨H.doubts S.entries objects, Hesitation.doubts_eq_zero, fun n hn => ?_⟩⟩
  obtain ⟨r', u', v', hother, hrun⟩ := hends objects hworld hn
  refine ⟨leads, r', u', v', hother, ?_, hrun⟩
  have hleads := hother.leads
  rw [show H.world ({ opened s with objects } : State Obj').objects = H.world s.objects from hworld] at hleads
  exact hsteers.unique rfl hleads hfirst.leads (Request.isComplete_calm.trans hother.complete)
    (Request.isComplete_calm.trans hfirst.complete)

end Served

section Main
variable (hprompt : Prompt Obj) (hservices : a.services = standardServices)
  (hquiet : a.settings.forwardFaults = false) (hversion : m₀.version ≠ .v1)
  (hkind : m₀.pdu.kind = .get ∨ m₀.pdu.kind = .getNext ∨ m₀.pdu.kind = .set)
include hprompt hservices hquiet hversion hkind

omit hprompt hquiet in
/-- What is refused before any object is called is refused alike. -/
theorem unnoticed_of_refused {H : Hesitation Obj' Obj} (haccepts : a.Accepts m₀ m mapping)
    {result : Except Error Unit} (htake : a.takeOn m mapping s = (.inl result, t)) (hvacant : t.Vacant)
    {objects : ObjectId → Obj'} (hworld : H.world objects = H.world s.objects) (n n' : Nat) :
    ∃ u u', a.seeThrough m₀ n s = .done () u ∧ a.seeThrough m₀ n' { s with objects } = .done () u' ∧
      a.Unnoticed H m₀ s u u' := by
  have htake' : a.takeOn m mapping { s with objects } = (.inl result, { t with objects }) := by
    rw [takeOn_objects, htake]
  have hobjects : t.objects = s.objects := by
    have hsame := takeOn_objects a m s s.objects mapping
    rw [htake] at hsame
    exact congrArg (fun out : _ × State Obj' => out.2.objects) hsame
  refine unnoticed_of_ended hworld (process_of_accepts haccepts htake) (process_of_accepts haccepts htake') hobjects
    hvacant (fun m' mapping' haccepts' hopen => ?_) n n'
  obtain ⟨rfl, rfl⟩ := haccepts.unique haccepts'
  obtain rfl := haccepts.limited
  obtain ⟨service, hservice⟩ := served_of_standard hservices hkind
  obtain ⟨status, hfailed⟩ := finish_of_ended ((limited_pdu m₀ mapping').symm ▸ hservice) htake
  rw [hfailed]
  exact responds_of_posts (fail_posts m₀ mapping' s status) hopen (ne_getBulk hkind) hversion
    ((Request.fail_pdu _ status).trans (limited_pdu m₀ mapping'))

/-- What begins ends alike, however its objects hesitate. -/
theorem unnoticed_of_begun (H : Hesitation Obj' Obj) (haccepts : a.Accepts m₀ m mapping) (hvacant : s.Vacant)
    (htake : a.takeOn m mapping s = (.inr p, t)) {objects : ObjectId → Obj'}
    (hworld : H.world objects = H.world s.objects) :
    ∃ enough enough' : Nat, ((∀ object, H.left (s.objects object) = 0) → enough = 0) ∧
      ∀ n ≥ enough, ∀ n' ≥ enough', ∃ u u', a.seeThrough m₀ n s = .done () u ∧
        a.seeThrough m₀ n' { s with objects } = .done () u' ∧ a.Unnoticed H m₀ s u u' := by
  obtain rfl := haccepts.limited
  have hpdu := limited_pdu m₀ mapping
  obtain ⟨c, hc⟩ := ends_alike hprompt hservices hquiet (limited_version m₀ mapping ▸ hversion) (hpdu.symm ▸ hkind) H
    hvacant htake
  obtain ⟨enough, hnone, henough⟩ := hc s.objects rfl
  obtain ⟨enough', -, henough'⟩ := hc objects hworld
  refine ⟨enough, enough', hnone, fun n hn n' hn' => ?_⟩
  obtain ⟨leads, r, u, v, hends, hstands, hrun⟩ := henough n hn
  obtain ⟨leads', r', u', v', hends', hstands', hrun'⟩ := henough' n' hn'
  have htake' : a.takeOn (limited m₀ mapping) mapping { s with objects } = (.inr p, { t with objects }) := by
    rw [takeOn_objects, htake]
  -- Where both requests stand in the end is the same, and so is what is answered.
  obtain ⟨hcalm, hworlds⟩ := Prod.mk.inj (hstands'.trans hstands.symm)
  have hanswer : r'.answer m₀.version = r.answer m₀.version := by
    rw [Request.answer, Request.answer, ← Request.toResponse_calm, hcalm, Request.toResponse_calm]
  obtain ⟨⟨registry, rfl⟩, rfl⟩ := takeOn_inr htake
  obtain ⟨result, hposts⟩ := hends.posts (hpdu : _ = m₀.pdu)
  obtain ⟨result', hposts'⟩ := hends'.posts (hpdu : _ = m₀.pdu)
  refine ⟨v, v', seeThrough_of_taken haccepts htake hrun, seeThrough_of_taken haccepts htake' hrun', ?_, ?_,
    hends.vacant, hends'.vacant, fun m' mapping' haccepts' hopen => ?_⟩
  · rw [hposts.sent, hposts'.sent, hanswer]
  · rw [hends.answered, hends'.answered, objects_finish, objects_finish]
    exact hworlds
  · obtain ⟨rfl, rfl⟩ := haccepts.unique haccepts'
    have hposts : a.Posts _ s result v := hposts.of_quiet ⟨rfl, rfl⟩
    exact responds_of_posts hposts hopen (ne_getBulk hkind) hversion (hends.pdu.trans hpdu)

/-- **Calls that are put off go unnoticed.** A message of version 2c or 3 that reads or writes is processed where
nothing is outstanding and no lock is taken. Whether its objects put calls off or not, after enough takings up the same
has been sent, the objects hold the same, and nothing is outstanding or locked; and if the message was accepted, it has
got one response, or none where even the shortest one was too big. Where nobody puts anything off, no taking up is
needed. -/
theorem unnoticed_of_hesitation (H : Hesitation Obj' Obj) (hvacant : s.Vacant) (objects : ObjectId → Obj')
    (hworld : H.world objects = H.world s.objects) :
    ∃ enough enough' : Nat, ((∀ object, H.left (s.objects object) = 0) → enough = 0) ∧
      ∀ n ≥ enough, ∀ n' ≥ enough', ∃ t t', a.seeThrough m₀ n s = .done () t ∧
        a.seeThrough m₀ n' { s with objects } = .done () t' ∧ a.Unnoticed H m₀ s t t' := by
  rcases hreceive : a.receive m₀ s with ⟨course, u⟩
  have hreceive' : a.receive m₀ { s with objects } = (course, { u with objects }) := by
    rw [receive_objects, hreceive]
  cases course with
  | ended result =>
    have htold := a.told_receive m₀ s
    rw [hreceive] at htold
    obtain ⟨counters, sent, trace, rfl⟩ := htold
    have hended : a.process m₀ s = .done result { s with counters, sent, trace } := by
      rw [process, Activity.bind_modifyGet, hreceive]
      rfl
    have hended' : a.process m₀ { s with objects } = .done result { s with counters, sent, trace, objects } := by
      rw [process, Activity.bind_modifyGet, hreceive']
      rfl
    refine ⟨0, 0, fun _ => rfl, fun n _ n' _ => unnoticed_of_ended hworld hended hended' rfl
      ⟨hvacant.outstanding, hvacant.locks⟩ (fun m mapping haccepts => ?_) n n'⟩
    cases hreceive.symm.trans (receive_eq_serve_iff.mpr ⟨haccepts, rfl⟩)
  | serve m mapping =>
    obtain ⟨haccepts, hu⟩ := receive_eq_serve_iff.mp hreceive
    obtain rfl := hu.symm
    rcases (Settled.of_vacant hvacant).takeOn_cases (a := a) m mapping with
      ⟨result, t, htake, hregistries, houtstanding, -⟩ | ⟨registry, htake⟩
    · have hvacant : t.Vacant := ⟨houtstanding.trans hvacant.outstanding, hregistries ▸ hvacant.locks⟩
      exact ⟨0, 0, fun _ => rfl, fun n _ n' _ =>
        unnoticed_of_refused hservices hversion hkind haccepts htake hvacant hworld n n'⟩
    · exact unnoticed_of_begun hprompt hservices hquiet hversion hkind H haccepts hvacant htake hworld

end Main
end Runs

/-- Two scalars, each with calls that it puts off first. -/
def desk (reluctance : ObjectId → List (Callback × Nat)) : State (Hesitant Scalar) where
  objects id := ⟨{ oid := ⟨[if id.number = 0 then 1 else 2, 0]⟩, value := .integer 1, writable := true }, reluctance id⟩
  registries := [{ entries := [⟨.subtree ⟨[1]⟩, ⟨0⟩⟩, ⟨.subtree ⟨[2]⟩, ⟨1⟩⟩] }]
  outstanding := ⟨.seconds 300, []⟩

/-- A request that writes to two scalars. Where they put off to prepare and to commit, it is still parked when it would
have been answered. -/
theorem unnoticed_of_desk :
    let a : Agent (Hesitant Scalar) := { services := standardServices }
    let m : Inbound := .ofUser [117] .noAuthNoPriv [] [] Set.writer.peer
      (.setting 1 [⟨⟨[1, 0]⟩, .integer 5⟩, ⟨⟨[2, 0]⟩, .integer 6⟩])
    let s := desk fun _ => []
    let objects := (desk fun id => [(.prepare, id.number), (.prepare, id.number), (.commit, id.number)]).objects
    m.version ≠ .v1 ∧ m.pdu.kind = .set ∧ s.Vacant ∧
      ((a.seeThrough m 4 { s with objects }).result?.map fun out => out.2.sent.length) = some 0 ∧
      ∃ enough, ∀ n ≥ enough, ∃ t t', a.seeThrough m 0 s = .done () t ∧
        a.seeThrough m n { s with objects } = .done () t' ∧ t.sent.length = 1 ∧
          a.Unnoticed Hesitant.hesitation m s t t' := by
  intro a m s objects
  have hvacant : s.Vacant := ⟨rfl, by simp [s, desk]⟩
  refine ⟨by decide, rfl, hvacant, by decide +kernel, ?_⟩
  obtain ⟨enough, enough', hzero, hall⟩ := unnoticed_of_hesitation (s := s) (a := a) prompt_scalar rfl rfl
    (show m.version ≠ .v1 by decide) (Or.inr (Or.inr rfl)) Hesitant.hesitation hvacant objects rfl
  obtain rfl := hzero fun _ => rfl
  refine ⟨enough', fun n hn => ?_⟩
  obtain ⟨t, t', hrun, hrun', hunnoticed⟩ := hall 0 le_rfl n hn
  have hsent : ((a.seeThrough m 0 s).result?.map fun out => out.2.sent.length) = some 1 := by decide +kernel
  rw [hrun] at hsent
  exact ⟨t, t', hrun, hrun', Option.some.inj hsent, hunnoticed⟩

/-- A sign with the name of a variable, or one that shows nothing: it completes an item that is searched for, and yet
declines. -/
structure Signpost where
  oid : Oid
  blank : Bool

instance : ManagedObject Signpost where
  region x := .subtree x.oid
  find? x region := if region.contains x.oid then some x.oid else none
  get _ _ x := { object := x, result := .ok () }
  next _ _ x :=
    if x.blank then { object := x, edits := [.complete], result := .ok false }
    else { object := x, edits := [.setBinding x.oid (.integer 1)], result := .ok true }

/-- Two signposts, the first one blank, each with calls that it puts off first. -/
def crossroads (reluctance : ObjectId → List (Callback × Nat)) : State (Hesitant Signpost) where
  objects id := ⟨⟨⟨[if id.number = 0 then 1 else 2, 0]⟩, id.number = 0⟩, reluctance id⟩
  registries := [{ entries := [⟨.subtree ⟨[1]⟩, ⟨0⟩⟩, ⟨.subtree ⟨[2]⟩, ⟨1⟩⟩] }]
  outstanding := ⟨.seconds 300, []⟩

/-- Where there is no room even to say that a response would have been too big, none is sent, whether the call was put
off or not. And where an object completes an item and yet declines it, an object that then puts off its call is not
called again. -/
theorem noticed_of_crossroads :
    let told {Obj : Type} (s : State Obj) :=
      (s.sent.map fun out => out.pdu.bindings, s.counters.silentDrops, s.outstanding.entries.length)
    let reads (reluctance : List (Callback × Nat)) (n : Nat) :=
      ((({ services := standardServices } : Agent (Hesitant Scalar)).seeThrough
        { prompt .get [⟨[1, 0]⟩] with maxSize := 10 } n (desk fun _ => reluctance)).result?.map fun out => told out.2)
    let searches (reluctance : List (Callback × Nat)) (n : Nat) :=
      ((({ services := standardServices } : Agent (Hesitant Signpost)).seeThrough (prompt .getNext [⟨[1]⟩]) n
        (crossroads fun _ => reluctance)).result?.map fun out => told out.2)
    reads [] 0 = some ([], 1, 0) ∧ reads [(.get, 0)] 1 = some ([], 1, 0) ∧
      searches [] 0 = some ([[⟨⟨[2, 0]⟩, .integer 1⟩]], 0, 0) ∧
      searches [(.next, 0)] 5 = some ([[⟨⟨[1]⟩, .null⟩]], 0, 0) := by
  decide +kernel

end Agent
end Responder
