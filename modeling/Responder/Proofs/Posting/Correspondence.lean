import Responder.Proofs.Outstanding
import Responder.Proofs.Posting.Answering

/-! What an agent has handed over corresponds to letters. Whatever happens to it, and however its tasks get in each
    other's way, nothing is handed over but letters for messages that were submitted, as far as they fit, and the drops
    that were counted are the letters of which nothing fits and the messages that went astray (`posted_of_deeds`). Every
    part of a run keeps `Agent.Corresponds`. -/

namespace Responder

variable {Obj : Type}

/-! ### What is registered and parked -/

/-- The forwarders are the same, and less may be parked. -/
structure State.Sheds (s t : State Obj) : Prop where
  routes : t.routes = s.routes
  parked : ∀ x ∈ t.outstanding.entries, ∀ p, x.parked = some p → ∃ y ∈ s.outstanding.entries, y.parked = some p

section Sheds
variable {s t u : State Obj} {a : Agent Obj}

theorem State.sheds_of_alike (hroutes : t.routes = s.routes) (houtstanding : t.outstanding = s.outstanding) :
    s.Sheds t := ⟨hroutes, fun x hx _ hp => ⟨x, houtstanding ▸ hx, hp⟩⟩

theorem State.Told.sheds (h : s.Told t) : s.Sheds t := by
  obtain ⟨counters, sent, trace, rfl⟩ := h
  exact sheds_of_alike rfl rfl

theorem State.sheds_of_bare (h : t.bare = s.bare) : s.Sheds t :=
  sheds_of_alike (congrArg (·.routes) h) (congrArg (·.outstanding) h)

theorem State.Sheds.trans (h : s.Sheds t) (h' : t.Sheds u) : s.Sheds u where
  routes := h'.routes.trans h.routes
  parked x hx p hp := by
    obtain ⟨y, hy, hp⟩ := h'.parked x hx p hp
    exact h.parked y hy p hp

theorem State.sheds_remove (s : State Obj) (id : TransactionId) :
    s.Sheds { s with outstanding := s.outstanding.remove id } :=
  ⟨rfl, (Charter.undisturbed_remove s id).parked⟩

theorem Agent.sheds_opened (s : State Obj) : s.Sheds (opened s) :=
  ⟨rfl, (Charter.undisturbed_track s ⟨s.transactions⟩ s.now).parked⟩

theorem Agent.sheds_drop (registry : Nat) (id : TransactionId) (s : State Obj) : s.Sheds (drop registry id s) :=
  (State.sheds_of_bare (s.bare_releaseLocks registry id)).trans (State.sheds_remove _ id)

theorem Agent.sheds_finish (a : Agent Obj) (r : Request) (m : Inbound) (registry : Option Nat) (s : State Obj) :
    s.Sheds (a.finish r m registry s).2 := by
  have hremoved := s.sheds_remove r.transaction
  cases registry with
  | none => exact hremoved.trans (a.told_send _ _ _ _).sheds
  | some registry =>
    refine (hremoved.trans ?_).trans (a.told_send _ _ _ _).sheds
    exact State.sheds_of_bare (State.bare_releaseLocks _ registry _)

theorem Agent.sheds_expire (s : State Obj) : s.Sheds (expire s).2 := by
  let left : State Obj := { s with outstanding := (s.outstanding.expire s.now).2 }
  have hleft : s.Sheds left := ⟨rfl, fun x hx _ hp => ⟨x, (List.mem_filter.mp hx).1, hp⟩⟩
  exact hleft.trans (State.sheds_of_bare (bare_expire s))

theorem Agent.quiet_expire (s : State Obj) : s.Quiet (expire s).2 := by
  let left : State Obj := { s with outstanding := (s.outstanding.expire s.now).2 }
  have hleft : s.Quiet left := ⟨rfl, rfl⟩
  exact hleft.trans (State.quiet_of_bare (bare_expire s))

end Sheds

namespace Agent.Corresponds

variable {a : Agent Obj} {submitted : Inbound → Prop} {s t u : State Obj} {m₀ : Inbound} {mapping : Option Mapping}

/-! ### One thing after the other -/

theorem refl (a : Agent Obj) (submitted : Inbound → Prop) (hparked : ∀ x ∈ s.outstanding.entries, x.parked = none) :
    a.Corresponds submitted s s where
  letters := ⟨[], [], by simp, by simp, by simp, by simp⟩
  routes := rfl
  parked x hx p hp := by
    rw [hparked x hx] at hp
    cases hp

theorem sheds (h : a.Corresponds submitted s t) (hsheds : t.Sheds u) :
    u.routes = s.routes ∧ ∀ x ∈ u.outstanding.entries, ∀ p, x.parked = some p →
      ∃ m₀ mapping, submitted m₀ ∧ a.Grants m₀ mapping ∧ Handles m₀ mapping p := by
  refine ⟨hsheds.routes.trans h.routes, fun x hx p hp => ?_⟩
  obtain ⟨y, hy, hp⟩ := hsheds.parked x hx p hp
  exact h.parked y hy p hp

theorem quiet (h : a.Corresponds submitted s t) (hquiet : t.Quiet u) (hsheds : t.Sheds u) :
    a.Corresponds submitted s u where
  letters := by
    obtain ⟨letters, strays, hsent, hdrops, hall⟩ := h.letters
    exact ⟨letters, strays, hquiet.sent.trans hsent, hquiet.drops.trans hdrops, hall⟩
  routes := (h.sheds hsheds).1
  parked := (h.sheds hsheds).2

theorem post (h : a.Corresponds submitted s t) {l : Letter} {result : Except Error Unit} (hposts : a.Posts l t result u)
    (hsheds : t.Sheds u) (hsubmitted : submitted l.message) (hgrants : a.Grants l.message l.mapping)
    (hutters : a.Utters s.routes l.message l.mapping l.answer) : a.Corresponds submitted s u where
  letters := by
    obtain ⟨letters, strays, hsent, hdrops, hletters, hstrays⟩ := h.letters
    refine ⟨letters ++ [l], strays, ?_, ?_, ?_, hstrays⟩
    · rw [hposts.sent, hsent, List.flatMap_append, List.flatMap_singleton, List.append_assoc]
    · rw [hposts.drops, hdrops, UInt32.add_assoc, ← UInt32.ofNat_add]
      congr 2
      simp only [List.map_append, List.sum_append, List.map_cons, List.map_nil, List.sum_singleton]
      omega
    · exact List.forall_mem_append.mpr ⟨hletters, List.forall_mem_singleton.mpr ⟨hsubmitted, hgrants, hutters⟩⟩
  routes := (h.sheds hsheds).1
  parked := (h.sheds hsheds).2

/-- A message has gone astray. -/
theorem stray (h : a.Corresponds submitted s t) (hsubmitted : submitted m₀) (hgrants : a.Grants m₀ mapping)
    (hstrays : a.Strays m₀ mapping) : a.Corresponds submitted s (t.count .silentDrops).2 where
  letters := by
    obtain ⟨letters, strays, hsent, hdrops, hletters, hall⟩ := h.letters
    refine ⟨letters, strays ++ [m₀], hsent, ?_, hletters, ?_⟩
    · show t.counters.silentDrops + UInt32.ofNat 1 = _
      rw [hdrops, UInt32.add_assoc, ← UInt32.ofNat_add, Nat.add_assoc, List.length_append, List.length_singleton]
    · exact List.forall_mem_append.mpr ⟨hall, List.forall_mem_singleton.mpr ⟨hsubmitted, mapping, hgrants, hstrays⟩⟩
  routes := h.routes
  parked := h.parked

variable (a submitted s) in
theorem lasting : Lasting (a.Corresponds submitted s) where
  locks hbare h := h.quiet (State.quiet_of_bare hbare) (State.sheds_of_bare hbare)
  time _ h := h.quiet ⟨rfl, rfl⟩ (State.sheds_of_alike rfl rfl)

/-! ### Messages -/

theorem forward (h : a.Corresponds submitted s t) (hsubmitted : submitted m₀) (hgrants : a.Grants m₀ mapping)
    (hforeign : a.settings.isOwnEngine (engineOf m₀ mapping) = false) :
    a.Corresponds submitted s (a.forward (limited m₀ mapping) mapping (engineOf m₀ mapping) t).2 := by
  have hsheds := (a.told_forward (limited m₀ mapping) mapping (engineOf m₀ mapping) t).sheds
  have hlimited : (limited m₀ mapping).pdu = m₀.pdu ∧ (limited m₀ mapping).version = m₀.version := by
    rw [limited_eq]
    exact ⟨rfl, rfl⟩
  cases hproxies : a.proxies with
  | false =>
    rw [Agent.forward, hproxies]
    exact h.stray hsubmitted hgrants ⟨hforeign, hproxies⟩
  | true =>
    cases hroute : (Proxy.Class.ofKind? m₀.pdu.kind).bind fun c =>
        (t.routes.find? (engineOf m₀ mapping) c).map (·, c) with
    | none =>
      refine h.quiet ?_ hsheds
      simp only [Agent.forward, hproxies, hlimited, hroute]
      exact t.quiet_count (by simp)
    | some route =>
      obtain ⟨forwarder, requestClass⟩ := route
      obtain ⟨c, hclass, hfound⟩ := Option.bind_eq_some_iff.mp hroute
      obtain ⟨_, hforwarder, heq⟩ := Option.map_eq_some_iff.mp hfound
      obtain ⟨rfl, rfl⟩ := Prod.mk.inj heq
      have hregistered := h.routes ▸ hforwarder
      cases hrelay : Proxy.Forwarder.relay _ ⟨limited m₀ mapping, mapping, engineOf m₀ mapping, c⟩ with
      | some pdu =>
        exact h.post (forward_posts hproxies hclass hforwarder hrelay) hsheds hsubmitted hgrants
          (.relayed hforeign hregistered hrelay)
      | none =>
        by_cases hreport : c ≠ .notify ∧ m₀.version = .v3
        · exact h.post (forward_reports hproxies hclass hforwarder hrelay hreport.1 hreport.2) hsheds hsubmitted
            hgrants (.unreturned hforeign hregistered hrelay hreport.2)
        · refine h.quiet ?_ hsheds
          simp only [Agent.forward, hproxies, hlimited, hroute, hrelay, Bool.not_true, Bool.false_eq_true, if_false]
          split
          · exact ⟨rfl, rfl⟩
          · next hnotify =>
            rw [if_neg fun hversion => hreport ⟨hnotify, hversion⟩]
            exact ⟨rfl, rfl⟩

theorem receive (h : a.Corresponds submitted s t) (hsubmitted : submitted m₀) :
    a.Corresponds submitted s (a.receive m₀ t).2 := by
  have hgo (mapping : Option Mapping) (hgrants : a.Grants m₀ mapping) : a.Corresponds submitted s
      (if a.settings.isOwnEngine (engineOf m₀ mapping) then (Course.serve (limited m₀ mapping) mapping, t)
      else (.ended (a.forward (limited m₀ mapping) mapping (engineOf m₀ mapping) t).1,
        (a.forward (limited m₀ mapping) mapping (engineOf m₀ mapping) t).2)).2 := by
    split
    · exact h
    · next hforeign => exact h.forward hsubmitted hgrants (Bool.eq_false_iff.mpr hforeign)
  have hengine (mapping : Option Mapping) :
      (mapping.map Mapping.engine).getD (limited m₀ mapping).engine = engineOf m₀ mapping := by
    rw [limited_eq]
    rfl
  unfold Agent.receive
  split
  · exact h
  · dsimp only
    split
    · exact h.quiet (t.quiet_count (by simp)) (t.told_count _).sheds
    · next hadmission =>
      rw [hengine none]
      exact hgo none hadmission
    · next mapping hadmission =>
      rw [hengine (some mapping)]
      exact hgo (some mapping) hadmission

/-- A message that is taken on. Its request, if there is one, is made for it. -/
theorem takeOn (hbulk : ∃ service ∈ a.services, service.serves .getBulk = true) (h : a.Corresponds submitted s t)
    (hsubmitted : submitted m₀) (hgrants : a.Grants m₀ mapping) :
    a.Corresponds submitted s (a.takeOn (limited m₀ mapping) mapping t).2 ∧
      ∀ p, (a.takeOn (limited m₀ mapping) mapping t).1 = .inr p → Handles m₀ mapping p := by
  have hkind : (limited m₀ mapping).pdu.kind = m₀.pdu.kind := by
    rw [limited_eq]
  have hfailed {status : Status} (hstatus : status = .authorizationError ∨ status = .genErr) :
      a.Corresponds submitted s (a.finish ((a.draft (limited m₀ mapping) mapping t).fail status)
        (limited m₀ mapping) none (opened t)).2 :=
    h.post (fail_posts m₀ mapping t status) ((sheds_opened t).trans (sheds_finish a _ _ _ _)) hsubmitted hgrants
      (.answered (.failed hstatus))
  unfold Agent.takeOn
  split
  · next hservice =>
    have hservice : a.serviceFor? m₀.pdu.kind = none := hkind ▸ Option.isNone_iff_eq_none.mp hservice
    refine ⟨?_, by simp [ended]⟩
    have hsheds := (a.told_refuse (limited m₀ mapping) t).sheds
    cases hconfirmed : m₀.pdu.kind.isConfirmed with
    | true =>
      have hplain := ne_getBulk_of_unserved hbulk hservice
      exact h.post (refuse_posts mapping hplain hconfirmed) hsheds hsubmitted hgrants (.unserved hservice hconfirmed)
    | false =>
      refine h.quiet ?_ hsheds
      simp only [ended, refuse, hkind, hconfirmed, Bool.not_false, if_true]
      exact t.quiet_count (by simp)
  · split
    · exact ⟨hfailed (Or.inl rfl), by simp [ended]⟩
    · split
      · exact ⟨hfailed (Or.inr rfl), by simp [ended]⟩
      · refine ⟨h.quiet ⟨rfl, rfl⟩ (sheds_opened t), fun p hp => ?_⟩
        obtain rfl := Sum.inr.inj hp
        have hpdu : (limited m₀ mapping).pdu = m₀.pdu := by
          rw [limited_eq]
        exact ⟨rfl, congrArg Pdu.kind hpdu, .start rfl _ _⟩

/-! ### Requests -/

theorem park (h : a.Corresponds submitted s t) {p : Pending} (hsubmitted : submitted m₀)
    (hgrants : a.Grants m₀ mapping) (hp : Handles m₀ mapping p) : a.Corresponds submitted s (Agent.park p t) := by
  unfold Agent.park
  split
  · next outstanding hparked =>
    have houtstanding := Option.some.inj (Option.ite_none_right_eq_some.mp hparked).2
    refine ⟨h.letters, h.routes, fun x hx q hq => ?_⟩
    rw [← houtstanding] at hx
    obtain ⟨y, hy, rfl⟩ := List.mem_map.mp hx
    split at hq
    · obtain rfl := Option.some.inj hq
      exact ⟨m₀, mapping, hsubmitted, hgrants, hp⟩
    · exact h.parked y hy q hq
  · exact h.quiet (t.quiet_releaseLocks _ _) (State.sheds_of_bare (t.bare_releaseLocks _ _))

/-- What becomes of a request after a pass over it. -/
theorem conclude (h : a.Corresponds submitted s t) {p : Pending} (hsubmitted : submitted m₀)
    (hgrants : a.Grants m₀ mapping) (hp : Handles m₀ mapping p) {out : Option (Request × Option Error)} {s' : State Obj}
    (hpass : (a.pass p).Yields (fun _ _ => True) s' out t)
    (hout : ∀ r error, out = some (r, error) → r.Apt p.request.requester fun _ => True) :
    a.Corresponds submitted s (a.conclude p out t).2 := by
  have hconcluded := conclude_posts (a := a) (s := t) hp hout
  rcases out with _ | ⟨r, _ | error⟩
  · exact h.quiet (quiet_drop _ _ t) (sheds_drop _ _ t)
  · rcases hconcluded with ⟨r', hr, hcomplete, hposts⟩ | ⟨hopen, -⟩
    · obtain ⟨rfl, -⟩ := Prod.mk.inj (Option.some.inj hr)
      refine h.post hposts ?_ hsubmitted hgrants (.answered (.completed hp hpass hcomplete))
      rw [Agent.conclude, if_pos hcomplete]
      exact sheds_finish a _ _ _ t
    · have hr := hout r none rfl
      rw [Agent.conclude, if_neg (Bool.eq_false_iff.mp (hopen r rfl))]
      refine h.park hsubmitted hgrants ⟨hp.message, ?_, ?_⟩
      · exact (congrArg Requester.kind hr.requester).trans hp.kind
      · show r.Apt r.requester _
        rw [hr.requester]
        exact hr
  · exact h.quiet (quiet_drop _ _ t) (sheds_drop _ _ t)

end Agent.Corresponds

/-! ### Activities -/

namespace Agent

variable [ManagedObject Obj] {a : Agent Obj} {submitted : Inbound → Prop} {s : State Obj} {m₀ : Inbound}
  {mapping : Option Mapping}

section
variable (hdiscreet : ∀ service ∈ a.services, service.Discreet)
include hdiscreet

omit [ManagedObject Obj] in
/-- What the parts of a run keep is independent of all that a service does on its own. -/
theorem pass_corresponds {p : Pending} (hp : Handles m₀ mapping p) {t : State Obj} (h : a.Corresponds submitted s t) :
    (a.pass p).Ensures (fun _ => a.Corresponds submitted s) (a.Corresponds submitted s) t fun out u =>
      (a.Corresponds submitted s u ∧ ∀ r error, out = some (r, error) → r.Apt p.request.requester fun _ => True) ∧
        (a.pass p).Yields (fun _ _ => True) t out u := by
  have halike (t u : State Obj) (htu : t.Alike u) (h : a.Corresponds submitted s t) : a.Corresponds submitted s u :=
    h.quiet ⟨htu.sent, congrArg _ htu.counters⟩ (State.sheds_of_alike htu.routes htu.outstanding)
  obtain ⟨hpauses, hyields⟩ := Activity.ensures_iff.mp (pass_ensures hdiscreet halike hp.apt h)
  exact Activity.ensures_iff.mpr ⟨hpauses, fun out u hout => ⟨hyields out u hout, hout.mono fun _ _ _ => trivial⟩⟩

theorem drive_corresponds {p : Pending} (hsubmitted : submitted m₀) (hgrants : a.Grants m₀ mapping)
    (hp : Handles m₀ mapping p) : Keeps (a.Corresponds submitted s) (a.drive p) := by
  intro t ht
  show (a.drive p).Ensures (fun _ => a.Corresponds submitted s) (a.Corresponds submitted s) t fun _ =>
    a.Corresponds submitted s
  rw [drive_eq, Activity.ensures_bind]
  refine (pass_corresponds hdiscreet hp ht).mono (fun _ => id) fun out u ⟨⟨hu, hout⟩, hpass⟩ => ?_
  exact hu.conclude hsubmitted hgrants hp hpass hout

theorem serve_corresponds (hbulk : ∃ service ∈ a.services, service.serves .getBulk = true) (hsubmitted : submitted m₀)
    (hgrants : a.Grants m₀ mapping) :
    Keeps (a.Corresponds submitted s) (a.serve (limited m₀ mapping) mapping) := by
  intro t ht
  show (a.serve (limited m₀ mapping) mapping).Ensures (fun _ => a.Corresponds submitted s) (a.Corresponds submitted s) t
    fun _ => a.Corresponds submitted s
  rw [serve_eq, Activity.ensures_bind, Activity.ensures_modifyGet]
  obtain ⟨htaken, hhandles⟩ := ht.takeOn hbulk hsubmitted hgrants
  cases hgo : (a.takeOn (limited m₀ mapping) mapping t).1 with
  | inl result => exact htaken
  | inr p => exact drive_corresponds hdiscreet hsubmitted hgrants (hhandles p hgo) _ htaken

theorem process_corresponds (hbulk : ∃ service ∈ a.services, service.serves .getBulk = true)
    (hsubmitted : submitted m₀) : Keeps (a.Corresponds submitted s) (a.process m₀) := by
  intro t ht
  show (a.process m₀).Ensures (fun _ => a.Corresponds submitted s) (a.Corresponds submitted s) t fun _ =>
    a.Corresponds submitted s
  have hreceived := ht.receive hsubmitted
  simp only [process, Activity.ensures_bind, Activity.ensures_modifyGet]
  split
  · exact hreceived
  · next m mapping hserve =>
    obtain ⟨haccepts, -⟩ := receive_eq_serve_iff.mp (Prod.ext hserve rfl)
    obtain rfl := haccepts.limited
    exact serve_corresponds hdiscreet hbulk hsubmitted haccepts.admission _ hreceived

theorem driveAll_corresponds : ∀ parked : List (TransactionId × Pending),
    (∀ x ∈ parked, ∃ m₀ mapping, submitted m₀ ∧ a.Grants m₀ mapping ∧ Handles m₀ mapping x.2) →
      Keeps (a.Corresponds submitted s) (a.driveAll parked)
  | [], _ => Keeps.pure _
  | (_, p) :: rest, h => by
    obtain ⟨⟨m₀, mapping, hsubmitted, hgrants, hp⟩, hrest⟩ := List.forall_mem_cons.mp h
    have hretried : Handles m₀ mapping { p with request := p.request.retry } := ⟨hp.message, hp.kind, hp.apt.retry⟩
    refine Keeps.bind (drive_corresponds hdiscreet hsubmitted hgrants hretried) fun result =>
      Keeps.bind (driveAll_corresponds rest hrest) fun later => ?_
    cases result <;> exact Keeps.pure _

/-- The requests that are parked are taken up again. -/
theorem takeUp_corresponds : Keeps (a.Corresponds submitted s) a.takeUp := by
  intro t ht
  have hparked : ∀ x ∈ t.outstanding.takeParked.1,
      ∃ m₀ mapping, submitted m₀ ∧ a.Grants m₀ mapping ∧ Handles m₀ mapping x.2 := by
    rintro ⟨id, p⟩ hx
    obtain ⟨y, hy, hp, -⟩ := t.outstanding.mem_takeParked.mp hx
    exact ht.parked y hy p hp
  have htaken : a.Corresponds submitted s { t with outstanding := t.outstanding.takeParked.2 } := by
    refine ht.quiet ⟨rfl, rfl⟩ ⟨rfl, fun x hx p hp => ?_⟩
    obtain ⟨y, -, rfl⟩ := List.mem_map.mp hx
    cases hp
  show a.takeUp.Ensures (fun _ => a.Corresponds submitted s) (a.Corresponds submitted s) t fun _ =>
    a.Corresponds submitted s
  simp only [takeUp, Activity.ensures_bind, Activity.ensures_modifyGet]
  refine Progress.Ensures.mono (driveAll_corresponds hdiscreet _ hparked _ htaken) (fun _ => id) fun result u hu => ?_
  cases result <;> exact hu

end

/-! ### Runs -/

section
variable (hdiscreet : ∀ service ∈ a.services, service.Discreet)
  (hbulk : ∃ service ∈ a.services, service.serves .getBulk = true)
include hdiscreet hbulk

theorem submit_corresponds {s' : Schedule Obj} (hsubmitted : submitted m₀) (turns : Nat)
    (h : s'.Kept (a.Corresponds submitted s)) : (a.submit turns m₀ s').2.Kept (a.Corresponds submitted s) := by
  have hlasting := Corresponds.lasting a submitted s
  unfold submit
  split
  · exact h.run hlasting (process_corresponds hdiscreet hbulk hsubmitted) turns
  · have hreceived := h.state.receive hsubmitted
    split
    · next result state heq =>
      rw [heq] at hreceived
      exact h.withState hlasting hreceived
    · next m mapping state heq =>
      obtain ⟨haccepts, -⟩ := receive_eq_serve_iff.mp heq
      obtain rfl := haccepts.limited
      rw [heq] at hreceived
      have hserve := serve_corresponds (s := s) hdiscreet hbulk hsubmitted haccepts.admission
      exact (h.withState hlasting hreceived).push (Keeps.bind hserve fun _ => Keeps.pure _)

theorem perform_corresponds {s' : Schedule Obj} {deed : Deed} (hdeed : ∀ m, deed = .submit m → submitted m)
    (turns : Nat) (h : s'.Kept (a.Corresponds submitted s)) :
    (deed.perform a turns s').Kept (a.Corresponds submitted s) := by
  have hlasting := Corresponds.lasting a submitted s
  have hexpired {s' : Schedule Obj} (h : s'.Kept (a.Corresponds submitted s)) :
      (s'.withState (expire s'.state).2).Kept (a.Corresponds submitted s) :=
    h.withState hlasting (h.state.quiet (quiet_expire _) (sheds_expire _))
  cases deed with
  | submit m => exact submit_corresponds hdiscreet hbulk (hdeed m rfl) turns h
  | takeUp => exact h.run hlasting (takeUp_corresponds hdiscreet) turns
  | expire => exact hexpired h
  | sweep => exact .drain hlasting turns _ (hexpired (.drain hlasting turns _ h))
  | drain => exact .drain hlasting turns _ h
  | pass duration => exact h.withState hlasting (hlasting.time _ h.state)
  | relock registry locks =>
    exact h.withState hlasting (hlasting.locks (s'.state.bare_setLocks registry locks) h.state)

theorem performAll_corresponds (turns : Nat) : ∀ (deeds : List Deed) (s' : Schedule Obj),
    (∀ m, Deed.submit m ∈ deeds → submitted m) → s'.Kept (a.Corresponds submitted s) →
      (a.performAll turns deeds s').Kept (a.Corresponds submitted s)
  | [], _, _, h => h
  | _ :: deeds, _, hdeeds, h =>
    performAll_corresponds turns deeds _ (fun m hm => hdeeds m (List.mem_cons_of_mem _ hm))
      (perform_corresponds hdiscreet hbulk (fun m hm => hdeeds m (hm ▸ List.mem_cons_self)) turns h)

end

end Agent

section Runs
variable {a : Agent Obj} {submitted : Inbound → Prop} {s t : State Obj}

/-- Whatever is handed over is what fits of something that there is to say to a message. -/
theorem Agent.Corresponds.exists_of_sent (h : a.Corresponds submitted s t) :
    ∃ outs, t.sent = s.sent ++ outs ∧ ∀ out ∈ outs, ∃ m₀ mapping answer, submitted m₀ ∧ a.Grants m₀ mapping ∧
      a.Utters s.routes m₀ mapping answer ∧ out = .replyTo (limited m₀ mapping) out.pdu ∧
        Reply.Fitted (m₀.limit mapping) (m₀.pdu.kind == .getBulk) answer (some out.pdu) := by
  obtain ⟨letters, strays, hsent, -, hletters, -⟩ := h.letters
  refine ⟨_, hsent, fun out hout => ?_⟩
  obtain ⟨l, hl, hout⟩ := List.mem_flatMap.mp hout
  obtain ⟨hsubmitted, hgrants, hutters⟩ := hletters l hl
  have hposted : ∃ pdu, l.posted = some pdu ∧ .replyTo (limited l.message l.mapping) pdu = out := by
    unfold Letter.outs at hout
    split at hout
    · exact Option.map_eq_some_iff.mp (Option.mem_toList.mp hout)
    · cases hout
  obtain ⟨pdu, hpdu, rfl⟩ := hposted
  exact ⟨l.message, l.mapping, l.answer, hsubmitted, hgrants, hutters, rfl, hpdu ▸ l.fitted⟩

variable {added : List (Service Obj)} [ManagedObject Obj]

theorem discreet_of_added (hadded : ∀ service ∈ added, service.Discreet)
    (hservices : a.services = added ++ Agent.standardServices) : ∀ service ∈ a.services, service.Discreet := by
  rw [hservices]
  exact List.forall_mem_append.mpr ⟨hadded, fun _ => discreet_of_standard⟩

theorem exists_serves_getBulk (hservices : a.services = added ++ Agent.standardServices) :
    ∃ service ∈ a.services, service.serves .getBulk = true := by
  rw [hservices]
  exact ⟨Bulk.service, by simp [Agent.standardServices], rfl⟩

theorem corresponds_of_fresh (hadded : ∀ service ∈ added, service.Discreet)
    (hservices : a.services = added ++ Agent.standardServices) {s : Schedule Obj} (hfresh : s.Fresh) (turns : Nat)
    (deeds : List Deed) :
    a.Corresponds (fun m => Deed.submit m ∈ deeds) s.state (a.performAll turns deeds s).state := by
  refine (Agent.performAll_corresponds (discreet_of_added hadded hservices) (exists_serves_getBulk hservices) turns
    deeds s (fun _ => id) ?_).state
  refine ⟨.refl a _ hfresh.parked, fun job hjob => ?_, by simp [hfresh.waiters], by simp [hfresh.backlog]⟩
  obtain ⟨registry, owner, object, rfl⟩ := hfresh.ready job hjob
  trivial

end Runs

/-- Answers and their sizes. Take an agent to whose standard services others may have been added, as long as these are
discreet. However a message comes to be answered, a letter is posted that says what there is to say: it is handed over
as it is if it fits, and otherwise in the form that its kind of answer takes, or else it is dropped and counted. And
whatever happens to the agent, what it hands over are such letters, for messages that were submitted and limited by what
their communities stand for; none is larger than that; and the drops that it counts are the letters of which nothing
fits, and the messages that went astray. -/
theorem posted_of_deeds [ManagedObject Obj] {a : Agent Obj} {added : List (Service Obj)}
    (hadded : ∀ service ∈ added, service.Discreet) (hservices : a.services = added ++ Agent.standardServices)
    {s : Schedule Obj} (hfresh : s.Fresh) (turns : Nat) (deeds : List Deed) :
    a.Answering ∧
      a.Corresponds (fun m => Deed.submit m ∈ deeds) s.state (a.performAll turns deeds s).state ∧
        ∃ outs, (a.performAll turns deeds s).state.sent = s.state.sent ++ outs ∧ ∀ out ∈ outs, ∃ m₀ mapping,
          Deed.submit m₀ ∈ deeds ∧ a.Grants m₀ mapping ∧ out = .replyTo (Agent.limited m₀ mapping) out.pdu ∧
            out.pdu.size ≤ m₀.limit mapping := by
  have hcorresponds := corresponds_of_fresh hadded hservices hfresh turns deeds
  refine ⟨Agent.answering (discreet_of_added hadded hservices) (exists_serves_getBulk hservices), hcorresponds, ?_⟩
  obtain ⟨outs, hsent, houts⟩ := hcorresponds.exists_of_sent
  refine ⟨outs, hsent, fun out hout => ?_⟩
  obtain ⟨m₀, mapping, answer, hsubmitted, hgrants, -, hreply, hfitted⟩ := houts out hout
  exact ⟨m₀, mapping, hsubmitted, hgrants, hreply, hfitted.size_le⟩

/-- Its community allows for 25 octets, and somebody has added a service for notifications that are confirmed. -/
def thrifty : Agent Instrument where
  services := Canned.service [.inform] (.complete none) :: Agent.standardServices
  communities := some { entries := [([99], { (default : Mapping) with securityName := [116], maxSize := some 25 })] }

/-- Two variables are written, two are searched for in bulk, and a notification is confirmed. Of the answer to the
first nothing is left but that it was too big, and of that to the second the first binding. -/
theorem posted_of_thrift :
    let cellar : Schedule Instrument := ⟨vault, 100, [], [], [], 0, ⟨0⟩⟩
    let browse : Inbound := { deposit with pdu := .askingBulk 2 2 0 [⟨[1, 3, 1]⟩, ⟨[1, 3, 1]⟩] }
    let notice : Inbound := { deposit with pdu := ⟨.inform, 3, 0, 0, [⟨⟨[1, 3, 9]⟩, .integer 1⟩]⟩ }
    let deeds : List Deed := [.submit deposit, .drain, .takeUp, .submit browse, .drain, .submit notice, .drain]
    ((thrifty.performAll 100 deeds cellar).state.sent.map Outbound.pdu =
      [⟨.response, 1, Status.tooBig.code, 0, []⟩, ⟨.response, 2, 0, 0, [⟨⟨[1, 3, 1, 1]⟩, .integer 5⟩]⟩,
        ⟨.response, 3, 0, 0, [⟨⟨[1, 3, 9]⟩, .integer 1⟩]⟩]) ∧
    cellar.Fresh ∧ (Canned.service [.inform] (.complete none) : Service Instrument).Discreet ∧
    thrifty.Answering ∧
      thrifty.Corresponds (fun m => Deed.submit m ∈ deeds) vault (thrifty.performAll 100 deeds cellar).state ∧
        ∃ outs, (thrifty.performAll 100 deeds cellar).state.sent = vault.sent ++ outs ∧ ∀ out ∈ outs, ∃ m₀ mapping,
          Deed.submit m₀ ∈ deeds ∧ thrifty.Grants m₀ mapping ∧
            out = .replyTo (Agent.limited m₀ mapping) out.pdu ∧ out.pdu.size ≤ m₀.limit mapping := by
  intro cellar browse notice deeds
  have hfresh : cellar.Fresh := ⟨rfl, by simp [cellar, vault], by simp [cellar], rfl, rfl⟩
  have hcanned : (Canned.service [.inform] (.complete none) : Service Instrument).Discreet := discreet_canned _ _
  have hadded : ∀ service ∈ [(Canned.service [.inform] (.complete none) : Service Instrument)], service.Discreet :=
    List.forall_mem_singleton.mpr hcanned
  exact ⟨by decide +kernel, hfresh, hcanned, posted_of_deeds hadded rfl hfresh 100 deeds⟩

end Responder
