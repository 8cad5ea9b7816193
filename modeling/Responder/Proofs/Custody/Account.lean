import Responder.Proofs.Custody.Upkeep

/-! Every request is accounted for. An agent without tasks in the background keeps an account of what it has dealt with
    (`Account`): a message that was handed to it, a request that it took up again or that expired, each with the state
    before and after. Others may take locks meanwhile, which changes nothing of what is outstanding (`Account.roster`).
    What is answered stands in the account, at most one answer for each dealing and none for a request that was dealt
    with to an end; and who waits for a response gets one, or a counter is raised, unless a forwarder keeps silent about
    a notification (`accounted_of_deeds`). -/

namespace Responder

variable {Obj : Type}

/-! ### What a pass leaves alone -/

section Mute
variable {s t : State Obj}

/-- Nothing was answered or counted. -/
structure State.Mute (s t : State Obj) : Prop where
  sent : t.sent = s.sent
  counters : t.counters = s.counters

theorem State.lasting_mute (s : State Obj) : Lasting s.Mute where
  locks {t u} hbare ht := by
    have hsent := congrArg State.sent hbare
    have hcounters := congrArg State.counters hbare
    exact ⟨hsent.trans ht.sent, hcounters.trans ht.counters⟩
  time _ ht := ⟨ht.sent, ht.counters⟩

theorem State.Mute.refl (s : State Obj) : s.Mute s := ⟨rfl, rfl⟩

theorem State.Mute.trans {u : State Obj} (h : s.Mute t) (h' : t.Mute u) : s.Mute u :=
  ⟨h'.sent.trans h.sent, h'.counters.trans h.counters⟩

theorem Agent.pass_mute [ManagedObject Obj] {callable : ObjectId → Prop} {a : Agent Obj}
    (hservices : a.services = Agent.standardServices) {p : Pending}
    (hp : p.request.Apt p.request.requester callable) {out : Option (Request × Option Error)}
    (hpass : (a.pass p).Comes s out t) : s.Mute t :=
  Agent.pass_keeps hservices hp s.lasting_mute (fun _ _ _ _ ht => ⟨ht.sent, ht.counters⟩)
    (fun _ _ _ _ ht => ⟨ht.sent, ht.counters⟩) hpass (.refl s)

end Mute

/-! ### Answers and counters -/

namespace State

variable (s t : State Obj)

/-- What was handed over from one state to another. -/
def handed : List Outbound := t.sent.drop s.sent.length

/-- The counters that have been raised by one from one state to another. -/
def counted : List Counter := Counter.all.filter fun counter => t.counters.get counter = s.counters.get counter + 1

/-- Somebody has got an answer, or a counter tells that nobody has, or nobody receives answers any more. -/
def Accounted (s : State Obj) (result : Except Error Unit) (t : State Obj) : Prop :=
  result = .ok () ∧ ((∃ out, t.sent = s.sent ++ [out]) ∨ t.sent = s.sent ∧ s.counted t ≠ []) ∨
    result = .error .undelivered ∧ t.sent = s.sent

variable {s t} {u : State Obj} {result : Except Error Unit}

theorem mem_counted {counter : Counter} :
    counter ∈ s.counted t ↔ t.counters.get counter = s.counters.get counter + 1 := by
  have hall : counter ∈ Counter.all := by cases counter <;> decide
  rw [counted, List.mem_filter, decide_eq_true_eq, and_iff_right hall]

theorem handed_of_sent {outs : List Outbound} (h : t.sent = s.sent ++ outs) : s.handed t = outs := by
  rw [handed, h, List.drop_left]

theorem Mute.handed (h : s.Mute t) : s.handed t = [] := handed_of_sent (by rw [h.sent, List.append_nil])

theorem Accounted.outs (h : s.Accounted result t) : ∃ outs : List Outbound, t.sent = s.sent ++ outs ∧
    outs.length ≤ 1 ∧ (result = .ok () → outs.length = 1 ∨ s.counted t ≠ []) ∧
      ∀ error, result = .error error → error = .undelivered := by
  rcases h with ⟨rfl, ⟨out, h⟩ | ⟨h, hcounted⟩⟩ | ⟨rfl, h⟩
  · exact ⟨[out], h, le_rfl, fun _ => Or.inl rfl, nofun⟩
  · exact ⟨[], h.trans (List.append_nil _).symm, Nat.zero_le 1, fun _ => Or.inr hcounted, nofun⟩
  · exact ⟨[], h.trans (List.append_nil _).symm, Nat.zero_le 1, nofun, fun _ h => (Except.error.inj h).symm⟩

/-- What was done in silence before a message is accounted for does not count. -/
theorem Accounted.of_mute (h : t.Accounted result u) (hmute : s.Mute t) : s.Accounted result u := by
  have hcounted : t.counted u = s.counted u := by rw [counted, counted, hmute.counters]
  rcases h with ⟨hok, ⟨out, h⟩ | ⟨h, hsome⟩⟩ | ⟨hfailed, h⟩
  · exact Or.inl ⟨hok, Or.inl ⟨out, by rw [h, hmute.sent]⟩⟩
  · exact Or.inl ⟨hok, Or.inr ⟨h.trans hmute.sent, hcounted ▸ hsome⟩⟩
  · exact Or.inr ⟨hfailed, h.trans hmute.sent⟩

theorem get_count (s : State Obj) (raised counter : Counter) : (s.count raised).2.counters.get counter =
    if counter = raised then s.counters.get counter + 1 else s.counters.get counter :=
  s.counters.get_raise raised counter

theorem mem_counted_count (s : State Obj) (counter : Counter) : counter ∈ s.counted (s.count counter).2 := by
  rw [mem_counted, get_count, if_pos rfl]

theorem accounted_count (s : State Obj) (counter : Counter) : s.Accounted (.ok ()) (s.count counter).2 :=
  Or.inl ⟨rfl, Or.inr ⟨rfl, List.ne_nil_of_mem (s.mem_counted_count counter)⟩⟩

end State

namespace Agent

variable (a : Agent Obj) {s t : State Obj}

theorem accounted_send (m : Inbound) (pdu : Pdu) (bulk : Bool) (s : State Obj) :
    s.Accounted (a.send m pdu bulk s).1 (a.send m pdu bulk s).2 := by
  unfold send
  split
  · exact s.accounted_count _
  · split
    · exact Or.inr ⟨rfl, rfl⟩
    · exact Or.inl ⟨rfl, Or.inl ⟨_, rfl⟩⟩

/-- An answer after a count, which only counts what could not be answered. -/
theorem accounted_send_count {counter : Counter} (hcounter : counter ≠ .silentDrops) (m : Inbound) (pdu : Pdu)
    (bulk : Bool) (s : State Obj) :
    s.Accounted (a.send m pdu bulk (s.count counter).2).1 (a.send m pdu bulk (s.count counter).2).2 := by
  have hraised : (s.count counter).2.counters.get counter = s.counters.get counter + 1 :=
    State.mem_counted.mp (s.mem_counted_count counter)
  unfold send
  split
  · refine Or.inl ⟨rfl, Or.inr ⟨rfl, List.ne_nil_of_mem (a := counter) (State.mem_counted.mpr ?_)⟩⟩
    rwa [State.get_count, if_neg hcounter]
  · split
    · exact Or.inr ⟨rfl, rfl⟩
    · exact Or.inl ⟨rfl, Or.inl ⟨_, rfl⟩⟩

theorem accounted_refuse (m : Inbound) (s : State Obj) : s.Accounted (a.refuse m s).1 (a.refuse m s).2 := by
  unfold refuse
  dsimp only
  split
  · exact s.accounted_count _
  · exact a.accounted_send_count (by decide) m _ _ s

theorem accounted_finish (r : Request) (m : Inbound) (registry : Option Nat) (s : State Obj) :
    s.Accounted (a.finish r m registry s).1 (a.finish r m registry s).2 := by
  let removed : State Obj := { s with outstanding := s.outstanding.remove r.transaction }
  have hremoved : s.Mute removed := ⟨rfl, rfl⟩
  unfold finish
  refine State.Accounted.of_mute (a.accounted_send _ _ _ _) ?_
  cases registry with
  | none => exact hremoved
  | some registry => exact s.lasting_mute.locks (removed.bare_releaseLocks registry r.transaction) hremoved

theorem accounted_takeOn {m : Inbound} {mapping : Option Mapping} {result : Except Error Unit}
    (h : a.takeOn m mapping s = (.inl result, t)) : s.Accounted result t := by
  have hended {out : Except Error Unit × State Obj} (hout : ended out = (.inl result, t)) :
      out = (result, t) := by
    obtain ⟨hresult, rfl⟩ := Prod.mk.inj hout
    exact Prod.ext (Sum.inl.inj hresult) rfl
  have hfinish {r : Request} (h : ended (a.finish r m none (opened s)) = (.inl result, t)) : s.Accounted result t := by
    have haccounted := a.accounted_finish r m none (opened s)
    rw [hended h] at haccounted
    exact haccounted.of_mute ⟨rfl, rfl⟩
  unfold takeOn at h
  split at h
  · have haccounted := a.accounted_refuse m s
    rwa [hended h] at haccounted
  · split at h
    · exact hfinish h
    · split at h
      · exact hfinish h
      · cases h

/-- The message informs another engine, and is passed on to a forwarder that brings no response. -/
def Unreturned (routes : Proxy.Routes) (m₀ : Inbound) : Prop :=
  m₀.pdu.kind = .inform ∧ a.proxies = true ∧ ∃ mapping m forwarder,
    (a.admission m₀ = match mapping with
      | none => .direct
      | some mapping => .mapped mapping) ∧ limited m₀ mapping = m ∧
    let engine := (mapping.map Mapping.engine).getD m.engine
    a.settings.isOwnEngine engine = false ∧ routes.find? engine .notify = some forwarder ∧
      forwarder.relay ⟨m, mapping, engine, .notify⟩ = none

theorem accounted_forward (m : Inbound) (mapping : Option Mapping) (engine : Octets) (s : State Obj) :
    s.Accounted (a.forward m mapping engine s).1 (a.forward m mapping engine s).2 ∨
      ((a.forward m mapping engine s).1 = .ok () ∧ (a.forward m mapping engine s).2.sent = s.sent) ∧ a.proxies = true ∧
        Proxy.Class.ofKind? m.pdu.kind = some .notify ∧ ∃ forwarder, s.routes.find? engine .notify = some forwarder ∧
          forwarder.relay ⟨m, mapping, engine, .notify⟩ = none := by
  unfold forward
  split
  · exact Or.inl (s.accounted_count _)
  · next hproxies =>
    split
    · exact Or.inl (s.accounted_count _)
    · next forwarder requestClass hroute =>
      obtain ⟨c, hclass, hfound⟩ := Option.bind_eq_some_iff.mp hroute
      obtain ⟨_, hforwarder, heq⟩ := Option.map_eq_some_iff.mp hfound
      obtain ⟨rfl, rfl⟩ := Prod.mk.inj heq
      have hnoted (event : Event) : s.Mute (s.note event) := ⟨rfl, rfl⟩
      dsimp only
      split
      · exact Or.inl ((a.accounted_send _ _ _ _).of_mute (hnoted _))
      · next hnone =>
        split
        · next hnotify =>
          subst hnotify
          exact Or.inr ⟨⟨rfl, rfl⟩, by simpa using hproxies, hclass, _, hforwarder, hnone⟩
        · left
          split
          · exact (a.accounted_send_count (by decide) m _ _ _).of_mute (hnoted _)
          · exact (State.accounted_count _ _).of_mute (hnoted _)

/-- A message that is not served, and whose sender waits for a response, is answered or counted, unless a forwarder
keeps silent. -/
theorem accounted_receive {m : Inbound} {result : Except Error Unit} (h : a.receive m s = (.ended result, t)) :
    s.Accounted result t ∨
      (result = .ok () ∧ t.sent = s.sent) ∧ (m.pdu.kind.isConfirmed = true → a.Unreturned s.routes m) := by
  unfold receive at h
  split at h
  · next hkind =>
    obtain ⟨hresult, rfl⟩ := Prod.mk.inj h
    refine Or.inr ⟨⟨(Course.ended.inj hresult).symm, rfl⟩, fun hconfirmed => ?_⟩
    rcases hkind with hkind | hkind <;> simp [hkind, Pdu.Kind.isConfirmed] at hconfirmed
  · have hgo (mapping : Option Mapping) (hadmission : a.admission m = match mapping with
        | none => .direct
        | some mapping => .mapped mapping)
        (hgo : (if a.settings.isOwnEngine ((mapping.map Mapping.engine).getD (limited m mapping).engine) then
          (Course.serve (limited m mapping) mapping, s)
        else
          (.ended (a.forward (limited m mapping) mapping
            ((mapping.map Mapping.engine).getD (limited m mapping).engine) s).1,
            (a.forward (limited m mapping) mapping
              ((mapping.map Mapping.engine).getD (limited m mapping).engine) s).2)) = (.ended result, t)) :
        s.Accounted result t ∨
          (result = .ok () ∧ t.sent = s.sent) ∧ (m.pdu.kind.isConfirmed = true → a.Unreturned s.routes m) := by
      split at hgo
      · cases hgo
      · next hforeign =>
        obtain ⟨hresult, rfl⟩ := Prod.mk.inj hgo
        obtain rfl := Course.ended.inj hresult
        refine (a.accounted_forward _ mapping _ s).imp_right fun ⟨hsent, hproxies, hclass, forwarder, hrest⟩ =>
          ⟨hsent, fun hconfirmed => ⟨?_, hproxies, mapping, _, forwarder, hadmission, rfl, ?_, hrest⟩⟩
        · rw [limited_pdu] at hclass
          revert hclass hconfirmed
          cases m.pdu.kind <;> simp [Proxy.Class.ofKind?, Pdu.Kind.isConfirmed]
        · exact Bool.eq_false_iff.mpr hforeign
    split at h
    · obtain ⟨hresult, rfl⟩ := Prod.mk.inj h
      exact Or.inl (Course.ended.inj hresult ▸ s.accounted_count _)
    · next hadmission => exact hgo none hadmission h
    · next mapping hadmission => exact hgo (some mapping) hadmission h

end Agent

/-! ### The account -/

/-- What has become of a message or a request when it was dealt with. -/
inductive Fate where
  /-- Nothing more is to be done, and this is how it ended. -/
  | closed (result : Except Error Unit)
  /-- It is to be taken up again. -/
  | parked
  /-- It is left as it is, and this error is passed on. -/
  | failed (r : Request) (error : Error)
  /-- It has waited past its time, or has expired. -/
  | dropped

/-- What is told to the one who has asked for a message or a request to be dealt with. -/
def Fate.result : Fate → Except Error Unit
  | closed result => result
  | failed _ error => .error error
  | parked | dropped => .ok ()

/-- What an agent has dealt with: a message handed to it, or else a request taken up again or expired. -/
structure Dealing (Obj : Type) where
  message : Option Inbound
  /-- The message that is served, if one is: as it was handed over, or as it was kept with the request. -/
  served : Option Inbound
  request : Option TransactionId
  fate : Fate
  before : State Obj
  after : State Obj

namespace Dealing

def handed (d : Dealing Obj) : List Outbound := d.before.handed d.after

def counted (d : Dealing Obj) : List Counter := d.before.counted d.after

end Dealing

/-- What becomes of a request after a pass over it. -/
def Agent.fate (a : Agent Obj) (p : Pending) (out : Option (Request × Option Error)) (s : State Obj) : Fate :=
  match out with
  | none => .dropped
  | some (r, some error) => .failed r error
  | some (r, none) => if r.isComplete then .closed (a.conclude p out s).1 else .parked

variable {a : Agent Obj} {s₀ s t u : State Obj} {log : List (Dealing Obj)} {hands : List Pending} {p : Pending}

theorem Agent.conclude_result (out : Option (Request × Option Error)) :
    (a.conclude p out s).1 = (a.fate p out s).result := by
  rcases out with _ | ⟨r, _ | error⟩
  · rfl
  · by_cases hcomplete : r.isComplete = true
    · simp only [fate, conclude, if_pos hcomplete, Fate.result]
    · simp only [fate, conclude, if_neg hcomplete, Fate.result]
  · rfl

/-- What an agent has dealt with one after the other, the state it is in, and the requests that it has at hand. -/
inductive Account (a : Agent Obj) (s₀ : State Obj) : List (Dealing Obj) → State Obj → List Pending → Prop
  | start : Account a s₀ [] s₀ []
  | later {log : List (Dealing Obj)} {s t : State Obj} {hands : List Pending} (h : Account a s₀ log s hands)
      (ht : s.Later t) : Account a s₀ log t hands
  | turned {log : List (Dealing Obj)} {s t : State Obj} {m : Inbound} {result : Except Error Unit}
      (h : Account a s₀ log s []) (hreceive : a.receive m s = (.ended result, t)) :
      Account a s₀ (log ++ [⟨some m, none, none, .closed result, s, t⟩]) t []
  | refused {log : List (Dealing Obj)} {s t : State Obj} {m₀ m : Inbound} {mapping : Option Mapping}
      {result : Except Error Unit} (h : Account a s₀ log s []) (hreceive : a.receive m₀ s = (.serve m mapping, s))
      (htakeOn : a.takeOn m mapping s = (.inl result, t)) :
      Account a s₀ (log ++ [⟨some m₀, some m, none, .closed result, s, t⟩]) t []
  | served {log : List (Dealing Obj)} {s t u : State Obj} {m₀ m : Inbound} {mapping : Option Mapping} {p : Pending}
      {out : Option (Request × Option Error)} (h : Account a s₀ log s [])
      (hreceive : a.receive m₀ s = (.serve m mapping, s)) (htakeOn : a.takeOn m mapping s = (.inr p, t))
      (hpass : (a.pass p).Comes t out u) :
      Account a s₀ (log ++
        [⟨some m₀, some p.message, some p.request.transaction, a.fate p out u, s, (a.conclude p out u).2⟩])
        (a.conclude p out u).2 []
  | takeUp {log : List (Dealing Obj)} {s : State Obj} (h : Account a s₀ log s []) :
      Account a s₀ log { s with outstanding := s.outstanding.takeParked.2 }
        (s.outstanding.takeParked.1.map fun x => x.2.retry)
  | retried {log : List (Dealing Obj)} {s t : State Obj} {p : Pending} {hands : List Pending}
      {out : Option (Request × Option Error)} (h : Account a s₀ log s (p :: hands))
      (hpass : (a.pass p).Comes s out t) :
      Account a s₀ (log ++
        [⟨none, some p.message, some p.request.transaction, a.fate p out t, s, (a.conclude p out t).2⟩])
        (a.conclude p out t).2 hands
  | expire {log : List (Dealing Obj)} {s : State Obj} (h : Account a s₀ log s []) :
      Account a s₀ (log ++ (s.outstanding.expire s.now).1.map fun x =>
        ⟨none, none, some x.1, .dropped, s, (Agent.expire s).2⟩) (Agent.expire s).2 []
  /-- Somebody else has taken or released locks. -/
  | relocked {log : List (Dealing Obj)} {s : State Obj} (h : Account a s₀ log s []) (registry : Nat) (locks : Locks) :
      Account a s₀ log (s.setLocks registry locks) []

namespace Account

open Activity (Comes)

variable [ManagedObject Obj]

theorem drive_of_comes {result : Except Error Unit} (h : Account a s₀ log s (p :: hands))
    (hcomes : (a.drive p).Comes s result t) : ∃ d : Dealing Obj, (d.message = none ∧ d.fate.result = result) ∧
      Account a s₀ (log ++ [d]) t hands := by
  rw [Agent.drive_eq] at hcomes
  obtain ⟨out, u, hpass, hrest⟩ := Activity.comes_bind hcomes
  obtain ⟨rfl, rfl⟩ := Activity.comes_modifyGet.mp hrest
  exact ⟨_, ⟨rfl, (Agent.conclude_result out).symm⟩, h.retried hpass⟩

theorem process_of_comes {m : Inbound} {result : Except Error Unit} (h : Account a s₀ log s [])
    (hcomes : (a.process m).Comes s result t) : ∃ d : Dealing Obj, (d.message = some m ∧ d.fate.result = result) ∧
      Account a s₀ (log ++ [d]) t [] := by
  obtain ⟨course, u, hreceive, hrest⟩ := Activity.comes_bind hcomes
  obtain ⟨hcourse, hu⟩ := Activity.comes_modifyGet.mp hreceive
  have hreceived : a.receive m s = (course, u) := Prod.ext hcourse.symm hu.symm
  cases course with
  | ended result =>
    obtain ⟨rfl, rfl⟩ := Activity.comes_pure.mp hrest
    exact ⟨_, ⟨rfl, rfl⟩, h.turned hreceived⟩
  | serve m' mapping =>
    obtain rfl : u = s := (Agent.receive_eq_serve_iff.mp hreceived).2
    dsimp only at hrest
    rw [Agent.serve_eq] at hrest
    obtain ⟨out, v, htakeOn, hlast⟩ := Activity.comes_bind hrest
    obtain ⟨hout, hv⟩ := Activity.comes_modifyGet.mp htakeOn
    have htaken : a.takeOn m' mapping u = (out, v) := Prod.ext hout.symm hv.symm
    cases out with
    | inl result =>
      obtain ⟨rfl, rfl⟩ := Activity.comes_pure.mp hlast
      exact ⟨_, ⟨rfl, rfl⟩, h.refused hreceived htaken⟩
    | inr p =>
      have hdrive : (a.drive p).Comes v result t := hlast
      rw [Agent.drive_eq] at hdrive
      obtain ⟨out, w, hpass, hend⟩ := Activity.comes_bind hdrive
      obtain ⟨rfl, rfl⟩ := Activity.comes_modifyGet.mp hend
      exact ⟨_, ⟨rfl, (Agent.conclude_result out).symm⟩, h.served hreceived htaken hpass⟩

/-- Whatever happens to an agent is accounted for, and every message that is handed to it. -/
theorem narrates : a.Narrates fun ms s hands =>
    ∃ log, Account a s₀ log s hands ∧ log.filterMap Dealing.message = ms where
  later := fun ⟨log, h, hms⟩ ht => ⟨log, h.later ht, hms⟩
  process := fun ⟨log, h, hms⟩ hcomes => by
    obtain ⟨d, ⟨hd, -⟩, hnext⟩ := h.process_of_comes hcomes
    exact ⟨_, hnext, by simp [hms, hd]⟩
  takeUp := fun ⟨log, h, hms⟩ => ⟨log, h.takeUp, hms⟩
  drive := fun ⟨log, h, hms⟩ hcomes => by
    obtain ⟨d, ⟨hd, -⟩, hnext⟩ := h.drive_of_comes hcomes
    exact ⟨_, hnext, by simp [hms, hd]⟩
  expire := fun ⟨log, h, hms⟩ => ⟨_, h.expire, by simp [hms, List.filterMap_map]⟩

end Account

/-! ### What is outstanding -/

section Roster
variable [ManagedObject Obj] (hservices : a.services = Agent.standardServices)
include hservices

/-- A request at hand has a pass, whatever locks it gets. -/
theorem Roster.drive (h : Roster (fun _ _ => True) s (p :: hands)) {out : Option (Request × Option Error)}
    (hpass : (a.pass p).Comes s out t) :
    (t.outstanding = s.outstanding ∧ t.transactions = s.transactions) ∧ Roster (fun _ _ => True) t (p :: hands) ∧
      (∀ r, out = some r → r.1.transaction = p.request.transaction) ∧
      Roster (fun _ _ => True) (a.conclude p out t).2 hands := by
  have hp := h.apt p (Or.inl List.mem_cons_self)
  have hlasting : Lasting fun u : State Obj => u.outstanding = s.outstanding ∧ u.transactions = s.transactions :=
    ⟨fun hbare hu => ⟨(congrArg State.outstanding hbare).trans hu.1, (congrArg State.transactions hbare).trans hu.2⟩,
      fun _ hu => hu⟩
  have hsame := Agent.pass_keeps hservices hp hlasting (fun _ _ _ _ => id) (fun _ _ _ _ => id) hpass ⟨rfl, rfl⟩
  have htracked : Roster (fun _ _ => True) t (p :: hands) :=
    h.of_same (congrArg Outstanding.entries hsame.1) hsame.2.ge
  have hapt (r : Request × Option Error) (hr : out = some r) : r.1.Apt p.request.requester fun _ => True := by
    subst hr
    exact Agent.pass_apt hservices hp (hpass.yields p.request.transaction)
  have hid (r : Request × Option Error) (hr : out = some r) : r.1.transaction = p.request.transaction :=
    congrArg Requester.transaction (hapt r hr).requester
  refine ⟨hsame, htracked, hid, ?_⟩
  rcases Agent.conclude_cases (a := a) (s := t) hid with ⟨r, hr, -, hparked⟩ | ⟨hquits, -⟩
  · rw [hparked]
    exact htracked.park (hapt _ hr)
  · exact htracked.quit hquits.outstanding hquits.clears.transactions

/-- Whatever is accounted for, what is outstanding is parked or at hand. -/
theorem Account.roster (hs₀ : Roster (fun _ _ => True) s₀ []) (h : Account a s₀ log s hands) :
    Roster (fun _ _ => True) s hands := by
  induction h with
  | start => exact hs₀
  | later h ht ih =>
    obtain ⟨now, released, rfl⟩ := ht
    exact ih.of_same rfl le_rfl
  | @turned log s t m result h hreceive ih =>
    obtain ⟨-, houtstanding, htransactions, -⟩ := State.Told.registries (a.told_receive m s)
    rw [hreceive] at houtstanding htransactions
    exact ih.of_same (congrArg Outstanding.entries houtstanding) htransactions.ge
  | @refused log s t m₀ m mapping result h hreceive htakeOn ih =>
    rcases ih.takeOn_cases (a := a) m mapping with ⟨_, _, heq, -, houtstanding, htransactions, -⟩ | ⟨registry, heq⟩
    · cases htakeOn.symm.trans heq
      exact ih.of_same houtstanding htransactions
    · cases htakeOn.symm.trans heq
  | served h hreceive htakeOn hpass ih =>
    obtain ⟨⟨registry, rfl⟩, rfl⟩ := Agent.takeOn_inr htakeOn
    exact ((ih.opened rfl (.start rfl _ _)).drive hservices hpass).2.2.2
  | takeUp h ih => exact ih.takeUp
  | retried h hpass ih => exact (ih.drive hservices hpass).2.2.2
  | expire h ih => exact ih.expire
  | relocked h registry locks ih => exact ih.of_same rfl le_rfl

end Roster

/-! ### What each dealing hands over -/

/-- One dealing hands over an answer at most, and none if the request is to be taken up again, or is left. Where it
ends well, it has handed one over or counted something, unless nobody waits for a response, or a forwarder keeps silent
about a notification. -/
structure Dealing.Proper (a : Agent Obj) (d : Dealing Obj) : Prop where
  sent : d.after.sent = d.before.sent ++ d.handed
  single : d.handed.length ≤ 1
  silent : (∀ result, d.fate ≠ .closed result) → d.handed = []
  parked : d.fate = .parked → ∃ x ∈ d.after.outstanding.entries, d.request = some x.id ∧ x.parked.isSome = true
  answered : d.fate = .closed (.ok ()) → d.handed.length = 1 ∨ d.counted ≠ [] ∨
    ∃ m, d.message = some m ∧ (m.pdu.kind.isConfirmed = false ∨ a.Unreturned d.before.routes m)
  undelivered : ∀ error, d.fate = .closed (.error error) → error = .undelivered

namespace Dealing

variable {m served : Option Inbound} {id : Option TransactionId} {result : Except Error Unit}

theorem proper_of_accounted (h : s.Accounted result t) :
    (⟨m, served, id, .closed result, s, t⟩ : Dealing Obj).Proper a := by
  obtain ⟨outs, hsent, hsingle, hcounted, hfailed⟩ := h.outs
  have hhanded : s.handed t = outs := State.handed_of_sent hsent
  refine ⟨?_, ?_, fun hfate => absurd rfl (hfate result), (nomatch ·), fun hfate => ?_,
    fun error hfate => hfailed error (Fate.closed.inj hfate)⟩
  · rw [handed, hhanded]
    exact hsent
  · rwa [handed, hhanded]
  · cases hfate
    rw [handed, hhanded]
    exact (hcounted rfl).imp_right Or.inl

/-- A message that is not served. -/
theorem proper_of_receive {m : Inbound} (h : a.receive m s = (.ended result, t)) :
    (⟨some m, served, none, .closed result, s, t⟩ : Dealing Obj).Proper a := by
  rcases a.accounted_receive h with h | ⟨⟨rfl, hsent⟩, hsilent⟩
  · exact proper_of_accounted h
  · have hhanded : s.handed t = [] := State.handed_of_sent (by rw [hsent, List.append_nil])
    refine ⟨?_, ?_, fun hfate => absurd rfl (hfate (.ok ())), (nomatch ·), fun _ => Or.inr (Or.inr ⟨m, rfl, ?_⟩),
      nofun⟩
    · rw [handed, hhanded, hsent, List.append_nil]
    · rw [handed, hhanded]
      exact Nat.zero_le 1
    · cases hconfirmed : m.pdu.kind.isConfirmed with
      | false => exact Or.inl rfl
      | true => exact Or.inr (hsilent hconfirmed)

/-- A request that is to be taken up again, or is dropped, or has failed. -/
theorem proper_of_mute {fate : Fate} (h : s.Mute t) (hfate : ∀ result, fate ≠ .closed result)
    (hparked : fate = .parked → ∃ x ∈ t.outstanding.entries, id = some x.id ∧ x.parked.isSome = true) :
    (⟨m, served, id, fate, s, t⟩ : Dealing Obj).Proper a := by
  have hhanded : s.handed t = [] := h.handed
  refine ⟨?_, ?_, fun _ => hhanded, hparked, fun h => absurd h (hfate _), fun _ h => absurd h (hfate _)⟩
  · rw [handed, hhanded, List.append_nil]
    exact h.sent
  · rw [handed, hhanded]
    exact Nat.zero_le 1

/-- A request that had a pass, before which nothing had been handed over. -/
theorem proper_conclude (hmute : s.Mute t) {callable : Nat → ObjectId → Prop} (hroster : Roster callable t (p :: hands))
    {out : Option (Request × Option Error)} (hid : ∀ r, out = some r → r.1.transaction = p.request.transaction) :
    (⟨m, served, some p.request.transaction, a.fate p out t, s, (a.conclude p out t).2⟩ : Dealing Obj).Proper a := by
  have hdrop : s.Mute (Agent.drop p.registry p.request.transaction t) := by
    have hreleased := s.lasting_mute.locks (t.bare_releaseLocks p.registry p.request.transaction) hmute
    exact ⟨hreleased.sent, hreleased.counters⟩
  rcases out with _ | ⟨r, _ | error⟩
  · exact proper_of_mute hdrop (fun _ hfate => by cases hfate) fun hfate => by cases hfate
  · by_cases hcomplete : r.isComplete = true
    · have haccounted := a.accounted_finish r p.message (some p.registry) t
      simp only [Agent.fate, Agent.conclude, if_pos hcomplete]
      exact proper_of_accounted (haccounted.of_mute hmute)
    · have hr : ({ p with request := r } : Pending).request.transaction = p.request.transaction := hid _ rfl
      simp only [Agent.fate, Agent.conclude, if_neg hcomplete]
      refine proper_of_mute ?_ (fun _ hfate => by cases hfate) fun _ => ?_
      · rw [hroster.park_eq hr]
        exact ⟨hmute.sent, hmute.counters⟩
      · obtain ⟨x, hx, hxid, -⟩ := hroster.listed p List.mem_cons_self
        exact ⟨_, (hroster.mem_park hr).mpr (Or.inr ⟨x, hx, hxid, rfl⟩), congrArg some hxid.symm, rfl⟩
  · exact proper_of_mute hdrop (fun _ hfate => by cases hfate) fun hfate => by cases hfate

end Dealing

theorem Agent.mute_expire (s : State Obj) : s.Mute (Agent.expire s).2 := by
  have hsent := congrArg State.sent (bare_expire s)
  have hcounters := congrArg State.counters (bare_expire s)
  exact ⟨hsent, hcounters⟩

/-- Every dealing in an account is proper, and the answers that were sent are those that it hands over. -/
theorem Account.proper [ManagedObject Obj] (hservices : a.services = Agent.standardServices)
    (hs₀ : Roster (fun _ _ => True) s₀ []) (h : Account a s₀ log s hands) :
    (∀ d ∈ log, d.Proper a) ∧ s.sent = s₀.sent ++ log.flatMap Dealing.handed := by
  have hone {log : List (Dealing Obj)} {d : Dealing Obj}
      (ih : (∀ d ∈ log, d.Proper a) ∧ d.before.sent = s₀.sent ++ log.flatMap Dealing.handed) (hd : d.Proper a) :
      (∀ x ∈ log ++ [d], x.Proper a) ∧ d.after.sent = s₀.sent ++ (log ++ [d]).flatMap Dealing.handed := by
    refine ⟨List.forall_mem_append.mpr ⟨ih.1, List.forall_mem_singleton.mpr hd⟩, ?_⟩
    rw [hd.sent, ih.2, List.flatMap_append, List.append_assoc, List.flatMap_singleton]
  have hpassed {before s t : State Obj} {p : Pending} {hands : List Pending} {out : Option (Request × Option Error)}
      {message served : Option Inbound} (hpass : (a.pass p).Comes s out t) (hbefore : before.Mute s)
      (hs : Roster (fun _ _ => True) s (p :: hands)) :
      (⟨message, served, some p.request.transaction, a.fate p out t, before, (a.conclude p out t).2⟩ :
        Dealing Obj).Proper a := by
    obtain ⟨-, ht, hid, -⟩ := hs.drive hservices hpass
    have hmute := Agent.pass_mute hservices (hs.apt p (Or.inl List.mem_cons_self)) hpass
    exact Dealing.proper_conclude (hbefore.trans hmute) ht hid
  induction h with
  | start => simp
  | later h ht ih =>
    obtain ⟨now, released, rfl⟩ := ht
    exact ih
  | turned h hreceive ih => exact hone ih (Dealing.proper_of_receive hreceive)
  | refused h hreceive htakeOn ih => exact hone ih (Dealing.proper_of_accounted (a.accounted_takeOn htakeOn))
  | served h hreceive htakeOn hpass ih =>
    obtain ⟨⟨registry, rfl⟩, rfl⟩ := Agent.takeOn_inr htakeOn
    exact hone ih (hpassed hpass ⟨rfl, rfl⟩ ((h.roster hservices hs₀).opened rfl (.start rfl _ _)))
  | takeUp h ih => exact ih
  | retried h hpass ih => exact hone ih (hpassed hpass (.refl _) (h.roster hservices hs₀))
  | @expire log s h ih =>
    have hmute := Agent.mute_expire s
    refine ⟨List.forall_mem_append.mpr ⟨ih.1, fun d hd => ?_⟩, ?_⟩
    · obtain ⟨x, -, rfl⟩ := List.mem_map.mp hd
      exact Dealing.proper_of_mute hmute (fun _ hfate => by cases hfate) fun hfate => by cases hfate
    · rw [hmute.sent, ih.2, List.flatMap_append, ← List.append_assoc, List.self_eq_append_right,
        List.flatMap_eq_nil_iff]
      intro d hd
      obtain ⟨x, -, rfl⟩ := List.mem_map.mp hd
      exact hmute.handed
  | relocked h registry locks ih => exact ih

/-! ### To an end but once -/

/-- No request is dealt with again that was not parked, and what goes on has been parked whenever it was dealt with. -/
structure Booked (log : List (Dealing Obj)) (s : State Obj) (hands : List Pending) : Prop where
  known : ∀ d ∈ log, ∀ id, d.request = some id → id.number < s.transactions
  lives : ∀ p : Pending, p.Lives s hands → ∀ d ∈ log, d.request = some p.request.transaction → d.fate = .parked
  once : log.Pairwise fun d d' => d.request.isSome = true → d'.request = d.request → d.fate = .parked

namespace Booked

variable {left : List Pending} {new : List (Dealing Obj)} {d : Dealing Obj}

/-- Requests that have gone on are dealt with once more. -/
theorem append (h : Booked log s hands) (htransactions : s.transactions ≤ t.transactions)
    (hnew : ∀ d ∈ new, ∀ id, d.request = some id → ∃ p : Pending, p.Lives s hands ∧ p.request.transaction = id)
    (hknown : ∀ p : Pending, p.Lives s hands → p.request.transaction.number < t.transactions)
    (honce : new.Pairwise fun d d' => d.request.isSome = true → d'.request ≠ d.request)
    (hlives : ∀ q : Pending, q.Lives t left →
      (∃ p : Pending, p.Lives s hands ∧ p.request.transaction = q.request.transaction) ∧
        ∀ d ∈ new, d.request = some q.request.transaction → d.fate = .parked) :
    Booked (log ++ new) t left where
  known d hd id hid := by
    rcases List.mem_append.mp hd with hd | hd
    · exact (h.known d hd id hid).trans_le htransactions
    · obtain ⟨p, hp, rfl⟩ := hnew d hd id hid
      exact hknown p hp
  lives q hq d hd hid := by
    obtain ⟨⟨p, hp, heq⟩, hparked⟩ := hlives q hq
    rcases List.mem_append.mp hd with hd | hd
    · exact h.lives p hp d hd (heq ▸ hid)
    · exact hparked d hd hid
  once := by
    refine List.pairwise_append.mpr ⟨h.once, honce.imp fun hne hsome heq => absurd heq (hne hsome), ?_⟩
    intro d hd d' hd' hsome heq
    obtain ⟨id, hid⟩ := Option.isSome_iff_exists.mp hsome
    obtain ⟨p, hp, rfl⟩ := hnew d' hd' id (heq.trans hid)
    exact h.lives p hp d hd hid

/-- Nothing has been dealt with but a message that became no request. -/
theorem note (h : Booked log s hands) (hd : d.request = none)
    (houtstanding : t.outstanding.entries = s.outstanding.entries) (htransactions : s.transactions ≤ t.transactions) :
    Booked (log ++ [d]) t hands where
  known x hx id hid := by
    rcases List.mem_append.mp hx with hx | hx
    · exact (h.known x hx id hid).trans_le htransactions
    · rw [List.mem_singleton.mp hx, hd] at hid
      cases hid
  lives q hq x hx hid := by
    rcases List.mem_append.mp hx with hx | hx
    · exact h.lives q ((Pending.lives_congr houtstanding).mp hq) x hx hid
    · rw [List.mem_singleton.mp hx, hd] at hid
      cases hid
  once := by
    refine List.pairwise_append.mpr ⟨h.once, List.pairwise_singleton _ _, fun x _ y hy hsome heq => ?_⟩
    rw [List.mem_singleton.mp hy, hd] at heq
    rw [← heq] at hsome
    cases hsome

/-- A request begins, whose transaction is new. -/
theorem opened {callable : Nat → ObjectId → Prop} (h : Booked log s []) (hs : Roster callable s [])
    (hid : p.request.transaction = ⟨s.transactions⟩) : Booked log (Agent.opened s) [p] where
  known d hd id hid := (h.known d hd id hid).trans (Nat.lt_succ_self _)
  lives q hq d hd hd' := by
    rcases hs.lives_opened.mp hq with rfl | hq
    · exact absurd (h.known d hd _ (hid ▸ hd')) (Nat.lt_irrefl _)
    · exact h.lives q hq d hd hd'
  once := h.once

theorem takeUp (h : Booked log s []) : Booked log { s with outstanding := s.outstanding.takeParked.2 }
    (s.outstanding.takeParked.1.map fun x => x.2.retry) where
  known := h.known
  lives q hq d hd hid := by
    obtain ⟨p, hp, rfl⟩ := Roster.lives_takeUp.mp hq
    exact h.lives p hp d hd hid
  once := h.once

/-- A request at hand has a pass. -/
theorem drive [ManagedObject Obj] (hservices : a.services = Agent.standardServices) (h : Booked log s (p :: hands))
    (hs : Roster (fun _ _ => True) s (p :: hands)) {out : Option (Request × Option Error)}
    (hpass : (a.pass p).Comes s out t) (hrequest : d.request = some p.request.transaction)
    (hfate : d.fate = a.fate p out t) : Booked (log ++ [d]) (a.conclude p out t).2 hands := by
  obtain ⟨⟨houtstanding, hsame⟩, ht, hid, -⟩ := hs.drive hservices hpass
  have hlives {q : Pending} : q.Lives t (p :: hands) ↔ q.Lives s (p :: hands) :=
    Pending.lives_congr (congrArg Outstanding.entries houtstanding)
  have hp : p.Lives s (p :: hands) := Or.inl List.mem_cons_self
  have htransactions : (a.conclude p out t).2.transactions = s.transactions := by
    refine Eq.trans ?_ hsame
    rcases Agent.conclude_cases (a := a) (s := t) hid with ⟨r, hr, -, hparked⟩ | ⟨hquits, -⟩
    · rw [hparked, ht.park_eq (hid _ hr)]
    · exact hquits.clears.transactions
  have hknown (q : Pending) (hq : q.Lives s (p :: hands)) : q.request.transaction.number < s.transactions := by
    obtain ⟨x, hx, hxid, -⟩ := hs.tracked hq
    exact hxid ▸ hs.fresh x hx
  refine h.append htransactions.ge (fun x hx id hxid => ?_) (fun q hq => htransactions ▸ hknown q hq)
    (List.pairwise_singleton _ _) fun q hq => ?_
  · rw [List.mem_singleton.mp hx, hrequest] at hxid
    exact ⟨p, hp, Option.some.inj hxid⟩
  · rcases Agent.conclude_cases (a := a) (s := t) hid with ⟨r, rfl, hopen, hparked⟩ | ⟨hquits, -⟩
    · rw [hparked] at hq
      rcases (ht.lives_park (hid _ rfl)).mp hq with rfl | ⟨hq, hne⟩
      · refine ⟨⟨p, hp, (hid _ rfl).symm⟩, fun x hx _ => ?_⟩
        rw [List.mem_singleton.mp hx, hfate, Agent.fate]
        exact if_neg (Bool.eq_false_iff.mp hopen)
      · refine ⟨⟨q, hlives.mp hq, rfl⟩, fun x hx hxid => absurd ?_ hne⟩
        rw [List.mem_singleton.mp hx, hrequest] at hxid
        exact (Option.some.inj hxid).symm
    · obtain ⟨hq, hne⟩ := (ht.lives_quit hquits.outstanding).mp hq
      refine ⟨⟨q, hlives.mp hq, rfl⟩, fun x hx hxid => absurd ?_ hne⟩
      rw [List.mem_singleton.mp hx, hrequest] at hxid
      exact (Option.some.inj hxid).symm

/-- Requests expire, each of them once. -/
theorem expire {callable : Nat → ObjectId → Prop} (h : Booked log s []) (hs : Roster callable s [])
    (before after : State Obj) :
    Booked (log ++ (s.outstanding.expire s.now).1.map fun x => ⟨none, none, some x.1, .dropped, before, after⟩)
      (Agent.expire s).2 [] := by
  have hexpired {x : TransactionId × Option Pending} (hx : x ∈ (s.outstanding.expire s.now).1) :
      ∃ p : Pending, x = (p.request.transaction, some p) ∧ p.Lives s [] := by
    obtain ⟨y, hy, rfl⟩ := List.mem_map.mp hx
    have hy := (List.mem_filter.mp hy).1
    obtain ⟨p, hp⟩ := hs.parked hy
    exact ⟨p, Prod.ext (hs.own y hy p hp).symm hp, Or.inr ⟨y, hy, hp⟩⟩
  refine h.append (Roster.transactions_expire s).ge (fun d hd id hid => ?_) (fun q hq => ?_) ?_ fun q hq => ?_
  · obtain ⟨x, hx, rfl⟩ := List.mem_map.mp hd
    obtain ⟨p, rfl, hp⟩ := hexpired hx
    exact ⟨p, hp, Option.some.inj hid⟩
  · obtain ⟨x, hx, hxid, -⟩ := hs.tracked hq
    rw [Roster.transactions_expire, ← hxid]
    exact hs.fresh x hx
  · have hdistinct : ((s.outstanding.expire s.now).1.map Prod.fst).Nodup := by
      simp only [Outstanding.expire, List.map_map]
      exact hs.distinct.sublist (List.filter_sublist.map _)
    refine List.pairwise_map.mpr ((List.pairwise_map.mp hdistinct).imp fun hne _ heq => hne ?_)
    exact (Option.some.inj heq).symm
  · obtain ⟨hq, hopen⟩ := hs.lives_expire.mp hq
    refine ⟨⟨q, hq, rfl⟩, fun d hd hid => absurd ?_ hopen⟩
    obtain ⟨x, hx, rfl⟩ := List.mem_map.mp hd
    obtain ⟨p, rfl, hp⟩ := hexpired hx
    obtain rfl := hs.unique hp hq (Option.some.inj hid)
    exact hx

end Booked

/-- In an account no request is dealt with again that was not parked. -/
theorem Account.booked [ManagedObject Obj] (hservices : a.services = Agent.standardServices)
    (hs₀ : Roster (fun _ _ => True) s₀ []) (h : Account a s₀ log s hands) : Booked log s hands := by
  induction h with
  | start => exact ⟨by simp, by simp, List.Pairwise.nil⟩
  | later h ht ih =>
    obtain ⟨now, released, rfl⟩ := ht
    exact ⟨ih.known, ih.lives, ih.once⟩
  | @turned log s t m result h hreceive ih =>
    obtain ⟨-, houtstanding, htransactions, -⟩ := State.Told.registries (a.told_receive m s)
    rw [hreceive] at houtstanding htransactions
    exact ih.note rfl (congrArg Outstanding.entries houtstanding) htransactions.ge
  | @refused log s t m₀ m mapping result h hreceive htakeOn ih =>
    rcases (h.roster hservices hs₀).takeOn_cases (a := a) m mapping with
      ⟨_, _, heq, -, houtstanding, htransactions, -⟩ | ⟨registry, heq⟩
    · cases htakeOn.symm.trans heq
      exact ih.note rfl houtstanding htransactions
    · cases htakeOn.symm.trans heq
  | @served log s t u m₀ m mapping p out h hreceive htakeOn hpass ih =>
    have hroster := h.roster hservices hs₀
    obtain ⟨⟨registry, rfl⟩, rfl⟩ := Agent.takeOn_inr htakeOn
    exact (ih.opened hroster rfl).drive hservices (hroster.opened rfl (.start rfl _ _)) hpass rfl rfl
  | takeUp h ih => exact ih.takeUp
  | retried h hpass ih => exact ih.drive hservices (h.roster hservices hs₀) hpass rfl rfl
  | @expire log s h ih => exact ih.expire (h.roster hservices hs₀) _ _
  | relocked h registry locks ih => exact ⟨ih.known, ih.lives, ih.once⟩

/-- Where each dealing hands over one answer at most, and none if a request is to be taken up again, a request has no
two answers. -/
theorem length_handed_le (id : TransactionId) : ∀ {log : List (Dealing Obj)}, (∀ d ∈ log, d.Proper a) →
    (log.Pairwise fun d d' => d.request.isSome = true → d'.request = d.request → d.fate = .parked) →
      ((log.filter fun d => d.request = some id).flatMap Dealing.handed).length ≤ 1
  | [], _, _ => Nat.zero_le 1
  | d :: log, hproper, honce => by
    obtain ⟨hd, hrest⟩ := List.forall_mem_cons.mp hproper
    obtain ⟨hfirst, honce⟩ := List.pairwise_cons.mp honce
    have ih := length_handed_le id hrest honce
    by_cases hid : d.request = some id
    · rw [List.filter_cons_of_pos (by simpa using hid), List.flatMap_cons]
      by_cases hparked : d.fate = .parked
      · rwa [hd.silent (by simp [hparked]), List.nil_append]
      · have hnone : log.filter (fun d => d.request = some id) = [] :=
          List.filter_eq_nil_iff.mpr fun x hx heq => hparked <|
            hfirst x hx (hid ▸ rfl) ((of_decide_eq_true heq).trans hid.symm)
        rw [hnone, List.flatMap_nil, List.append_nil]
        exact hd.single
    · rwa [List.filter_cons_of_neg (by simpa using hid)]

/-- Every run of an agent without tasks in the background is accounted for. -/
theorem account_of_deeds [ManagedObject Obj] (hinline : a.settings.maxConcurrent = 0) {s : Schedule Obj}
    (hidle : s.Idle) (deeds : List Deed) :
    ∃ enough log, (∀ turns ≥ enough, Account a s.state log (a.performAll turns deeds s).state []) ∧
      log.filterMap Dealing.message = deeds.filterMap Deed.message? := by
  have htold : a.Narrates fun ms t hands =>
      ∃ log, Account a s.state log t hands ∧ log.filterMap Dealing.message = ms := Account.narrates
  obtain ⟨enough, t, ⟨log, haccount, hmessages⟩, hrun⟩ := htold.of_deeds hinline deeds [] hidle ⟨[], .start, rfl⟩
    fun registry locks _ _ _ ⟨log, h, hms⟩ => ⟨log, h.relocked registry locks, hms⟩
  exact ⟨enough, log, fun turns hturns => hrun turns hturns ▸ haccount, hmessages⟩

/-- Every request is accounted for. Whatever happens to an agent with the standard services and without tasks in the
background, and whoever else takes locks between its doings: there is an account of it, with every message that was
handed over. Whatever is accounted for, the answers that were sent are those that the dealings hand over, at most one of
them each; a dealing that ends well hands one over or raises a counter by one, unless nobody waits for a response, or a
forwarder keeps silent about a notification; a request has no two answers, and is not dealt with again once it has ended
or was dropped. -/
theorem accounted_of_deeds [ManagedObject Obj] (hservices : a.services = Agent.standardServices)
    (hinline : a.settings.maxConcurrent = 0) {s : Schedule Obj} (hidle : s.Idle)
    (hempty : s.state.outstanding.entries = []) (deeds : List Deed) :
    (∃ enough log, (∀ turns ≥ enough, Account a s.state log (a.performAll turns deeds s).state []) ∧
      log.filterMap Dealing.message = deeds.filterMap Deed.message?) ∧
    ∀ log t hands, Account a s.state log t hands →
      t.sent = s.state.sent ++ log.flatMap Dealing.handed ∧ (∀ d ∈ log, d.Proper a) ∧
      (∀ id, ((log.filter fun d => d.request = some id).flatMap Dealing.handed).length ≤ 1) ∧
      log.Pairwise fun d d' => d.request.isSome = true → d'.request = d.request → d.fate = .parked := by
  refine ⟨account_of_deeds hinline hidle deeds, fun log t hands h => ?_⟩
  obtain ⟨hproper, hsent⟩ := h.proper hservices (.of_empty hempty)
  have honce := (h.booked hservices (.of_empty hempty)).once
  exact ⟨hsent, hproper, fun id => length_handed_le id hproper honce, honce⟩

/-- A request that is parked while it is prepared, and answered when it is taken up again. In between somebody else has
taken a lock. -/
theorem accounted_of_deposit :
    let cellar : Schedule Instrument := ⟨vault, 100, [], [], [], 0, ⟨0⟩⟩
    let keeper := { custodian with settings := { custodian.settings with maxConcurrent := 0 } }
    let deeds := [.submit deposit, .relock 0 ⟨[⟨⟨7⟩, ⟨7⟩, 1⟩]⟩, .takeUp]
    ((keeper.performAll 100 [.submit deposit] cellar).state.sent.length = 0 ∧
      (keeper.performAll 100 deeds cellar).state.sent.length = 1) ∧
    (∃ enough log, (∀ turns ≥ enough, Account keeper cellar.state log (keeper.performAll turns deeds cellar).state []) ∧
      log.filterMap Dealing.message = [deposit]) ∧
    ∀ log t hands, Account keeper cellar.state log t hands →
      t.sent = [] ++ log.flatMap Dealing.handed ∧ (∀ d ∈ log, d.Proper keeper) ∧
      (∀ id, ((log.filter fun d => d.request = some id).flatMap Dealing.handed).length ≤ 1) ∧
      log.Pairwise fun d d' => d.request.isSome = true → d'.request = d.request → d.fate = .parked := by
  intro cellar keeper deeds
  exact ⟨by decide +kernel, accounted_of_deeds rfl rfl ⟨rfl, rfl, rfl⟩ rfl deeds⟩

/-- Somebody is to be informed at another engine. -/
def notice : Inbound :=
  .ofUser [117] .noAuthNoPriv [9] [] ⟨.v4 192 0 2 10, 50161, 0⟩ ⟨.inform, 1, 0, 0, [⟨⟨[1, 3, 9]⟩, .integer 1⟩]⟩

/-- A notification whose sender waits for a response is passed on to a forwarder that brings none. All that comes of it
is that it was passed on. -/
theorem unreturned_of_notice :
    let courier := { Agent.plain with proxies := true, settings := { maxConcurrent := 0, ownEngines := [[1]] } }
    let office : Schedule Instrument :=
      ⟨{ vault with routes := ⟨[(([9], .notify), ⟨"post", fun _ => none⟩)]⟩ }, 100, [], [], [], 0, ⟨0⟩⟩
    notice.pdu.kind.isConfirmed = true ∧ (courier.submit 100 notice office).1 = some (.ok ()) ∧
      (courier.submit 100 notice office).2.state =
        { office.state with trace := [.relay "post" ⟨notice, none, [9], .notify⟩] } := by
  intro courier office
  exact ⟨rfl, rfl, rfl⟩

end Responder
