import Responder.Proofs.Conduct
import Responder.Proofs.Drive
import Responder.Proofs.History
import Responder.Proofs.Schedule

/-! Requests among others. While a request waits, and between two passes over it, others do what they may. A pass keeps
    what neither they nor locks of its own registry can change, and calls and refusals leave alone
    (`Agent.pass_steady`). A request is pursued from the message that it was made for, through any number of passes, to
    the next one (`Agent.Pursues`); what can be said of a request and its history when it begins, and of what a pass
    makes of them, is said of it then (`Agent.Pursues.upheld`). -/

namespace Responder

variable {Obj : Type}

/-! ### What a pass keeps -/

section Passes
variable [ManagedObject Obj] {rely : State Obj → State Obj → Prop} {I : State Obj → Prop} {number : Nat}
  {who : Requester} {callable : ObjectId → Prop} {s : State Obj}

/-- What is steady, and is left alone by calls and refusals, is kept by all that a service does. -/
theorem Steady.conduct (hI : Steady rely number I) (p : Policy)
    (hcall : ∀ callback object item s, I s → I (s.call callback who object item).2)
    (hrefuse : ∀ callback item status s, I s → I (s.refuse callback who item status).2) :
    Conduct p number who (fun _ => True) fun {α : Type} (act : Doing Obj α) post =>
      ∀ s, I s → act.Ensures rely I s fun a t => I t ∧ post a where
  pure ha _ hs := ⟨hs, ha⟩
  bind hact hf s hs := by
    rw [Activity.ensures_bind]
    exact (hact s hs).mono (fun _ => id) fun a t ⟨ht, ha⟩ => hf a ha t ht
  look region writes terms _ _ s hs := by
    have hlook := Lookup.run_ensures (E := fun _ => True) (l := ⟨number, p.query who region writes, terms⟩) hI
      (fun _ _ _ _ _ => trivial) p.patience hs
    exact hlook.mono (fun _ => id) fun f t ht => ⟨ht.1, fun _ _ => trivial⟩
  call callback _ object item _ s hs :=
    ⟨hcall callback object item s hs, Item.editAll_region _ _, Item.editAll_target _ _⟩
  unlock object s hs := ⟨hI.locks (s.relocks_unlock _ _ _) hs, trivial⟩
  refuse callback item status s hs :=
    ⟨hrefuse callback item status s hs, Item.setError_region _ _, Item.setError_target _ _⟩
  count _ _ _ hact s hs := hact _ s hs

/-- One pass over a request keeps what is steady and left alone by calls and refusals, and leaves the request apt. -/
theorem Agent.pass_steady {a : Agent Obj} (hservices : a.services = Agent.standardServices) {p : Pending}
    (hp : p.request.Apt p.request.requester callable) (hI : Steady rely p.registry I)
    (hcall : ∀ callback object item s, I s → I (s.call callback p.request.requester object item).2)
    (hrefuse : ∀ callback item status s, I s → I (s.refuse callback p.request.requester item status).2) (hs : I s) :
    (a.pass p).Ensures rely I s fun out t =>
      I t ∧ ∀ r, out = some r → r.1.Apt p.request.requester fun _ => True := by
  have hany : p.request.Apt p.request.requester fun _ => True :=
    ⟨rfl, hp.kind, fun x hx => ⟨(hp.items x hx).context, fun _ _ => trivial⟩⟩
  have hbefore {act : Doing Obj (Request × Option Error)} (hact : act.Ensures rely I s fun out t =>
      I t ∧ out.1.Apt p.request.requester fun _ => True) :
      (act.before (a.expiry p.request)).Ensures rely I s fun out t =>
        I t ∧ ∀ r, out = some r → r.1.Apt p.request.requester fun _ => True := by
    have hothers : ∀ s t, I s → rely s t → I t := fun _ _ hs ht => hI.others ht hs
    refine (Activity.ensures_before hothers hact _).mono (fun _ => id) ?_
    rintro (_ | out) t ht
    · exact ⟨ht, fun r hr => by cases hr⟩
    · exact ⟨ht.1, fun r hr => Option.some.inj hr ▸ ht.2⟩
  refine hbefore ?_
  split
  · next service hservice =>
    have hmem := List.mem_of_find?_eq_some hservice
    rw [hservices] at hmem
    have hserves := List.find?_some hservice
    exact (hI.conduct a.policy hcall hrefuse).run hmem (hp.kind ▸ hserves) hany s hs
  · exact ⟨hs, hany⟩

theorem Agent.pass_apt {a : Agent Obj} (hservices : a.services = Agent.standardServices) {p : Pending}
    (hp : p.request.Apt p.request.requester callable) {r : Request} {error : Option Error} {t : State Obj}
    (hpass : (a.pass p).Yields rely s (some (r, error)) t) : r.Apt p.request.requester fun _ => True := by
  have hsteady : Steady rely p.registry fun _ : State Obj => True := ⟨fun _ => id, fun _ => id⟩
  have hpassed := Agent.pass_steady hservices hp hsteady (by simp) (by simp) (s := s) trivial
  exact ((Activity.ensures_iff.mp hpassed).2 _ _ hpass).2 _ rfl

end Passes

/-! ### What is handed over, and what is held -/

namespace State

/-- Only such answers have been handed over from one state to another. -/
def Hands (theirs : Outbound → Prop) (s t : State Obj) : Prop :=
  ∃ outs, t.sent = s.sent ++ outs ∧ ∀ out ∈ outs, theirs out

/-- A transaction holds no lock of a registry. -/
def Unheld (number : Nat) (tx : TransactionId) (s : State Obj) : Prop :=
  ∀ h ∈ (s.registry number).locks.holds, h.owner ≠ tx

variable {theirs theirs' : Outbound → Prop} {s t u : State Obj} {number : Nat} {tx : TransactionId}

theorem Hands.of_sent (h : t.sent = s.sent) : Hands theirs s t :=
  ⟨[], h.trans (List.append_nil _).symm, fun _ hout => absurd hout List.not_mem_nil⟩

theorem Hands.trans (h : Hands theirs s t) (h' : Hands theirs t u) : Hands theirs s u := by
  obtain ⟨outs, hsent, hall⟩ := h
  obtain ⟨outs', hsent', hall'⟩ := h'
  exact ⟨outs ++ outs', by rw [hsent', hsent, List.append_assoc], List.forall_mem_append.mpr ⟨hall, hall'⟩⟩

theorem Hands.mono (h : Hands theirs s t) (htheirs : ∀ out, theirs out → theirs' out) : Hands theirs' s t := by
  obtain ⟨outs, hsent, hall⟩ := h
  exact ⟨outs, hsent, fun out hout => htheirs out (hall out hout)⟩

/-- Among others that hand over only what is theirs, that is all that is handed over. -/
theorem steady_hands {rely : State Obj → State Obj → Prop} (hrely : ∀ s t, rely s t → Hands theirs s t)
    (number : Nat) (s : State Obj) : Steady rely number (Hands theirs s) where
  locks hlocks ht := ht.trans (.of_sent (State.sent_eq_of_bare hlocks.bare))
  others hothers ht := ht.trans (hrely _ _ hothers)

/-- What is not held in one registry is not changed by locks of another one. -/
theorem steady_unheld {rely : State Obj → State Obj → Prop} (hrely : ∀ s t, rely s t → Unheld number tx s →
    Unheld number tx t) {other : Nat} (hother : number ≠ other) :
    Steady rely other (Unheld number tx) where
  locks hlocks hs := by
    unfold Unheld
    rw [hlocks.rest number hother]
    exact hs
  others hothers hs := hrely _ _ hothers hs

end State

section Passes
variable [ManagedObject Obj] {a : Agent Obj} (hservices : a.services = Agent.standardServices) {p : Pending}
  {callable : ObjectId → Prop} (hp : p.request.Apt p.request.requester callable) {rely : State Obj → State Obj → Prop}
  {s₀ s t : State Obj} {out : Option (Request × Option Error)} (hpass : (a.pass p).Yields rely s out t)
include hservices hp hpass

/-- Nothing is handed over in a pass but what the others hand over. -/
theorem Agent.pass_hands {theirs : Outbound → Prop} (hrely : ∀ s t, rely s t → s.Hands theirs t)
    (hs : s₀.Hands theirs s) : s₀.Hands theirs t := by
  have hpassed := Agent.pass_steady hservices hp (State.steady_hands hrely p.registry s₀)
    (fun _ _ _ _ => id) (fun _ _ _ _ => id) hs
  exact ((Activity.ensures_iff.mp hpassed).2 _ _ hpass).1

/-- A pass takes locks of its own registry alone. -/
theorem Agent.pass_unheld {number : Nat} {tx : TransactionId}
    (hrely : ∀ s t, rely s t → s.Unheld number tx → t.Unheld number tx) (hnumber : number ≠ p.registry)
    (hs : s.Unheld number tx) : t.Unheld number tx := by
  have hpassed := Agent.pass_steady hservices hp (State.steady_unheld hrely hnumber)
    (fun _ _ _ _ => id) (fun _ _ _ _ => id) hs
  exact ((Activity.ensures_iff.mp hpassed).2 _ _ hpass).1

end Passes

/-! ### From pass to pass -/

/-- A request for a message is about to be driven among others: the message has just been taken on, or the request was
parked after a pass, and the others have done something since. -/
inductive Agent.Pursues [ManagedObject Obj] (a : Agent Obj) (rely : State Obj → State Obj → Prop) (m : Inbound)
    (mapping : Option Mapping) (s₀ : State Obj) : Pending → State Obj → Prop
  | first {p : Pending} {t : State Obj} (htake : a.takeOn m mapping s₀ = (.inr p, t)) : Pursues a rely m mapping s₀ p t
  | again {p : Pending} {r : Request} {s t u : State Obj} (before : Pursues a rely m mapping s₀ p s)
      (hpass : (a.pass p).Yields rely s (some (r, none)) t) (hopen : r.isComplete = false)
      (hrely : rely (Agent.park { p with request := r } t) u) :
      Pursues a rely m mapping s₀ (Pending.retry { p with request := r }) u

/-- What begins a request, takes one up again, and makes a pass over one, for what is to be kept. -/
structure Agent.Upholds [ManagedObject Obj] (a : Agent Obj) (ready rested : Pending → List Step → Prop) : Prop where
  start : ∀ m mapping (s : State Obj) registry, ready ⟨a.draft m mapping s, m, registry⟩ []
  retry : ∀ p h, rested p h → ready p.retry h
  pass : ∀ {p s t r callable}, p.request.Apt p.request.requester callable → r.Apt p.request.requester callable →
    ready p (s.history p.request.transaction) →
      (a.pass p).Yields (Aside p.request.transaction) s (some (r, none)) t → r.isComplete = false →
        rested { p with request := r } (t.history p.request.transaction)

section Endings
variable (p : Pending) (s : State Obj) (registry : Nat) (tx : TransactionId)

/-- To park a request changes what is outstanding, and locks of its registry. -/
theorem Agent.relocks_park : ∃ outstanding, State.Relocks p.registry { s with outstanding } (Agent.park p s) := by
  unfold Agent.park
  split
  · next outstanding _ => exact ⟨outstanding, rfl, fun _ _ => rfl⟩
  · exact ⟨s.outstanding, s.relocks_releaseLocks p.registry p.request.transaction⟩

theorem Agent.sent_park : (Agent.park p s).sent = s.sent := by
  obtain ⟨_, hparked⟩ := Agent.relocks_park p s
  have hsent := State.sent_eq_of_bare hparked.bare
  exact hsent

theorem Agent.sent_drop : (Agent.drop registry tx s).sent = s.sent := by
  have hreleased := State.sent_eq_of_bare (s.bare_releaseLocks registry tx)
  exact hreleased

end Endings

namespace Agent.Pursues

variable [ManagedObject Obj] {a : Agent Obj} {rely : State Obj → State Obj → Prop} {m : Inbound}
  {mapping : Option Mapping} {s₀ s t : State Obj} {p : Pending} {theirs : Outbound → Prop} {number : Nat}

section
variable (hservices : a.services = Agent.standardServices) (h : a.Pursues rely m mapping s₀ p s)
include hservices h

/-- A request that is pursued is the one that was made for the message. -/
theorem made : p.message = m ∧ p.request.requester = (a.draft m mapping s₀).requester ∧
    p.request.Apt p.request.requester fun _ => True := by
  induction h with
  | first htake =>
    obtain ⟨⟨registry, rfl⟩, -⟩ := takeOn_inr htake
    exact ⟨rfl, rfl, .start rfl _ _⟩
  | again before hpass hopen hrely ih =>
    obtain ⟨hmessage, hmade, hapt⟩ := ih
    have hr := Agent.pass_apt hservices hapt hpass
    have hwho := hr.requester
    exact ⟨hmessage, hwho.trans hmade, (hwho.symm ▸ hr).retry⟩

theorem transaction_eq : p.request.transaction = ⟨s₀.transactions⟩ :=
  congrArg Requester.transaction (h.made hservices).2.1

/-- What is kept when a request begins, is taken up again and has a pass, is kept from pass to pass. -/
theorem upheld {ready rested : Pending → List Step → Prop} (hU : a.Upholds ready rested)
    (hfresh : s₀.history ⟨s₀.transactions⟩ = []) (hrely : ∀ s t, rely s t → Aside ⟨s₀.transactions⟩ s t) :
    ready p (s.history ⟨s₀.transactions⟩) := by
  induction h with
  | first htake =>
    obtain ⟨⟨registry, rfl⟩, rfl⟩ := takeOn_inr htake
    have hnew : (Agent.opened s₀).history ⟨s₀.transactions⟩ = [] := hfresh
    exact hnew ▸ hU.start m mapping s₀ registry
  | @again p r s t u before hpass hopen hothers ih =>
    obtain ⟨-, -, hapt⟩ := before.made hservices
    have hr := Agent.pass_apt hservices hapt hpass
    rw [← before.transaction_eq hservices] at hrely ih ⊢
    obtain ⟨_, hparked⟩ := Agent.relocks_park { p with request := r } t
    have hhistory := State.history_eq_of_bare p.request.transaction hparked.bare
    -- Neither parking nor the others have changed the history that the pass has left.
    have hkept : u.history p.request.transaction = t.history p.request.transaction :=
      (hrely _ _ hothers).trans hhistory
    rw [hkept]
    exact hU.retry _ _ (hU.pass hapt hr ih (hpass.mono hrely) hopen)

/-- Among others that hand over only what is theirs, nothing is handed over for a request that is still pursued. -/
theorem hands (hrely : ∀ s t, rely s t → s.Hands theirs t) : s₀.Hands theirs s := by
  induction h with
  | first htake =>
    obtain ⟨-, rfl⟩ := takeOn_inr htake
    exact .of_sent rfl
  | @again p r s t u before hpass hopen hothers ih =>
    have ht := Agent.pass_hands hservices (before.made hservices).2.2 hpass hrely ih
    exact (ht.trans (.of_sent (Agent.sent_park _ t))).trans (hrely _ _ hothers)

/-- A request that is pursued takes locks of its own registry alone. -/
theorem unheld (hrely : ∀ s t, rely s t → s.Unheld number ⟨s₀.transactions⟩ → t.Unheld number ⟨s₀.transactions⟩)
    (hnumber : number ≠ p.registry) (hs₀ : s₀.Unheld number ⟨s₀.transactions⟩) :
    s.Unheld number ⟨s₀.transactions⟩ := by
  induction h with
  | first htake =>
    obtain ⟨-, rfl⟩ := takeOn_inr htake
    exact hs₀
  | @again p r s t u before hpass hopen hothers ih =>
    have ht := Agent.pass_unheld hservices (before.made hservices).2.2 hpass hrely hnumber (ih hnumber)
    obtain ⟨_, hparked⟩ := Agent.relocks_park { p with request := r } t
    exact hrely _ _ hothers ((State.steady_unheld hrely hnumber).locks hparked ht)

end

end Agent.Pursues
end Responder
