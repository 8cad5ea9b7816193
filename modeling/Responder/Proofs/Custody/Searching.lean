import Responder.Proofs.Custody.Upkeep
import Responder.Proofs.Isolation.Run
import Responder.Proofs.Next.Contention

/-! Requests that search while others hold objects. A pass over such a request serves its items one after the other,
    each in the state that those before it leave (`Next.HasTurn`). So in a registry that always locks, every item fares
    as a search does that goes on alone, and a request that is left open is parked (`searched_of_deeds`). -/

namespace Responder

variable {Obj α β : Type}

/-! ### What an activity comes to -/

namespace Progress

theorem Comes.bind {p : Progress (State Obj) α} {f : α → State Obj → Progress (State Obj) β} {a : α} {b : β}
    {t u : State Obj} (h : p.Comes a t) (hf : (f a t).Comes b u) : (p.bind f).Comes b u := by
  induction h with
  | done a s => exact hf
  | wait hends next ih => exact .wait hends (ih hf)

/-- What an activity comes to that is not given up. -/
theorem comes_of_before {p : Progress (State Obj) α} {expiry : Instant} {a : α} {t : State Obj}
    (h : (p.before expiry).Comes (some a) t) : p.Comes a t := by
  induction p with
  | done b s =>
    obtain ⟨hb, ht⟩ := comes_done.mp h
    exact comes_done.mpr ⟨Option.some.inj hb, ht⟩
  | waiting wait s resume ih =>
    rw [Progress.before] at h
    cases h with
    | @wait _ _ u _ _ wakeup _ hends next =>
      have hgone {u : State Obj} (h : wait.Ends s wakeup u) (hnext : (resume wakeup u).Comes a t) :
          (waiting wait s resume).Comes a t := .wait h hnext
      cases wakeup with
      | granted => exact hgone hends (ih _ _ next)
      | timedOut => exact hgone hends (ih _ _ next)
      | expired => cases next

end Progress

theorem Activity.Comes.bind {act : Doing Obj α} {f : α → Doing Obj β} {a : α} {b : β} {s t u : State Obj}
    (h : act.Comes s a t) (hf : (f a).Comes t b u) : (act >>= f).Comes s b u := Progress.Comes.bind h hf

namespace Next

open Activity (comes_bind comes_pure)

variable {serve : Item → Doing Obj (Item × Option Error)} {x y : Item} {items done : List Item} {s t u v : State Obj}
  {error : Option Error}

/-- An item has its turn in a state, after those before it have been served. -/
def HasTurn (serve : Item → Doing Obj (Item × Option Error)) (items : List Item) (i : Nat) (s t : State Obj) : Prop :=
  ∃ done, (serveOpen serve (items.take i)).Comes s (done, none) t

theorem hasTurn_zero : HasTurn serve items 0 s s := ⟨[], comes_pure.mpr ⟨rfl, rfl⟩⟩

theorem HasTurn.succ {i : Nat} (h : HasTurn serve items i s t) (hx : x.complete = true) :
    HasTurn serve (x :: items) (i + 1) s t := by
  obtain ⟨done, hdone⟩ := h
  refine ⟨x :: done, ?_⟩
  rw [List.take_succ_cons, serveOpen, if_pos hx]
  exact hdone.bind (comes_pure.mpr ⟨rfl, rfl⟩)

theorem HasTurn.after {i : Nat} (h : HasTurn serve items i t u) (hx : x.complete = false)
    (hserve : (serve x).Comes s (y, none) t) : HasTurn serve (x :: items) (i + 1) s u := by
  obtain ⟨done, hdone⟩ := h
  refine ⟨y :: done, ?_⟩
  rw [List.take_succ_cons, serveOpen, if_neg (by simp [hx])]
  refine hserve.bind ?_
  exact hdone.bind (comes_pure.mpr ⟨rfl, rfl⟩)

/-- Every open item has its turn, unless one before it has ended in an error. -/
theorem turn_of_serveOpen : ∀ {items : List Item} {s : State Obj} {out : List Item × Option Error},
    (serveOpen serve items).Comes s out u → ∀ {i : Nat} {x : Item}, items[i]? = some x → x.complete = false →
      ∃ y, out.1[i]? = some y ∧ ((out.2 ≠ none ∧ y = x) ∨
        ∃ t error v, HasTurn serve items i s t ∧ (serve x).Comes t (y, error) v)
  | [], _, _, _, i, x, hx, _ => by simp at hx
  | x₀ :: rest, s, out, h, i, x, hx, hopen => by
    rw [serveOpen] at h
    by_cases hx₀ : x₀.complete = true
    · rw [if_pos hx₀] at h
      obtain ⟨⟨rest', error⟩, t, hrest, hlast⟩ := comes_bind h
      obtain ⟨rfl, rfl⟩ := comes_pure.mp hlast
      cases i with
      | zero =>
        obtain rfl := Option.some.inj hx
        cases hx₀.symm.trans hopen
      | succ i =>
        obtain ⟨y, hy, hturn⟩ := turn_of_serveOpen hrest hx hopen
        refine ⟨y, hy, hturn.imp_right ?_⟩
        rintro ⟨t, error, v, hturn, hserve⟩
        exact ⟨t, error, v, hturn.succ hx₀, hserve⟩
    · rw [if_neg hx₀] at h
      obtain ⟨⟨y₀, error⟩, t, hserve, hlast⟩ := comes_bind h
      cases i with
      | zero =>
        obtain rfl := Option.some.inj hx
        have hfirst : out.1[0]? = some y₀ := by
          cases error with
          | some error => exact congrArg (fun out : List Item × Option Error => out.1[0]?) (comes_pure.mp hlast).1
          | none =>
            obtain ⟨⟨rest', error⟩, v, hrest, hend⟩ := comes_bind hlast
            exact congrArg (fun out : List Item × Option Error => out.1[0]?) (comes_pure.mp hend).1
        exact ⟨y₀, hfirst, Or.inr ⟨s, error, t, hasTurn_zero, hserve⟩⟩
      | succ i =>
        cases error with
        | some error =>
          obtain ⟨rfl, rfl⟩ := comes_pure.mp hlast
          exact ⟨x, hx, Or.inl ⟨by simp, rfl⟩⟩
        | none =>
          obtain ⟨⟨rest', error⟩, v, hrest, hend⟩ := comes_bind hlast
          obtain ⟨rfl, rfl⟩ := comes_pure.mp hend
          obtain ⟨y, hy, hturn⟩ := turn_of_serveOpen hrest hx hopen
          refine ⟨y, hy, hturn.imp_right ?_⟩
          rintro ⟨w, error, w', hturn, hlater⟩
          exact ⟨w, error, w', hturn.after (by simpa using hx₀) hserve, hlater⟩

end Next

/-! ### Requests -/

/-- A request that searches has no error as a whole. -/
def Pending.Unspoilt (p : Pending) (_ : List Step) : Prop := p.request.pdu.kind = .getNext → p.request.status = .noError

variable [ManagedObject Obj] {a : Agent Obj} {entries : Nat → List Entry} {s₀ s t u v : State Obj} {hs : List Happening}
  {hands : List Pending} {p : Pending} {r : Request} {x y : Item} {error : Option Error}

namespace Pending

/-- The search for an item of a request. -/
abbrev search (a : Agent Obj) (p : Pending) : Item → Doing Obj (Item × Option Error) :=
  Next.search a.policy p.registry p.request.requester

/-- What a pass over a request that searches makes of it. Each open item fares as it does in the state in which it has
its turn, unless one before it has ended in an error. If none has, and an item is left open, the request is parked. -/
structure Searched (a : Agent Obj) (p : Pending) (s : State Obj) (r : Request) (error : Option Error) (t : State Obj) :
    Prop where
  items : ∀ i x, p.request.begin.items[i]? = some x → x.complete = false → ∃ y, r.items[i]? = some y ∧
    ((error ≠ none ∧ y = x) ∨ ∃ u, Next.HasTurn (p.search a) p.request.begin.items i s u ∧
      Next.Fares a.policy p.registry p.request.requester u x y)
  parked : error = none → ∀ y ∈ r.items, y.complete = false →
    ∃ z ∈ (a.conclude p (some (r, error)) t).2.outstanding.entries, z.id = p.request.transaction ∧
      z.parked = some { p with request := r }

end Pending

section Services
variable (hservices : a.services = Agent.standardServices)
include hservices

/-- A pass over a request that searches serves its items. -/
theorem served_of_search (hkind : p.request.pdu.kind = .getNext) (hpass : (a.pass p).Comes s (some (r, error)) t) :
    ∃ items, (serveOpen (p.search a) p.request.begin.items).Comes s (items, error) t ∧
      r = { p.request.begin with items } := by
  have hservice : a.serviceFor? p.request.pdu.kind = some Next.service := by
    rw [Agent.serviceFor?, hservices, hkind]
    rfl
  rw [Agent.pass, hservice] at hpass
  obtain ⟨⟨items, error⟩, u, hserved, hlast⟩ := Activity.comes_bind (Progress.comes_of_before hpass)
  obtain ⟨hout, rfl⟩ := Activity.comes_pure.mp hlast
  obtain ⟨rfl, rfl⟩ := Prod.mk.inj hout
  rw [p.request.begin_same.1] at hserved
  exact ⟨items, hserved, rfl⟩

/-- A pass over a request that searches leaves its status alone, whatever the others do. -/
theorem status_of_search {rely : State Obj → State Obj → Prop} (hkind : p.request.pdu.kind = .getNext)
    (hpass : (a.pass p).Yields rely s (some (r, error)) t) : r.status = p.request.status := by
  have hservice : a.serviceFor? p.request.pdu.kind = some Next.service := by
    rw [Agent.serviceFor?, hservices, hkind]
    rfl
  have hrun : (Next.run a.policy p.registry p.request).Ensures rely (fun _ => True) s fun out _ =>
      out.1.status = p.request.status := by
    rw [Next.run, Activity.ensures_bind]
    exact (Activity.ensures_self _ _ _).mono (fun _ _ => trivial) fun _ _ _ => p.request.begin_same.2.1
  rw [Agent.pass, hservice] at hpass
  exact hrun.of_yields_before hpass

theorem upholds_unspoilt : a.Upholds Pending.Unspoilt Pending.Unspoilt where
  start _ _ _ _ _ := rfl
  retry _ _ hp := hp
  pass {p s t r callable} hp hr hready hpass _ hkind := by
    have hbefore : p.request.pdu.kind = .getNext := hp.kind.trans (hr.kind.symm.trans hkind)
    exact (status_of_search hservices hbefore hpass).trans (hready hbefore)

/-- A request that searches and is left open is parked. -/
theorem Settled.parked_of_search (h : Settled entries s (p :: hands)) (hkind : p.request.pdu.kind = .getNext)
    (hstatus : p.request.status = .noError) (hpass : (a.pass p).Comes s (some (r, none)) t) (hy : y ∈ r.items)
    (hopen : y.complete = false) : ∃ z ∈ (a.conclude p (some (r, none)) t).2.outstanding.entries,
      z.id = p.request.transaction ∧ z.parked = some { p with request := r } := by
  obtain ⟨-, hsettled, hapt, -⟩ := h.drive hservices hpass
  have hid : r.transaction = p.request.transaction := congrArg Requester.transaction (hapt _ rfl).requester
  obtain ⟨items, -, hr⟩ := served_of_search hservices hkind hpass
  have hleft : r.isComplete = false := by
    have hnone : r.status.isError = false := by
      rw [hr, show ({ p.request.begin with items } : Request).status = p.request.begin.status from rfl,
        p.request.begin_same.2.1, hstatus]
      rfl
    have hsome : r.items.all Item.complete = false := List.all_eq_false.mpr ⟨y, hy, by simp [hopen]⟩
    simp [Request.isComplete, Request.isPhaseComplete, hnone, hsome]
  have hparked : (a.conclude p (some (r, none)) t).2 = Agent.park { p with request := r } t := by
    simp only [Agent.conclude, hleft, Bool.false_eq_true, if_false]
  obtain ⟨z, hz, hzid, -⟩ := hsettled.listed p List.mem_cons_self
  rw [hparked]
  exact ⟨_, (hsettled.mem_park hid).mpr (Or.inr ⟨z, hz, hzid, rfl⟩), hzid, rfl⟩

omit hservices in
/-- An item that has its turn while others may hold objects of a registry that always locks. -/
theorem Settled.fares (h : Settled entries s (p :: hands)) (hordered : Registry.Ordered (entries p.registry))
    (hlocking : (s.registry p.registry).locking = .always) (hkind : p.request.pdu.kind = .getNext) {i : Nat}
    (hturn : Next.HasTurn (p.search a) p.request.begin.items i s u) (hopen : x.complete = false)
    (hserve : (p.search a x).Comes u (y, error) v) : Next.Fares a.policy p.registry p.request.requester u x y := by
  have hp := h.apt p (Or.inl List.mem_cons_self)
  have hnext : Callback.next ∈ p.request.requester.kind.callbacks := by
    rw [← hp.kind, hkind]
    exact List.mem_singleton_self _
  have hfits : ∀ x ∈ p.request.begin.items.take i, x.Fits p.request.requester (Registers entries p.registry) :=
    fun x hx => hp.begin.items x (List.mem_of_mem_take hx)
  obtain ⟨done, hdone⟩ := hturn
  obtain ⟨htouches, -⟩ := ((Touches.conduct a.policy).serveOpen
    ((Touches.conduct a.policy).next_search hnext) _ hfits s h.tidy).of_comes hdone
  have hentries : (u.registry p.registry).entries = entries p.registry := (htouches.tidy h.tidy).entries p.registry
  have hfares : (p.search a x).Alone (fun _ => True) u fun out _ =>
      Next.Fares a.policy p.registry p.request.requester u x out.1 := Next.fares_of_alone htouches.mine.sound
    (hentries.symm ▸ hordered) ((htouches.locking p.registry).trans hlocking) hopen
  exact hfares.of_comes hserve

/-- Searches among locks. Whatever happens to an agent with the standard services and without tasks in the background,
if nobody else takes locks, whatever the objects do: it can be told, and wherever a request that searches has a pass in
a registry that always locks, which is neither given up nor ended by an error that is passed on, each open item fares
as follows in the state in which it has its turn. If it is completed and does not ask to be served again, it is what
the same search comes to without the objects that other transactions hold, and without any lock; and it is what the
same search comes to without any lock, unless that search calls an object that another transaction holds. If no object
apart from those has anything for it, and one of those is registered for what is left of its region, it is put off and
left open; and a request with an item that is left open is parked. -/
theorem searched_of_deeds (hinline : a.settings.maxConcurrent = 0) {s : Schedule Obj} (hidle : s.Idle)
    (hvacant : s.state.Vacant) (hjournal : s.state.journal = []) (hbuilt : ∀ r ∈ s.state.registries, r.Built)
    {deeds : List Deed} (hdeeds : ∀ registry locks, Deed.relock registry locks ∉ deeds) :
    (∃ enough hs t, Chronicle a s.state hs t [] ∧ ∀ turns ≥ enough, (a.performAll turns deeds s).state = t) ∧
    ∀ hs t p hands, Chronicle a s.state hs t (p :: hands) → p.request.pdu.kind = .getNext →
      (t.registry p.registry).locking = .always → ∀ r error u, (a.pass p).Comes t (some (r, error)) u →
        p.Searched a t r error u := by
  refine ⟨chronicle_of_deeds hinline deeds hidle .start hdeeds, ?_⟩
  intro hs t p hands hstory hkind hlocking r error u hpass
  have hsettled := hstory.settled hservices (.of_vacant hvacant)
  have hupkeep := Upkeep.of_chronicle hservices (upholds_unspoilt hservices) (.of_vacant hvacant)
    (.of_vacant hvacant hjournal) hstory
  have hstatus : p.request.status = .noError := hupkeep.ready p List.mem_cons_self hkind
  refine ⟨fun i x hx hopen => ?_, fun hnone y hy hleft => ?_⟩
  · obtain ⟨items, hserved, rfl⟩ := served_of_search hservices hkind hpass
    obtain ⟨y, hy, hturn⟩ := Next.turn_of_serveOpen hserved hx hopen
    refine ⟨y, hy, hturn.imp_right ?_⟩
    rintro ⟨v, error, w, hturn, hserve⟩
    have hordered := State.ordered_registry hbuilt p.registry
    exact ⟨v, hturn, hsettled.fares hordered hlocking hkind hturn hopen hserve⟩
  · subst hnone
    exact hsettled.parked_of_search hservices hkind hstatus hpass hy hleft

end Services

/-! ### A strongroom -/

/-- The objects of the vault and an alcove, where whatever is looked at is locked. -/
def strongroom (calls : List Registry.Call) : Schedule Instrument where
  state := { vault with
    objects := fun id => if id = ⟨2⟩ then .table ⟨⟨[1, 3, 3]⟩, .existing, ⟨[(⟨[1, 3, 3, 1]⟩, .integer 3)]⟩⟩
      else vault.objects id
    registries := [Registry.performAll { locking := .always } calls] }
  limit := 100

def strongboxes : List Registry.Call := [
  .register ⟨0⟩ (vaultRegion ⟨0⟩) none, .register ⟨1⟩ (vaultRegion ⟨1⟩) none]

/-- What stands behind the boxes. -/
def alcove : Registry.Call := .register ⟨2⟩ (.subtree ⟨[1, 3, 3]⟩) none

/-- Somebody asks for what is there. -/
def browse : Inbound := .ofCommunity .v2c [99] ⟨.v4 192 0 2 10, 50161, 0⟩ (.asking .getNext 2 [⟨[1, 3]⟩])

def clerk : Agent Instrument := { Agent.plain with settings := { maxConcurrent := 0 } }

/-- A request that writes is parked with both boxes, and one that searches is parked behind it. -/
theorem searched_of_browse :
    let room := strongroom strongboxes
    let deeds := [.submit deposit, .submit browse]
    ((clerk.performAll 100 deeds room).state.outstanding.entries.map fun x => (x.id.number, x.parked.isSome)) =
      [(0, true), (1, true)] ∧
    (∃ enough hs t, Chronicle clerk room.state hs t [] ∧
      ∀ turns ≥ enough, (clerk.performAll turns deeds room).state = t) ∧
    ∀ hs t p hands, Chronicle clerk room.state hs t (p :: hands) → p.request.pdu.kind = .getNext →
      (t.registry p.registry).locking = .always → ∀ r error u, (clerk.pass p).Comes t (some (r, error)) u →
        p.Searched clerk t r error u := by
  intro room deeds
  have hvacant : room.state.Vacant := ⟨rfl, fun r hr => List.mem_singleton.mp hr ▸ rfl⟩
  have hbuilt : ∀ r ∈ room.state.registries, r.Built := fun r hr => ⟨_, _, _, strongboxes, List.mem_singleton.mp hr⟩
  exact ⟨by decide +kernel, searched_of_deeds rfl rfl ⟨rfl, rfl, rfl⟩ hvacant rfl hbuilt (by simp [deeds])⟩

/-- While a request that writes is parked with both boxes, a search is answered with what stands behind them. Without
the locks the answer would be another one. -/
theorem passed_over_of_browse :
    let held := (clerk.submit 100 deposit (strongroom (strongboxes ++ [alcove]))).2
    held.state.outstanding.entries.map (fun x => x.parked.isSome) = [true] ∧
    (clerk.submit 100 browse held).2.state.sent.map (fun m => m.pdu.bindings) = [[⟨⟨[1, 3, 3, 1]⟩, .integer 3⟩]] ∧
    (clerk.submit 100 browse { held with state := held.state.unlocked 0 }).2.state.sent.map (fun m => m.pdu.bindings) =
      [[⟨⟨[1, 3, 1, 1]⟩, .integer 1⟩]] := by
  decide +kernel

end Responder
