import Responder.Proofs.Next.Successor

/-! Reading variables. What a request reads of a variable has to do with that variable alone: with the view, with the
    one entry that the context sees there, and with what its object holds (`Tells`). So each binding of the answer
    says what there is to be told of the variable it names, and nothing has changed by then but locks
    (`readings_of_admits`). -/

namespace Responder.Get

open Registry

variable {Obj : Type} [ManagedObject Obj] [Store.Among Obj] {s t u : State Obj} {number : Nat} {who : Requester}
  {p : Policy} {stores : ObjectId → Store} {allows : Oid → Bool} {entries : List Entry} {c : ContextName}
  {rely : State Obj → State Obj → Prop} {a : Binding} {x : Item}

/-- What there is to be told of a variable. -/
structure Tells (allows : Oid → Bool) (entries : List Entry) (c : ContextName) (stores : ObjectId → Store) (o : Oid)
    (v : Value) : Prop where
  missing : (allows o = false ∨ ∀ e ∈ entries, ¬(e.region.seenIn c = true ∧ e.region.contains o = true)) →
    v = .noSuchObject
  held : allows o = true → ∀ e ∈ entries, e.region.seenIn c = true → e.region.contains o = true →
    v = ((stores e.object).value? o).getD .noSuchInstance

/-- What is told of a variable, by the entry that the context sees there. -/
def reading (allows : Oid → Bool) (entries : List Entry) (c : ContextName) (stores : ObjectId → Store) (o : Oid) :
    Value :=
  match if allows o then seenAt? entries c o else none with
  | none => .noSuchObject
  | some e => ((stores e.object).value? o).getD .noSuchInstance

theorem tells_reading (h : Ordered entries) (o : Oid) :
    Tells allows entries c stores o (reading allows entries c stores o) where
  missing hmissing := by
    have hnone : (if allows o then seenAt? entries c o else none) = none := by
      rcases hmissing with hallows | hunseen
      · rw [hallows, if_neg Bool.false_ne_true]
      · have hnowhere : seenAt? entries c o = none :=
          List.find?_eq_none.mpr fun e he => Bool.and_eq_true _ _ ▸ hunseen e he
        rw [hnowhere, ite_self]
    rw [reading, hnone]
  held hallows e he hc ho := by
    rw [reading, if_pos hallows, h.seenAt?_eq_some_iff.mpr ⟨he, hc, ho⟩]

/-- Nothing has changed that a reading has to do with. -/
structure Kept (number : Nat) (owner : TransactionId) (s t : State Obj) : Prop where
  objects : t.objects = s.objects
  entries : (t.registry number).entries = (s.registry number).entries
  owned : (t.registry number).locks.OwnedBy owner
  sent : t.sent = s.sent

omit [ManagedObject Obj] [Store.Among Obj] in
theorem Kept.of_bare {owner : TransactionId} (h : Kept number owner s t) (hbare : u.bare = t.bare)
    (howned : (u.registry number).locks.OwnedBy owner) : Kept number owner s u where
  objects := (State.objects_eq_of_bare hbare).trans h.objects
  entries := (State.entries_eq_of_bare hbare number).trans h.entries
  owned := howned
  sent := (State.sent_eq_of_bare hbare).trans h.sent

/-- Reading from a store leaves it as it is. -/
theorem Kept.call {owner : TransactionId} (h : Kept number owner s t) {id : ObjectId} {b : Store}
    (hb : s.objects id = Store.Among.put b) (who : Requester) (x : Item) :
    (t.call .get who id x).1 = (x.setValue ((b.value? x.oid).getD .noSuchInstance), .ok true) ∧
      Kept number owner s (t.call .get who id x).2 := by
  obtain ⟨hout, hobject⟩ := State.call_put ((congrFun h.objects id).trans hb) .get who x
  rw [Store.call_get] at hout hobject
  refine ⟨hout, ⟨funext fun other => ?_, h.entries, h.owned, h.sent⟩⟩
  by_cases hother : other = id
  · rw [hother, hobject, hb]
  · rw [← h.objects]
    exact if_neg hother

/-- The item of a binding before it is served. -/
structure Asked (c : ContextName) (a : Binding) (x : Item) : Prop where
  oid : x.oid = a.oid
  region : x.region = (Region.point a.oid).inContext (some c)
  fresh : x.complete = false
  rested : x.deferred = false
  clear : x.hasError = false

/-- The item of a binding after it was served. -/
structure Answered (value : Oid → Value) (a : Binding) (x : Item) : Prop where
  binding : x.binding = ⟨a.oid, value a.oid⟩
  closed : x.complete = true
  clear : x.hasError = false

theorem Asked.answered {value : Oid → Value} (h : Asked c a x) : Answered value a (x.setValue (value a.oid)).finish :=
  ⟨congrArg (Binding.mk · _) h.oid, rfl, h.clear⟩

/-- One item is read, and nothing changes but locks. -/
theorem Kept.serve (h : Kept number who.transaction s t) (hordered : Ordered (s.registry number).entries)
    (hstores : ∀ e ∈ (s.registry number).entries, s.objects e.object = Store.Among.put (stores e.object))
    (hversion : who.version ≠ .v1) (hx : Asked who.context a x) :
    (serve p number who x).Ensures rely (fun _ => False) t fun out u => Kept number who.transaction s u ∧ out.2 = none ∧
      Answered (reading (p.allows who) (s.registry number).entries who.context stores) a out.1 := by
  have hfree : Lookup.Free ⟨number, p.query who x.region false, some (p.terms who)⟩ t :=
    Lookup.free_of_ownedBy rfl h.owned
  simp only [Get.serve, Policy.lookUp, Activity.ensures_bind]
  refine (Lookup.run_free p.patience hfree).mono (fun _ => id) ?_
  intro f u hplain
  have hu : Kept number who.transaction s u := h.of_bare hplain.bare (hplain.ownedBy rfl h.owned)
  have hentry : f.entry = if p.allows who a.oid = true then seenAt? (s.registry number).entries who.context a.oid
      else none := by
    rw [hplain.entry, find?_candidates_point (h.entries ▸ hordered) t.objects hx.region, Policy.allows_query, h.entries]
  cases hfound : f.entry with
  | none =>
    have hvalue : reading (p.allows who) (s.registry number).entries who.context stores a.oid = .noSuchObject := by
      rw [reading, ← hentry, hfound]
    simp only [hplain.lock, if_false, Activity.ensures_pure]
    exact ⟨hu, trivial, hvalue ▸ hx.answered⟩
  | some e =>
    have hvalue : reading (p.allows who) (s.registry number).entries who.context stores a.oid =
        ((stores e.object).value? a.oid).getD .noSuchInstance := by
      rw [reading, ← hentry, hfound]
    have he : e ∈ (s.registry number).entries := by
      have hseen := Option.ite_none_right_eq_some.mp (hentry.symm.trans hfound)
      exact List.mem_of_find?_eq_some hseen.2
    obtain ⟨hcalled, hkept⟩ := hu.call (hstores e he) who x
    simp only [callObject, Activity.ensures_bind, Activity.ensures_modifyGet, hcalled]
    refine (f.release_ensures number who e.object _).mono (fun _ => id) ?_
    rintro ⟨⟩ v ⟨hbare, howned⟩
    have hrested : (x.setValue ((stores e.object).value? x.oid |>.getD .noSuchInstance)).deferred = false := hx.rested
    simp only [Activity.ensures_pure, conclude_eq hversion, hrested, Bool.false_eq_true, if_false]
    refine ⟨hkept.of_bare hbare (howned hkept.owned), trivial, ?_⟩
    rw [hx.oid, ← hvalue]
    exact hx.answered

/-- Reading, as an agent answers it where nobody else holds a lock: each binding of the response names the variable
that was asked for, with what there is to be told of it. There is no error, and no object has changed. -/
theorem readings_of_admits {ag : Agent Obj} {m₀ m : Inbound} (hadmits : ag.Admits s m₀ m who number)
    (hservice : ag.serviceFor? .get = some service) (hkind : m.pdu.kind = .get) (hversion : m.version ≠ .v1)
    (houtlet : ag.outlet = .open)
    (hreachable : (s.registry number).Reachable fun id => ManagedObject.region (stores id))
    (hstores : ∀ e ∈ (s.registry number).entries, s.objects e.object = Store.Among.put (stores e.object))
    (hlocks : (s.registry number).locks.OwnedBy who.transaction) :
    ∃ value : Oid → Value,
      (∀ o, Tells (ag.policy.allows who) (s.registry number).entries who.context stores o (value o)) ∧
      ((Pdu.mk .response m.pdu.requestId 0 0 (m.pdu.bindings.map fun b => ⟨b.oid, value b.oid⟩)).size ≤ m.maxSize →
        ∃ t, ag.process m₀ s = .done (.ok ()) t ∧ t.objects = s.objects ∧ t.sent = s.sent ++ [Outbound.replyTo m
          ⟨.response, m.pdu.requestId, 0, 0, m.pdu.bindings.map fun b => ⟨b.oid, value b.oid⟩⟩]) := by
  have hordered := hreachable.ordered.1
  have hs : Kept number who.transaction s (Agent.opened s) := ⟨rfl, rfl, hlocks, rfl⟩
  refine ⟨reading (ag.policy.allows who) (s.registry number).entries who.context stores, tells_reading hordered, ?_⟩
  intro hsize
  have hasked (index : Nat) (a : Binding) : Asked who.context a
      (Item.restart { index, binding := a, region := Request.regionOf m.pdu who.context a.oid }) :=
    ⟨rfl, regionOf_point (by simp [hkind, Pdu.Kind.isSearch]) a.oid, rfl, rfl, rfl⟩
  have hserve (a : Binding) (x : Item) (t : State Obj) (hx : Asked who.context a x)
      (ht : Kept number who.transaction s t) :
      (serve ag.policy number who x).Ensures (fun _ _ => False) (fun _ => False) t fun out u =>
        Kept number who.transaction s u ∧ out.2 = none ∧
          Answered (reading (ag.policy.allows who) (s.registry number).entries who.context stores) a out.1 :=
    ht.serve hordered hstores (hadmits.version ▸ hversion) hx
  obtain ⟨items, t, hdone, ht, hall, hc, hresponse⟩ := exists_read (Or.inl hkind) hasked (fun a x hx => hx.fresh)
    hserve (fun a x hx => ⟨hx.closed, hx.clear⟩) hs m.maxSize s.now
  have hbindings : items.map Item.binding = m.pdu.bindings.map fun b =>
      ⟨b.oid, reading (ag.policy.allows who) (s.registry number).entries who.context stores b.oid⟩ := by
    refine (List.forall₂_eq_eq_eq ▸ List.forall₂_map_left_iff.mpr (List.forall₂_map_right_iff.mpr ?_) : _ = _).symm
    exact hall.imp fun a x hx => hx.binding.symm
  rw [hbindings] at hresponse
  have hrun : run ag.policy number (.start who m.pdu m.maxSize s.now) (Agent.opened s) =
      .done ({ (Request.start who m.pdu m.maxSize s.now).begin with items }, none) t := by
    rw [run, (Request.begin_same _).1]
    exact Activity.bind_of_done hdone
  obtain ⟨u, hprocess, hsent, hobjects⟩ :=
    Agent.process_of_done hadmits (hkind ▸ hservice) hversion houtlet hrun hc hresponse hsize
  exact ⟨u, hprocess, hobjects.trans ht.objects, ht.sent ▸ hsent⟩

/-- Everybody may read the objects of the library, but not the variable of the last one. -/
def curtain : Vacm.Tables where
  groups := [((.v2c, []), [103])]
  rows := [{ group := [103], readView := [118] }]
  views := [([118], ⟨[⟨⟨[1]⟩, [], true⟩, ⟨⟨[2]⟩, [], true⟩, ⟨⟨[3]⟩, [], true⟩, ⟨⟨[3, 1]⟩, [], false⟩]⟩)]

def curtained : Agent Instrument := { Agent.plain with access := some curtain }

/-- The scalar, something beside it, a variable of another context, one that is hidden, and one that is not there. -/
def perusing : Pdu := .asking .get 1 [⟨[1, 0]⟩, ⟨[1, 1]⟩, ⟨[2, 1]⟩, ⟨[3, 1]⟩, ⟨[3, 2]⟩]

/-- Somebody who is given the view. -/
def reader : Requester := { Next.browser with kind := .get, view := some [118] }

theorem readings_of_perusing : ∃ t,
    curtained.process (.ofCommunity .v2c [] reader.peer perusing) Next.library = .done (.ok ()) t ∧
      t.objects = Next.library.objects ∧
      t.sent = [Outbound.replyTo (.ofCommunity .v2c [] reader.peer perusing) ⟨.response, 1, 0, 0,
        [⟨⟨[1, 0]⟩, .integer 7⟩, ⟨⟨[1, 1]⟩, .noSuchInstance⟩, ⟨⟨[2, 1]⟩, .noSuchObject⟩, ⟨⟨[3, 1]⟩, .noSuchObject⟩,
          ⟨⟨[3, 2]⟩, .noSuchInstance⟩]⟩] := by
  have hadmits : curtained.Admits Next.library (.ofCommunity .v2c [] reader.peer perusing)
      (.ofCommunity .v2c [] reader.peer perusing) reader 0 := ⟨⟨none, rfl, rfl⟩, rfl, rfl⟩
  obtain ⟨value, htells, hanswer⟩ := readings_of_admits hadmits rfl rfl (by decide) rfl Next.library_reachable
    (fun e _ => rfl) (fun h hh => nomatch hh)
  have hscalar : value ⟨[1, 0]⟩ = .integer 7 :=
    (htells _).held rfl ⟨.subtree ⟨[1]⟩, ⟨0⟩⟩ List.mem_cons_self rfl rfl
  have hbeside : value ⟨[1, 1]⟩ = .noSuchInstance :=
    (htells _).held rfl ⟨.subtree ⟨[1]⟩, ⟨0⟩⟩ List.mem_cons_self rfl rfl
  have hforeign : value ⟨[2, 1]⟩ = .noSuchObject := (htells _).missing (Or.inr (by decide +kernel))
  have hhidden : value ⟨[3, 1]⟩ = .noSuchObject := (htells _).missing (Or.inl rfl)
  have habsent : value ⟨[3, 2]⟩ = .noSuchInstance :=
    (htells _).held rfl ⟨.subtree ⟨[3]⟩, ⟨2⟩⟩ (by decide +kernel) rfl rfl
  have hbindings : perusing.bindings.map (fun b => (⟨b.oid, value b.oid⟩ : Binding)) =
      [⟨⟨[1, 0]⟩, .integer 7⟩, ⟨⟨[1, 1]⟩, .noSuchInstance⟩, ⟨⟨[2, 1]⟩, .noSuchObject⟩, ⟨⟨[3, 1]⟩, .noSuchObject⟩,
        ⟨⟨[3, 2]⟩, .noSuchInstance⟩] := by
    simp [perusing, Pdu.asking, Binding.unset, hscalar, hbeside, hforeign, hhidden, habsent]
  obtain ⟨t, hprocess, hobjects, hsent⟩ := hanswer (hbindings ▸ by decide +kernel)
  exact ⟨t, hprocess, hobjects, hbindings ▸ hsent⟩

end Responder.Get
