import Responder.Proofs.Next.Successor

/-! Searching under a view. Of each object that the context sees, a search looks at one variable only, the first
    one past the identifier, and passes the object over whole where the view does not allow that one. So the answer is
    the first variable on offer (`discloses_of_admits`). That is the first variable in the view if the view takes each
    object as a whole (`followsWithin_of_discloses`); where it does not, it can be another one
    (`not_followsWithin_of_screened`). -/

namespace Responder.Next

namespace Survey
variable {Obj : Type}

/-- What there is to be searched in a state whose objects are stores. -/
def ofStores [ManagedObject Obj] [Store.Among Obj] (registry : Nat) (context : ContextName) (before : State Obj)
    (stores : ObjectId → Store) : Survey Obj :=
  ⟨registry, context, before, fun id x => x = Store.Among.put (stores id), fun id => (stores id).value?⟩

/-- The first variable past an identifier that the context sees and the view allows, with its value. The view ends just
if there is none. -/
structure FollowsWithin (V : Survey Obj) (allows : Oid → Bool) (o : Oid) (x : Binding) : Prop where
  first : (∃ y, V.Sees y ∧ allows y.oid = true ∧ o < y.oid) → (V.Sees x ∧ allows x.oid = true ∧ o < x.oid) ∧
    ∀ y, V.Sees y → allows y.oid = true → o < y.oid → x.oid ≤ y.oid
  nothing : x = ⟨o, .endOfMibView⟩ ↔ ∀ y, V.Sees y → allows y.oid = true → ¬o < y.oid

variable [ManagedObject Obj] {V : Survey Obj} {s : State Obj} {allows : Oid → Bool} {o : Oid} {x : Binding}

/-- A view that allows either all that an object has past the identifier or nothing of it hides nothing that it
allows. -/
theorem Shows.followsWithin_of_discloses (hs : V.Shows s) (hV : V.Sound)
    (hwhole : ∀ e ∈ V.entries, e.region.seenIn V.context = true → ∀ y z, (V.value? e.object y).isSome = true →
      (V.value? e.object z).isSome = true → o < y → o < z → allows y = allows z)
    (h : V.Discloses allows o x) : V.FollowsWithin allows o x := by
  have hoffer (y : Binding) (hy : V.Sees y) (hallows : allows y.oid = true) (hlt : o < y.oid) :
      ∃ z, V.Offers allows o z ∧ z.oid ≤ y.oid := by
    obtain ⟨e, he, hc, hvalue⟩ := hy
    have hpresent : (V.value? e.object y.oid).isSome = true := Option.isSome_iff_exists.mpr ⟨_, hvalue⟩
    obtain ⟨z, v, hv, hfirst⟩ := hs.exists_first hV he hpresent hlt
    have hz : allows z = true :=
      (hwhole e he hc z y.oid hfirst.present hpresent (Range.contains_after.mp hfirst.inside) hlt).trans hallows
    exact ⟨⟨z, v⟩, ⟨e, he, hc, hv, hfirst, hz⟩, hfirst.least y.oid hpresent (Range.contains_after.mpr hlt)⟩
  refine ⟨?_, ?_⟩
  · rintro ⟨y, hy, hallows, hlt⟩
    obtain ⟨z, hz, -⟩ := hoffer y hy hallows hlt
    obtain ⟨hx, hleast⟩ := h.first ⟨z, hz⟩
    refine ⟨⟨hx.sees, hx.allowed, hx.lt⟩, fun y hy hallows hlt => ?_⟩
    obtain ⟨z, hz, hle⟩ := hoffer y hy hallows hlt
    exact (hleast z hz).trans hle
  · refine h.nothing.trans ⟨fun hnone y hy hallows hlt => ?_, fun hnone y hy => ?_⟩
    · obtain ⟨z, hz, -⟩ := hoffer y hy hallows hlt
      exact hnone z hz
    · exact hnone y hy.sees hy.allowed hy.lt

theorem Sound.eq_of_discloses (hV : V.Sound) {y : Binding} (hx : V.Discloses allows o x) (hy : V.Discloses allows o y) :
    x = y := by
  by_cases hsome : ∃ z, V.Offers allows o z
  · obtain ⟨hx, hxleast⟩ := hx.first hsome
    obtain ⟨hy, hyleast⟩ := hy.first hsome
    exact hV.eq_of_sees hx.sees hy.sees (le_antisymm (hxleast y hy) (hyleast x hx))
  · rw [not_exists] at hsome
    rw [hx.nothing.mpr hsome, hy.nothing.mpr hsome]

end Survey

/-- Searching, as an agent answers it under a view, where reading takes no locks: each binding of the response is the
first of the variables that the objects seen in the context have on offer past the one that is asked for, with its
value, and the end of the view just if none of them has any. -/
theorem discloses_of_admits {Obj : Type} [ManagedObject Obj] [Store.Among Obj] {a : Agent Obj} {s : State Obj}
    {m₀ m : Inbound} {who : Requester} {registry : Nat} {tables : Vacm.Tables} {name : Octets}
    {stores : ObjectId → Store} (hadmits : a.Admits s m₀ m who registry) (haccess : a.access = some tables)
    (hview : who.view = some name) (hservice : a.serviceFor? .getNext = some service) (hkind : m.pdu.kind = .getNext)
    (hversion : m.version ≠ .v1) (houtlet : a.outlet = .open)
    (hreachable : (s.registry registry).Reachable fun id => ManagedObject.region (stores id))
    (hlocking : (s.registry registry).locking.SparesReads)
    (hstores : ∀ e ∈ (s.registry registry).entries,
      s.objects e.object = Store.Among.put (stores e.object) ∧ (stores e.object).WellFormed) :
    ∃ bindings, List.Forall₂ (fun a x => (Survey.ofStores registry who.context s stores).Discloses
        (tables.allows name) a.oid x) m.pdu.bindings bindings ∧
      ({ m.pdu.toResponse with bindings }.size ≤ m.maxSize → ∃ t, a.process m₀ s = .done (.ok ()) t ∧
        t.sent = s.sent ++ [Outbound.replyTo m { m.pdu.toResponse with bindings }]) := by
  obtain ⟨hordered, hregions⟩ := hreachable.ordered
  let V : Survey Obj := .ofStores registry who.context s stores
  have hV : V.Sound := ⟨hordered, fun e he => hregions e he ▸ reads_store (hstores e he).2⟩
  have hs : V.Shows (Agent.opened s) := ⟨rfl, hlocking, fun e he => (hstores e he).1, rfl⟩
  obtain ⟨r, t, bindings, hrun, hc, hresponse, ht, hall⟩ := hs.run_discloses (p := a.policy) hV
    (hadmits.version ▸ hversion) rfl hkind m.maxSize s.now
  rw [Policy.allows_of_view haccess hview] at hall
  refine ⟨bindings, hall, fun hsize => ?_⟩
  obtain ⟨u, hprocess, hsent, -⟩ :=
    Agent.process_of_done hadmits (hkind ▸ hservice) hversion houtlet hrun hc hresponse hsize
  exact ⟨u, hprocess, ht.sent ▸ hsent⟩

/-- A table with two variables. -/
def cabinetStore : Store :=
  .table ⟨⟨[1, 3, 1]⟩, .readOnly, ⟨[(⟨[1, 3, 1, 1]⟩, .integer 1), (⟨[1, 3, 1, 2]⟩, .integer 2)]⟩⟩

def cabinet : State Instrument where
  objects _ := Store.Among.put cabinetStore
  registries := [{
    entries := [⟨.subtree ⟨[1, 3, 1]⟩, ⟨0⟩⟩]
    regions := [(⟨⟨0⟩, none⟩, .subtree ⟨[1, 3, 1]⟩)] }]
  outstanding := ⟨.seconds 300, []⟩

/-- Everybody may read everything but the first variable of the table. -/
def screen : Vacm.Tables where
  groups := [((.v2c, []), [103])]
  rows := [{ group := [103], readView := [118] }]
  views := [([118], ⟨[⟨⟨[1, 3]⟩, [], true⟩, ⟨⟨[1, 3, 1, 1]⟩, [], false⟩]⟩)]

def screened : Agent Instrument := { Agent.plain with access := some screen }

/-- Two searches: from below the table, and past its first variable. -/
def peeking : Pdu := .asking .getNext 1 [⟨[1, 3, 1]⟩, ⟨[1, 3, 1, 1]⟩]

/-- Somebody who is given the view. -/
def visitor : Requester := { browser with view := some [118] }

theorem cabinet_reachable : (cabinet.registry 0).Reachable fun _ => ManagedObject.region cabinetStore := by
  have hempty : Registry.Reachable (fun _ => ManagedObject.region cabinetStore) {} := .empty rfl rfl
  exact hempty.register (show Registry.register {} ⟨0⟩ (ManagedObject.region cabinetStore) none = .ok _ from rfl)

theorem cabinet_sorted :
    OidMap.Sorted (⟨[(⟨[1, 3, 1, 1]⟩, .integer 1), (⟨[1, 3, 1, 2]⟩, .integer 2)]⟩ : OidMap Value) := by
  refine List.pairwise_pair.mpr ?_
  decide

theorem cabinet_value? {o : Oid} {v : Value} : cabinetStore.value? o = some v ↔
    o = ⟨[1, 3, 1, 1]⟩ ∧ v = .integer 1 ∨ o = ⟨[1, 3, 1, 2]⟩ ∧ v = .integer 2 := by
  refine (OidMap.get?_eq_some_iff cabinet_sorted).trans ?_
  simp

theorem cabinet_formed : cabinetStore.WellFormed := by
  refine ⟨cabinet_sorted, fun o v h => ?_⟩
  rcases cabinet_value?.mp h with ⟨rfl, -⟩ | ⟨rfl, -⟩ <;> decide

def cabinetSurvey : Survey Instrument := .ofStores 0 [] cabinet fun _ => cabinetStore

theorem cabinet_sees {o : Oid} {v : Value} (h : cabinetStore.value? o = some v) : cabinetSurvey.Sees ⟨o, v⟩ :=
  ⟨⟨.subtree ⟨[1, 3, 1]⟩, ⟨0⟩⟩, List.mem_singleton.mpr rfl, rfl, h⟩

theorem cabinet_discloses : List.Forall₂ (fun a x => cabinetSurvey.Discloses (screen.allows [118]) a.oid x)
    peeking.bindings [⟨⟨[1, 3, 1]⟩, .endOfMibView⟩, ⟨⟨[1, 3, 1, 2]⟩, .integer 2⟩] := by
  have hsome (o : Oid) (v : Value) (h : cabinetStore.value? o = some v) : (cabinetStore.value? o).isSome = true :=
    Option.isSome_iff_exists.mpr ⟨v, h⟩
  have hone := hsome _ _ (cabinet_value?.mpr (Or.inl ⟨rfl, rfl⟩))
  have htwo := hsome _ _ (cabinet_value?.mpr (Or.inr ⟨rfl, rfl⟩))
  refine .cons (Survey.discloses_of_nothing ?_) (.cons (Survey.discloses_of_first ?_ ?_) .nil)
  · rintro ⟨y, v⟩ ⟨e, he, hc, hvalue, hfirst, hallows⟩
    rcases cabinet_value?.mp hvalue with ⟨hy, -⟩ | ⟨hy, -⟩ <;> obtain rfl : y = _ := hy
    · exact absurd hallows (show ¬screen.allows [118] ⟨[1, 3, 1, 1]⟩ = true by decide)
    · have hbelow : (⟨[1, 3, 1]⟩ : Oid) < ⟨[1, 3, 1, 1]⟩ := by decide
      have hleast : (⟨[1, 3, 1, 2]⟩ : Oid) ≤ ⟨[1, 3, 1, 1]⟩ :=
        hfirst.least ⟨[1, 3, 1, 1]⟩ hone (Range.contains_after.mpr hbelow)
      exact absurd hleast (by decide)
  · refine ⟨⟨.subtree ⟨[1, 3, 1]⟩, ⟨0⟩⟩, List.mem_singleton.mpr rfl, rfl, cabinet_value?.mpr (Or.inr ⟨rfl, rfl⟩),
      ⟨htwo, Range.contains_after.mpr (by decide), fun o ho hin => ?_⟩, by decide⟩
    obtain ⟨v, hv⟩ := Option.isSome_iff_exists.mp ho
    rcases cabinet_value?.mp hv with ⟨rfl, -⟩ | ⟨rfl, -⟩
    · exact absurd (Range.contains_after.mp hin) (by decide)
    · exact le_rfl
  · rintro ⟨y, v⟩ hoffer
    have hlt := hoffer.lt
    obtain ⟨e, he, hc, hvalue, -⟩ := hoffer
    rcases cabinet_value?.mp hvalue with ⟨hy, -⟩ | ⟨hy, -⟩ <;> obtain rfl : y = _ := hy
    · exact absurd hlt (lt_irrefl _)
    · exact le_rfl

/-- The first search ends, as the first variable past it is kept from view; the second one goes on from there. -/
theorem discloses_of_peeking : ∃ t, screened.process (.ofCommunity .v2c [] browser.peer peeking) cabinet =
    .done (.ok ()) t ∧ t.sent = [Outbound.replyTo (.ofCommunity .v2c [] browser.peer peeking) ⟨.response, 1, 0, 0,
      [⟨⟨[1, 3, 1]⟩, .endOfMibView⟩, ⟨⟨[1, 3, 1, 2]⟩, .integer 2⟩]⟩] := by
  have hadmits : screened.Admits cabinet (.ofCommunity .v2c [] browser.peer peeking)
      (.ofCommunity .v2c [] browser.peer peeking) visitor 0 := ⟨⟨none, rfl, rfl⟩, rfl, rfl⟩
  obtain ⟨bindings, hall, hprocess⟩ := discloses_of_admits hadmits rfl rfl rfl rfl (by decide) rfl
    cabinet_reachable Locking.sparesReads_writes fun e _ => ⟨rfl, cabinet_formed⟩
  have hsound : cabinetSurvey.Sound := ⟨cabinet_reachable.ordered.1, fun e he =>
    cabinet_reachable.ordered.2 e he ▸ reads_store cabinet_formed⟩
  have hunique : Relator.RightUnique fun (a : Binding) x => cabinetSurvey.Discloses (screen.allows [118]) a.oid x :=
    fun _ _ _ => hsound.eq_of_discloses
  obtain rfl := List.right_unique_forall₂' hunique hall cabinet_discloses
  exact hprocess (by decide +kernel)

/-- The view ends for a search below the table, although a variable of the table that it allows is still ahead. -/
theorem not_followsWithin_of_screened : (∃ t, screened.process (.ofCommunity .v2c [] browser.peer
      (.asking .getNext 1 [⟨[1, 3, 1]⟩])) cabinet = .done (.ok ()) t ∧
        t.sent = [Outbound.replyTo (.ofCommunity .v2c [] browser.peer (.asking .getNext 1 [⟨[1, 3, 1]⟩]))
          ⟨.response, 1, 0, 0, [⟨⟨[1, 3, 1]⟩, .endOfMibView⟩]⟩]) ∧
    ¬cabinetSurvey.FollowsWithin (screen.allows [118]) ⟨[1, 3, 1]⟩ ⟨⟨[1, 3, 1]⟩, .endOfMibView⟩ := by
  refine ⟨⟨_, rfl, ?_⟩, fun h => ?_⟩
  · decide +kernel
  · exact h.nothing.mp rfl _ (cabinet_sees (cabinet_value?.mpr (Or.inr ⟨rfl, rfl⟩))) (by decide) (by decide)

end Responder.Next
