import Mathlib.Data.Set.Card
import Responder.Proofs.Next.Disclosure

/-! Searching in the first version of the protocol. It cannot carry counters of 64 bits, so a search passes over
    them and goes on behind each one; what it shows is the first variable that is none (`Skips`). Where only counters
    are left, it ends under the name of the last one that it has passed over, and not under the name that was asked
    for (`skips_of_admits`, `not_named_of_counting`). -/

namespace Responder.Next

namespace Survey
variable {Obj : Type}

/-- The answer to a search past an identifier, as the first version knows it: the first variable there that is no
counter of 64 bits, with its value. The view ends if there is none, under the name of the last variable there, or of
the identifier if there is nothing at all. -/
structure Skips (V : Survey Obj) (o : Oid) (x : Binding) : Prop where
  first : (∃ y, V.Sees y ∧ o < y.oid ∧ y.value.isCounter64 = false) → V.Sees x ∧ o < x.oid ∧
    x.value.isCounter64 = false ∧ ∀ y, V.Sees y → o < y.oid → y.value.isCounter64 = false → x.oid ≤ y.oid
  nothing : (∀ y, V.Sees y → o < y.oid → y.value.isCounter64 = true) →
    x.value = .endOfMibView ∧ IsGreatest (insert o {o' | ∃ y, V.Sees y ∧ o < y.oid ∧ y.oid = o'}) x.oid

/-- The counters of 64 bits that the context sees past an identifier. -/
def countersPast (V : Survey Obj) (o : Oid) : Set Binding := {y | V.Sees y ∧ y.value.isCounter64 = true ∧ o < y.oid}

/-- All counters of 64 bits that the context sees. -/
def counters (V : Survey Obj) : Set Binding := {y | V.Sees y ∧ y.value.isCounter64 = true}

variable {V : Survey Obj} {o : Oid} {x y : Binding}

theorem skips_of_follows (h : V.Follows o x) (hcarried : x.value.isCounter64 = false) : V.Skips o x := by
  by_cases hsome : ∃ y, V.Sees y ∧ o < y.oid
  · obtain ⟨hx, hlt, hleast⟩ := h.first hsome
    refine ⟨fun _ => ⟨hx, hlt, hcarried, fun y hy hlt _ => hleast y hy hlt⟩, fun hall => ?_⟩
    cases hcarried.symm.trans (hall x hx hlt)
  · have hnone (y : Binding) (hy : V.Sees y) : ¬o < y.oid := fun hlt => hsome ⟨y, hy, hlt⟩
    obtain rfl := h.nothing.mpr hnone
    refine ⟨fun ⟨y, hy, hlt, _⟩ => absurd hlt (hnone y hy), fun _ => ⟨rfl, Set.mem_insert o _, ?_⟩⟩
    rintro o' (rfl | ⟨y, hy, hlt, -⟩)
    · exact le_rfl
    · exact absurd hlt (hnone y hy)

/-- A counter that follows an identifier is seen, and nothing stands between the two. -/
theorem Follows.sees (h : V.Follows o y) (hcounter : y.value.isCounter64 = true) :
    V.Sees y ∧ o < y.oid ∧ ∀ z, V.Sees z → o < z.oid → y.oid ≤ z.oid := by
  refine h.first (Classical.byContradiction fun hnone => ?_)
  have hend := h.nothing.mpr fun z hz hlt => hnone ⟨z, hz, hlt⟩
  rw [hend] at hcounter
  cases hcounter

variable [ManagedObject Obj]

/-- A search goes on behind a counter as if it had started there. -/
theorem Skips.of_counter (hV : V.Sound) (h : V.Follows o y) (hcounter : y.value.isCounter64 = true)
    (hx : V.Skips y.oid x) : V.Skips o x := by
  obtain ⟨hy, hlt, hleast⟩ := h.sees hcounter
  have hbehind (z : Binding) (hz : V.Sees z) (hlt : o < z.oid) (hcarried : z.value.isCounter64 = false) :
      y.oid < z.oid := by
    refine lt_of_le_of_ne (hleast z hz hlt) fun hsame => ?_
    obtain rfl := hV.eq_of_sees hy hz hsame
    cases hcarried.symm.trans hcounter
  refine ⟨?_, fun hall => ?_⟩
  · rintro ⟨z, hz, hzlt, hcarried⟩
    obtain ⟨hx, hxlt, hxcarried, hxleast⟩ := hx.first ⟨z, hz, hbehind z hz hzlt hcarried, hcarried⟩
    exact ⟨hx, hlt.trans hxlt, hxcarried, fun z hz hzlt hcarried => hxleast z hz (hbehind z hz hzlt hcarried) hcarried⟩
  · obtain ⟨hvalue, hmem, hgreatest⟩ := hx.nothing fun z hz hzlt => hall z hz (hlt.trans hzlt)
    refine ⟨hvalue, Or.inr ?_, ?_⟩
    · rcases hmem with heq | ⟨z, hz, hzlt, heq⟩
      · exact ⟨y, hy, hlt, heq.symm⟩
      · exact ⟨z, hz, hlt.trans hzlt, heq⟩
    · rintro o' (rfl | ⟨z, hz, hzlt, rfl⟩)
      · exact hlt.le.trans (hgreatest (Set.mem_insert _ _))
      · rcases (hleast z hz hzlt).eq_or_lt with heq | hbeyond
        · exact heq ▸ hgreatest (Set.mem_insert _ _)
        · exact hgreatest (Or.inr ⟨z, hz, hbeyond, rfl⟩)

omit [ManagedObject Obj] in
/-- Behind a counter there is one counter less. -/
theorem Follows.counters_lt (h : V.Follows o y) (hcounter : y.value.isCounter64 = true) {patience : Nat}
    (hlt : (V.countersPast o).encard < (patience + 1 : Nat)) : (V.countersPast y.oid).encard < patience := by
  obtain ⟨hy, hylt, -⟩ := h.sees hcounter
  have hsub : insert y (V.countersPast y.oid) ⊆ V.countersPast o := by
    rintro z (rfl | ⟨hz, hzcounter, hzlt⟩)
    · exact ⟨hy, hcounter, hylt⟩
    · exact ⟨hz, hzcounter, hylt.trans hzlt⟩
  have hnotin : y ∉ V.countersPast y.oid := fun hmem => lt_irrefl _ hmem.2.2
  have hle := (Set.encard_le_encard hsub).trans_lt hlt
  rw [Set.encard_insert_of_notMem hnotin, Nat.cast_succ] at hle
  exact lt_of_add_lt_add_right hle

/-- The item of a binding after it was served in the first version. -/
structure Skipped (V : Survey Obj) (a : Binding) (x : Item) : Prop where
  skips : V.Skips a.oid x.binding
  closed : x.complete = true
  clear : x.hasError = false

section Requests
variable {s : State Obj} {who : Requester} {p : Policy} {rely : State Obj → State Obj → Prop}

/-- A search that may try more objects than there are counters comes to the first variable that is none. The induction
is on how many objects it may try. -/
theorem Shows.serve_skips (hV : V.Sound) (haccess : p.access = none) (hversion : who.version = .v1) :
    ∀ (patience : Nat) (a : Binding) (x : Item) (s : State Obj), V.Shows s → V.Seeks a.oid x →
      (V.countersPast a.oid).encard < patience →
        (Next.serve p V.registry who patience x).Ensures rely (fun _ => False) s fun out t =>
          V.Shows t ∧ out.2 = none ∧ V.Skipped a out.1
  | 0, a, x, s, _, _, hlt => absurd hlt (by simp)
  | patience + 1, a, x, s, hs, hx, hlt => by
    have hshows {t : State Obj} (ht : V.Calm who.transaction t)
        (hlocking : (t.registry V.registry).locking = (s.registry V.registry).locking) : V.Shows t :=
      ⟨ht.entries, hlocking ▸ hs.locking, ht.holds, ht.sent⟩
    have hfollows {y : Binding} (hy : V.Discloses (p.allows who) a.oid y) : V.Follows a.oid y :=
      hs.follows_of_discloses hV (Policy.allows_of_open haccess ▸ hy)
    refine (hs.calm who.transaction).step hV patience hx ?_ ?_
    · intro y t hy hcarried _ ht hlocking
      have hvalue : y.binding.value.isCounter64 = false :=
        Bool.not_eq_true _ ▸ fun hcounter => hcarried ⟨hversion, hcounter⟩
      exact ⟨hshows ht hlocking, rfl, skips_of_follows (hfollows hy.discloses) hvalue, hy.closed, hy.clear⟩
    · intro y z t hy _ hcounter hz ht hlocking
      have hfewer := (hfollows hy).counters_lt hcounter hlt
      refine (serve_skips hV haccess hversion patience y z t (hshows ht hlocking) hz hfewer).mono (fun _ => id) ?_
      rintro out u ⟨hu, hnone, hskips, hclosed, hclear⟩
      exact ⟨hu, hnone, hskips.of_counter hV (hfollows hy) hcounter, hclosed, hclear⟩

end Requests

end Survey

/-! ### Answers -/

/-- How the first version tells what was found: as it is, or, if a marker is among it, with a missing name in the place
of the first one. -/
structure Renders (requestId : Int32) (bindings : List Binding) (response : Pdu) : Prop where
  found : (∀ x ∈ bindings, x.value.isException = false) → response = ⟨.response, requestId, 0, 0, bindings⟩
  missing : ∀ before x after, bindings = before ++ x :: after → (∀ y ∈ before, y.value.isException = false) →
    x.value.isException = true → response = ⟨.response, requestId, Status.noSuchName.code,
      Request.clampIndex (before.length + 1), before ++ .unset x.oid :: after⟩

theorem renders_forV1 (requestId : Int32) (bindings : List Binding) :
    Renders requestId bindings (Reply.forV1 ⟨.response, requestId, 0, 0, bindings⟩) where
  found hfound := by
    have hnone : Reply.firstException? bindings = none := List.findIdx?_eq_none_iff.mpr hfound
    rw [Reply.forV1, hnone]
    rfl
  missing before x after hsplit hbefore hx := by
    subst hsplit
    have hfirst : Reply.firstException? (before ++ x :: after) = some before.length := by
      rw [Reply.firstException?, List.findIdx?_append, List.findIdx?_eq_none_iff.mpr hbefore, List.findIdx?_cons, hx]
      simp
    have hcleared : (before ++ x :: after).modify before.length (fun b => { b with value := .null }) =
        before ++ .unset x.oid :: after := by
      rw [List.modify_eq_take_cons_drop (by simp)]
      simp [Binding.unset]
    rw [Reply.forV1, hfirst]
    simp only [Reply.clearValue, hcleared]
    rfl

/-- The agent searches with the standard service, and lets a search go on for so many laps more than there are
entries. -/
def Searches {Obj : Type} [ManagedObject Obj] (a : Agent Obj) (patience : Nat) : Prop :=
  ∃ v, a.serviceFor? .getNext = some v ∧ v.run a.policy = run { a.policy with patience }

/-- Searching in the first version, as an agent answers it without access control, where reading takes no locks and a
search may go on for as many laps more as there are counters of 64 bits: what is told is the first variable past each
one that is asked for which is no such counter. -/
theorem skips_of_admits {Obj : Type} [ManagedObject Obj] [Store.Among Obj] {a : Agent Obj} {s : State Obj}
    {m₀ m : Inbound} {who : Requester} {registry : Nat} {stores : ObjectId → Store} {patience : Nat}
    (hadmits : a.Admits s m₀ m who registry) (hsearches : Searches a patience) (hkind : m.pdu.kind = .getNext)
    (haccess : a.access = none) (hversion : m.version = .v1) (houtlet : a.outlet = .open)
    (hreachable : (s.registry registry).Reachable fun id => ManagedObject.region (stores id))
    (hlocking : (s.registry registry).locking.SparesReads)
    (hstores : ∀ e ∈ (s.registry registry).entries,
      s.objects e.object = Store.Among.put (stores e.object) ∧ (stores e.object).WellFormed)
    (hpatience : (Survey.ofStores registry who.context s stores).counters.encard ≤ patience) :
    ∃ bindings response, Renders m.pdu.requestId bindings response ∧
      List.Forall₂ (fun a x => (Survey.ofStores registry who.context s stores).Skips a.oid x) m.pdu.bindings bindings ∧
      (response.size ≤ m.maxSize → ∃ t, a.process m₀ s = .done (.ok ()) t ∧
        t.sent = s.sent ++ [Outbound.replyTo m response]) := by
  obtain ⟨hordered, hregions⟩ := hreachable.ordered
  obtain ⟨v, hservice, hsearch⟩ := hsearches
  let V : Survey Obj := .ofStores registry who.context s stores
  have hV : V.Sound := ⟨hordered, fun e he => hregions e he ▸ reads_store (hstores e he).2⟩
  have hs : V.Shows (Agent.opened s) := ⟨rfl, hlocking, fun e he => (hstores e he).1, rfl⟩
  have hasked (index : Nat) (a : Binding) :
      V.Asked a (Item.restart { index, binding := a, region := Request.regionOf m.pdu who.context a.oid }) :=
    ⟨rfl, regionOf_search (by simp [hkind, Pdu.Kind.isSearch]) a.oid, rfl, rfl, rfl⟩
  have hserve (b : Binding) (x : Item) (t : State Obj) (hx : V.Asked b x) (ht : V.Shows t) :
      (search { a.policy with patience } V.registry who x).Ensures (fun _ _ => False) (fun _ => False) t
        fun out u => V.Shows u ∧ out.2 = none ∧ V.Skipped b out.1 := by
    have hsub : V.countersPast b.oid ⊆ V.counters := fun y hy => ⟨hy.1, hy.2.1⟩
    have hlaps (candidates : Nat) : (patience : ℕ∞) < (candidates + patience + 1 : Nat) := by
      exact_mod_cast Nat.lt_succ_of_le (Nat.le_add_left patience candidates)
    exact Survey.Shows.serve_skips hV haccess (hadmits.version.trans hversion) _ b x t ht
      ⟨hx.oid, hx.region, hx.clear, hx.rested⟩ (((Set.encard_le_encard hsub).trans hpatience).trans_lt (hlaps _))
  obtain ⟨items, t, hdone, ht, hall, hc, hresponse⟩ := exists_read (Or.inr hkind) hasked (fun a x hx => hx.fresh) hserve
    (fun a x hx => ⟨hx.closed, hx.clear⟩) hs m.maxSize s.now
  have hrun : v.run a.policy registry (.start who m.pdu m.maxSize s.now) (Agent.opened s) =
      .done ({ (Request.start who m.pdu m.maxSize s.now).begin with items }, none) t := by
    rw [hsearch, run, (Request.begin_same _).1]
    exact Activity.bind_of_done hdone
  have hskips : List.Forall₂ (fun a x => V.Skips a.oid x) m.pdu.bindings (items.map Item.binding) :=
    List.forall₂_map_right_iff.mpr (hall.imp fun a x hx => hx.skips)
  refine ⟨items.map Item.binding, _, renders_forV1 _ _, hskips, fun hsize => ?_⟩
  obtain ⟨u, hprocess, hsent, -⟩ := Agent.process_of_run hadmits (hkind ▸ hservice) houtlet hrun hc
    (by rw [if_pos hversion, hresponse]; exact if_pos hsize)
  exact ⟨u, hprocess, ht.sent ▸ hsent⟩

/-- A table with counters before and behind another variable. -/
def abacusStore : Store :=
  .table ⟨⟨[1, 3, 1]⟩, .readOnly,
    ⟨[(⟨[1, 3, 1, 1]⟩, .counter64 7), (⟨[1, 3, 1, 2]⟩, .integer 5), (⟨[1, 3, 1, 3]⟩, .counter64 8)]⟩⟩

def abacus : State Instrument := { cabinet with objects := fun _ => Store.Among.put abacusStore }

/-- Two searches: from below the table, and behind the variable that is no counter. -/
def counting : Inbound := .ofCommunity .v1 [] browser.peer (.asking .getNext 1 [⟨[1, 3, 1]⟩, ⟨[1, 3, 1, 2]⟩])

/-- Somebody who asks in the first version. -/
def teller : Requester := { browser with version := .v1, model := .v1 }

def tally : Survey Instrument := .ofStores 0 [] abacus fun _ => abacusStore

theorem abacus_sorted : OidMap.Sorted (⟨[(⟨[1, 3, 1, 1]⟩, .counter64 7), (⟨[1, 3, 1, 2]⟩, .integer 5),
    (⟨[1, 3, 1, 3]⟩, .counter64 8)]⟩ : OidMap Value) := by
  unfold OidMap.Sorted
  decide

theorem abacus_value? {o : Oid} {v : Value} : abacusStore.value? o = some v ↔
    o = ⟨[1, 3, 1, 1]⟩ ∧ v = .counter64 7 ∨ o = ⟨[1, 3, 1, 2]⟩ ∧ v = .integer 5 ∨
      o = ⟨[1, 3, 1, 3]⟩ ∧ v = .counter64 8 := by
  refine (OidMap.get?_eq_some_iff abacus_sorted).trans ?_
  simp

theorem abacus_formed : abacusStore.WellFormed := by
  refine ⟨abacus_sorted, fun o v h => ?_⟩
  rcases abacus_value?.mp h with ⟨rfl, -⟩ | ⟨rfl, -⟩ | ⟨rfl, -⟩ <;> decide

theorem sees_abacus {y : Binding} : tally.Sees y ↔
    y = ⟨⟨[1, 3, 1, 1]⟩, .counter64 7⟩ ∨ y = ⟨⟨[1, 3, 1, 2]⟩, .integer 5⟩ ∨ y = ⟨⟨[1, 3, 1, 3]⟩, .counter64 8⟩ := by
  obtain ⟨o, v⟩ := y
  simp only [Binding.mk.injEq, ← abacus_value?]
  constructor
  · rintro ⟨e, -, -, hvalue⟩
    exact hvalue
  · exact fun hvalue => ⟨⟨.subtree ⟨[1, 3, 1]⟩, ⟨0⟩⟩, List.mem_singleton.mpr rfl, rfl, hvalue⟩

/-- Behind the variable that is no counter there is one counter more. -/
theorem last_of_sees {y : Binding} (hy : tally.Sees y) (hlt : ⟨[1, 3, 1, 2]⟩ < y.oid) :
    y = ⟨⟨[1, 3, 1, 3]⟩, .counter64 8⟩ := by
  rcases sees_abacus.mp hy with rfl | rfl | rfl
  · exact absurd hlt (by decide)
  · exact absurd hlt (lt_irrefl _)
  · rfl

/-- The first counter is passed over; and where the other one is all that is left, its name is missing. -/
theorem skips_of_counting : ∃ t, Agent.plain.process counting abacus = .done (.ok ()) t ∧
    t.sent = [Outbound.replyTo counting
      ⟨.response, 1, 2, 2, [⟨⟨[1, 3, 1, 2]⟩, .integer 5⟩, .unset ⟨[1, 3, 1, 3]⟩]⟩] := by
  have hadmits : Agent.plain.Admits abacus counting counting teller 0 := ⟨⟨none, rfl, rfl⟩, rfl, rfl⟩
  have hcounters : tally.counters ⊆ {⟨⟨[1, 3, 1, 1]⟩, .counter64 7⟩, ⟨⟨[1, 3, 1, 3]⟩, .counter64 8⟩} := by
    rintro y ⟨hy, hcounter⟩
    rcases sees_abacus.mp hy with rfl | rfl | rfl
    · exact Or.inl rfl
    · cases hcounter
    · exact Or.inr rfl
  have hfew : tally.counters.encard ≤ (1000000 : Nat) := by
    refine (Set.encard_le_encard hcounters).trans ((Set.encard_insert_le _ _).trans ?_)
    rw [Set.encard_singleton]
    exact_mod_cast (show 1 + 1 ≤ 1000000 by decide)
  have hsearches : Searches Agent.plain 1000000 := ⟨_, rfl, rfl⟩
  have hreachable : (abacus.registry 0).Reachable fun _ => ManagedObject.region abacusStore := cabinet_reachable
  have hstores : ∀ e ∈ (abacus.registry 0).entries,
      abacus.objects e.object = Store.Among.put abacusStore ∧ abacusStore.WellFormed := fun e _ => ⟨rfl, abacus_formed⟩
  obtain ⟨bindings, response, hrenders, hall, hanswer⟩ := skips_of_admits hadmits hsearches rfl rfl rfl rfl
    hreachable Locking.sparesReads_writes hstores hfew
  obtain ⟨x, rest, hx, hrest, rfl⟩ := List.forall₂_cons_left_iff.mp hall
  obtain ⟨y, rest, hy, hnil, rfl⟩ := List.forall₂_cons_left_iff.mp hrest
  obtain rfl := List.forall₂_nil_left_iff.mp hnil
  obtain rfl : x = ⟨⟨[1, 3, 1, 2]⟩, .integer 5⟩ := by
    obtain ⟨hseen, -, hcarried, -⟩ := hx.first ⟨_, sees_abacus.mpr (Or.inr (Or.inl rfl)), by decide, rfl⟩
    rcases sees_abacus.mp hseen with rfl | rfl | rfl
    · cases hcarried
    · rfl
    · cases hcarried
  obtain ⟨hvalue, hmem, hgreatest⟩ := hy.nothing fun z hz hlt => last_of_sees hz hlt ▸ rfl
  have hoid : y.oid = ⟨[1, 3, 1, 3]⟩ := by
    rcases hmem with hself | ⟨z, hz, hlt, hname⟩
    · have hlast := hgreatest (Or.inr ⟨_, sees_abacus.mpr (Or.inr (Or.inr rfl)), by decide, rfl⟩)
      rw [hself] at hlast
      exact absurd hlast (by decide)
    · rw [← hname, last_of_sees hz hlt]
  have hresponse := hrenders.missing [⟨⟨[1, 3, 1, 2]⟩, .integer 5⟩] y [] rfl (by simp [Value.isException])
    (by rw [hvalue]; rfl)
  rw [hoid] at hresponse
  subst hresponse
  exact hanswer (by decide +kernel)

/-- What is told to be missing is not what was asked for. -/
theorem not_named_of_counting : (∀ y, tally.Sees y → ⟨[1, 3, 1, 2]⟩ < y.oid → y.value.isCounter64 = true) ∧
    ∃ t, Agent.plain.process counting abacus = .done (.ok ()) t ∧
      t.sent = [Outbound.replyTo counting
        ⟨.response, 1, 2, 2, [⟨⟨[1, 3, 1, 2]⟩, .integer 5⟩, .unset ⟨[1, 3, 1, 3]⟩]⟩] ∧
      t.sent ≠ [Outbound.replyTo counting
        ⟨.response, 1, 2, 2, [⟨⟨[1, 3, 1, 2]⟩, .integer 5⟩, .unset ⟨[1, 3, 1, 2]⟩]⟩] := by
  refine ⟨fun y hy hlt => last_of_sees hy hlt ▸ rfl, _, rfl, ?_, ?_⟩
  · decide +kernel
  · decide +kernel

end Responder.Next
