import Responder.Proofs.Bulk.Stopping
import Responder.Proofs.Next.Disclosure

/-! Searching in bulk is searching again and again. Where an agent searches stores as registration has left them
    (`Searchable`), there is one answer to the search past each identifier, in a message of its own as in one in bulk;
    and with room enough the answer in bulk holds them all, row by row (`expansion_of_admits`). Only a marker that is
    stored as a value stops its column (`row_succ_of_plain`). -/

namespace Responder.Bulk

open Next (Survey)

/-- An agent searches stores as registration has left them, with no lock of anybody else in its way. -/
structure Searchable {Obj : Type} [ManagedObject Obj] [Store.Among Obj] (a : Agent Obj) (s : State Obj) (registry : Nat)
    (stores : ObjectId → Store) : Prop where
  next : a.serviceFor? .getNext = some Next.service
  bulk : a.serviceFor? .getBulk = some service
  outlet : a.outlet = .open
  reachable : (s.registry registry).Reachable fun id => ManagedObject.region (stores id)
  locks : ¬(s.registry registry).locking.SparesReads → (s.registry registry).locks.OwnedBy ⟨s.transactions⟩
  formed : ∀ e ∈ (s.registry registry).entries,
    s.objects e.object = Store.Among.put (stores e.object) ∧ (stores e.object).WellFormed

section Answers
variable {Obj : Type} [ManagedObject Obj] {V : Survey Obj} {p : Policy} {who : Requester} {answer : Oid → Binding}

/-- Whoever searches faithful objects undisturbed has an answer to every search. -/
theorem answers_of_discloses (hV : V.Sound) (hversion : who.version ≠ .v1)
    (hcontext : who.context = V.context) (hanswer : ∀ o, V.Discloses (p.allows who) o (answer o)) :
    Answers p V.registry who (V.Calm who.transaction) answer := by
  intro b x s hx hs
  have hitem : V.Asked b x :=
    ⟨congrArg Binding.oid hx.binding, hcontext ▸ hx.region, hx.fresh, hx.clear, hx.rested⟩
  refine (hs.serve hV hversion _ hitem).mono (fun _ => id) ?_
  rintro ⟨y, error⟩ t ⟨⟨ht, -⟩, hnone, hy, hregion⟩
  refine ⟨ht, hnone, hV.eq_of_discloses hy.discloses (hanswer b.oid), ?_, hy.closed, hy.clear⟩
  rw [hregion, hx.region]
  rfl

end Answers

section Agents
variable {Obj : Type} [ManagedObject Obj] [Store.Among Obj] {a : Agent Obj} {s : State Obj} {registry : Nat}
  {stores : ObjectId → Store} {m₀ m : Inbound} {who : Requester} {answer : Oid → Binding}

theorem Searchable.sound (h : Searchable a s registry stores) (context : ContextName) :
    (Survey.ofStores registry context s stores).Sound := by
  obtain ⟨hordered, hregions⟩ := h.reachable.ordered
  exact ⟨hordered, fun e he => hregions e he ▸ Next.reads_store (h.formed e he).2⟩

theorem Searchable.calm (h : Searchable a s registry stores) (context : ContextName) :
    (Survey.ofStores registry context s stores).Calm ⟨s.transactions⟩ (Agent.opened s) :=
  ⟨rfl, h.locks, fun e he => (h.formed e he).1, rfl⟩

theorem Searchable.exists_answer (h : Searchable a s registry stores) (who : Requester) :
    ∃ answer : Oid → Binding, ∀ o, (Survey.ofStores registry who.context s stores).Discloses (a.policy.allows who) o
      (answer o) :=
  ⟨_, fun o => ((h.calm who.context).exists_discloses (h.sound who.context) a.policy who o).choose_spec⟩

omit [Store.Among Obj] [ManagedObject Obj] in
theorem transaction_of_admits (hadmits : a.Admits s m₀ m who registry) : who.transaction = ⟨s.transactions⟩ := by
  obtain ⟨mapping, -, hwho⟩ := hadmits.received
  exact (congrArg Requester.transaction hwho).symm

/-- A message that searches is answered with the answer to each of its searches. -/
theorem Searchable.process_next (h : Searchable a s registry stores) (hadmits : a.Admits s m₀ m who registry)
    (hkind : m.pdu.kind = .getNext) (hversion : m.version ≠ .v1)
    (hanswer : ∀ o, (Survey.ofStores registry who.context s stores).Discloses (a.policy.allows who) o (answer o))
    (hsize : (m.pdu.answer (m.pdu.bindings.map fun b => answer b.oid)).size ≤ m.maxSize) :
    ∃ t, a.process m₀ s = .done (.ok ()) t ∧
      t.sent = s.sent ++ [Outbound.replyTo m (m.pdu.answer (m.pdu.bindings.map fun b => answer b.oid))] := by
  have hV := h.sound who.context
  have hs := transaction_of_admits hadmits ▸ h.calm who.context
  obtain ⟨r, t, bindings, hrun, hc, hresponse, ⟨ht, -⟩, hall⟩ := hs.run_discloses (p := a.policy) hV
    (hadmits.version ▸ hversion) rfl hkind m.maxSize s.now
  have hbindings : bindings = m.pdu.bindings.map fun b => answer b.oid := by
    refine (List.forall₂_eq_eq_eq ▸ List.forall₂_map_left_iff.mpr (hall.imp fun b x hx => ?_)).symm
    exact hV.eq_of_discloses (hanswer b.oid) hx
  obtain ⟨u, hprocess, hsent, -⟩ := Agent.process_of_done hadmits (hkind ▸ h.next) hversion h.outlet hrun hc
    (hbindings ▸ hresponse) hsize
  exact ⟨u, hprocess, ht.sent ▸ hsent⟩

/-- A message that searches in bulk is answered with the rows that are left, as far as they fit. -/
theorem Searchable.process_bulk (h : Searchable a s registry stores) (hadmits : a.Admits s m₀ m who registry)
    (hkind : m.pdu.kind = .getBulk) (hversion : m.version ≠ .v1)
    (hanswer : ∀ o, (Survey.ofStores registry who.context s stores).Discloses (a.policy.allows who) o (answer o)) :
    ∃ bs, Leaves ⟨m.pdu, answer⟩ m.maxSize bs ∧
      ∀ cs, Reply.fit? (m.pdu.answer bs) true m.maxSize = some (m.pdu.answer cs) →
        ∃ t, a.process m₀ s = .done (.ok ()) t ∧ t.sent = s.sent ++ [Outbound.replyTo m (m.pdu.answer cs)] := by
  have hanswers : Answers a.policy registry who _ answer := answers_of_discloses (h.sound who.context)
    (hadmits.version ▸ hversion) rfl hanswer
  have hs := transaction_of_admits hadmits ▸ h.calm who.context
  obtain ⟨bs, r, t, hrun, ht, hpdu, hc, hresponse, hleaves⟩ :=
    run_leaves (T := ⟨m.pdu, answer⟩) hanswers hkind hs m.maxSize s.now
  refine ⟨bs, hleaves, fun cs hfit => ?_⟩
  have hfit' : Reply.fit? r.toResponse (r.pdu.kind == .getBulk) m.maxSize = some (m.pdu.answer cs) := by
    rw [hresponse, hpdu, hkind]
    exact hfit
  obtain ⟨u, hprocess, hsent, -⟩ := Agent.process_of_fit hadmits (hkind ▸ h.bulk) hversion h.outlet hrun hc hfit'
  exact ⟨u, hprocess, ht.sent ▸ hsent⟩

end Agents

/-! ### Room for everything -/

section Room
variable {T : Sheet} {maxSize : Nat} {bs : List Binding}

/-- Whatever the response holds while it is made, it stays below the limit. -/
structure Roomy (T : Sheet) (maxSize : Nat) : Prop where
  head : T.size T.head < maxSize
  shown : ∀ k < T.height, ∀ j < T.shape.columns, T.size (T.shown k (j + 1)) < maxSize

theorem Roomy.filled (h : Roomy T maxSize) {k j : Nat} (hk : k < T.height) (hj : j < T.shape.columns) :
    T.size (T.filled k (j + 1)) < maxSize :=
  lt_of_le_of_lt (Pdu.size_le_of_isPrefix (List.prefix_append _ _)) (h.shown k hk j hj)

theorem Roomy.rows (h : Roomy T maxSize) {k : Nat} (hk : k ≤ T.height) : T.size (T.rows k) < maxSize := by
  rcases Nat.eq_zero_or_pos T.shape.columns with hbare | hcolumns
  · rw [T.rows_of_bare hbare]
    exact h.head
  · cases k with
    | zero =>
      rw [T.rows_zero]
      exact h.head
    | succ k =>
      have hlast := h.filled hk (Nat.sub_one_lt_of_lt hcolumns)
      rwa [Nat.sub_add_cancel hcolumns, T.filled_columns] at hlast

/-- Where there is room for everything, everything is left. -/
theorem Leaves.eq_expansion (h : Leaves T maxSize bs) (hroom : Roomy T maxSize) : bs = T.expansion := by
  cases h with
  | bare hbare =>
    rcases hbare with hcolumns | hrepeats
    · exact (T.rows_of_bare hcolumns _).symm
    · have hheight : T.height = 0 := Nat.le_zero.mp (hrepeats ▸ T.height_le)
      rw [Sheet.expansion, hheight, T.rows_zero]
  | broken hrepeats hj hlarge =>
    have hfirst : 0 < T.height := T.lt_height_iff.mpr ⟨hrepeats, fun i hi => absurd hi (Nat.not_lt_zero i)⟩
    exact absurd (hroom.shown 0 hfirst _ hj) (Nat.not_lt_of_lt hlarge)
  | @rows k hcolumns hstops =>
    rcases hstops.full with hlast | ⟨hmore, hfull | ⟨-, hlarge⟩⟩
    · rw [Sheet.expansion, hlast]
    · have hbefore : T.size (T.filled (k + 1) (T.shape.columns - 1)) ≤ T.size (T.rows (k + 2)) := by
        rw [← T.filled_columns]
        exact T.size_filled_le (Nat.sub_le _ _)
      exact absurd (lt_of_le_of_lt hbefore (hroom.rows hmore)) (Nat.not_lt_of_le hfull)
    · exact absurd (hroom.rows hmore) (Nat.not_lt_of_lt hlarge)

end Room

/-! ### Markers -/

section Markers
variable {Obj : Type} {V : Survey Obj} {allows : Oid → Bool} {answer : Oid → Binding}

/-- A marker that is not stored as a value is the answer to the search past its own identifier. -/
theorem again_of_plain (hanswer : ∀ o, V.Discloses allows o (answer o))
    (hplain : ∀ y, V.Sees y → y.value.isException = false) (pdu : Pdu) (o : Oid) :
    (⟨pdu, answer⟩ : Sheet).again (answer o) = answer (answer o).oid := by
  by_cases hsome : ∃ y, V.Offers allows o y
  · have hsees := ((hanswer o).first hsome).1.sees
    exact Sheet.again_of_value (hplain _ hsees)
  · rw [not_exists] at hsome
    have hend : answer o = ⟨o, .endOfMibView⟩ := (hanswer o).nothing.mpr hsome
    rw [hend, Sheet.again_of_marker rfl]
    exact hend.symm

/-- Without such values each row is searched on from the one before, column by column. -/
theorem row_succ_of_plain (hanswer : ∀ o, V.Discloses allows o (answer o))
    (hplain : ∀ y, V.Sees y → y.value.isException = false) (pdu : Pdu) (k : Nat) :
    (⟨pdu, answer⟩ : Sheet).row (k + 1) = ((⟨pdu, answer⟩ : Sheet).row k).map fun b => answer b.oid := by
  have hcolumn (k : Nat) (b : Binding) (hb : b ∈ (⟨pdu, answer⟩ : Sheet).row k) : ∃ o, b = answer o := by
    induction k generalizing b with
    | zero =>
      obtain ⟨c, -, rfl⟩ := List.mem_map.mp hb
      exact ⟨_, rfl⟩
    | succ k ih =>
      obtain ⟨c, hc, rfl⟩ := List.mem_map.mp hb
      obtain ⟨o, rfl⟩ := ih c hc
      exact ⟨_, again_of_plain hanswer hplain pdu o⟩
  refine List.map_congr_left fun b hb => ?_
  obtain ⟨o, rfl⟩ := hcolumn k b hb
  exact again_of_plain hanswer hplain pdu o

end Markers

section Answer
variable {Obj : Type} [ManagedObject Obj] [Store.Among Obj] {a : Agent Obj} {s : State Obj} {registry : Nat}
  {stores : ObjectId → Store} {m₀ m : Inbound} {who : Requester}

/-- Searching in bulk, as an agent answers it with room for everything: the answers of single searches, first to what
is asked for once, then row by row, each column going on from the one before up to a marker. Where no value is a
marker, no column stops but at the end of the view. -/
theorem expansion_of_admits (h : Searchable a s registry stores) (hadmits : a.Admits s m₀ m who registry)
    (hkind : m.pdu.kind = .getBulk) (hversion : m.version ≠ .v1) : ∃ answer : Oid → Binding,
    (∀ o, (Survey.ofStores registry who.context s stores).Discloses (a.policy.allows who) o (answer o)) ∧
    (∀ n₀ n who', a.Admits s n₀ n who' registry → n.pdu.kind = .getNext → n.version ≠ .v1 →
      who'.context = who.context → who'.view = who.view →
      (n.pdu.answer (n.pdu.bindings.map fun b => answer b.oid)).size ≤ n.maxSize →
        ∃ t, a.process n₀ s = .done (.ok ()) t ∧
          t.sent = s.sent ++ [Outbound.replyTo n (n.pdu.answer (n.pdu.bindings.map fun b => answer b.oid))]) ∧
    (Roomy ⟨m.pdu, answer⟩ m.maxSize → ∃ t, a.process m₀ s = .done (.ok ()) t ∧
      t.sent = s.sent ++ [Outbound.replyTo m (m.pdu.answer (Sheet.expansion ⟨m.pdu, answer⟩))]) ∧
    ((∀ y, (Survey.ofStores registry who.context s stores).Sees y → y.value.isException = false) →
      ∀ k, (⟨m.pdu, answer⟩ : Sheet).row (k + 1) = ((⟨m.pdu, answer⟩ : Sheet).row k).map fun b => answer b.oid) := by
  obtain ⟨answer, hanswer⟩ := h.exists_answer who
  refine ⟨answer, hanswer, ?_, ?_, fun hplain => row_succ_of_plain hanswer hplain m.pdu⟩
  · intro n₀ n who' hadmits' hkind' hversion' hcontext hview hsize
    have hallows : a.policy.allows who' = a.policy.allows who := by
      funext o
      rw [Policy.allows, Policy.allows, hview]
    exact h.process_next hadmits' hkind' hversion' (hcontext ▸ hallows ▸ hanswer) hsize
  · intro hroom
    obtain ⟨bs, hleaves, hprocess⟩ := h.process_bulk hadmits hkind hversion hanswer
    obtain rfl := hleaves.eq_expansion hroom
    exact hprocess _ (if_pos (hroom.rows le_rfl).le)

end Answer

/-! ### A library -/

/-- The first of some variables past an identifier. -/
def firstPast (vars : List Binding) (o : Oid) : Binding := (vars.find? fun b => o < b.oid).getD ⟨o, .endOfMibView⟩

theorem follows_firstPast {Obj : Type} {V : Survey Obj} {vars : List Binding} (hsees : ∀ y, V.Sees y ↔ y ∈ vars)
    (hsorted : vars.Pairwise fun x y => x.oid < y.oid) (o : Oid) : V.Follows o (firstPast vars o) := by
  unfold firstPast
  cases hfind : vars.find? fun b => o < b.oid with
  | none =>
    rw [List.find?_eq_none] at hfind
    exact Survey.follows_of_nothing fun y hy => by simpa using hfind y ((hsees y).mp hy)
  | some x =>
    obtain ⟨hx, before, after, rfl, hbefore⟩ := List.find?_eq_some_iff_append.mp hfind
    refine Survey.follows_of_first ((hsees x).mpr (by simp)) (by simpa using hx) fun y hy hlt => ?_
    rcases List.mem_append.mp ((hsees y).mp hy) with hy | hy
    · exact absurd hlt (by simpa using hbefore y hy)
    · rcases List.mem_cons.mp hy with rfl | hy
      · exact le_rfl
      · exact (List.rel_of_pairwise_cons (List.pairwise_append.mp hsorted).2.1 hy).le

/-- Without a view, and without locks, the answers are the variables that the context sees, in their order. -/
theorem Searchable.eq_firstPast {Obj : Type} [ManagedObject Obj] [Store.Among Obj] {a : Agent Obj} {s : State Obj}
    {registry : Nat} {stores : ObjectId → Store} (h : Searchable a s registry stores) (context : ContextName)
    (hlocking : (s.registry registry).locking.SparesReads) {vars : List Binding}
    (hsees : ∀ y, (Survey.ofStores registry context s stores).Sees y ↔ y ∈ vars)
    (hsorted : vars.Pairwise fun x y => x.oid < y.oid) {o : Oid} {x : Binding}
    (hx : (Survey.ofStores registry context s stores).Discloses (fun _ => true) o x) : x = firstPast vars o := by
  have hshows : (Survey.ofStores registry context s stores).Shows s :=
    ⟨rfl, hlocking, fun e he => (h.formed e he).1, rfl⟩
  have hV := h.sound context
  exact hV.eq_of_follows (hshows.follows_of_discloses hV hx) (follows_firstPast hsees hsorted o)

/-- One search, and two that are repeated. -/
def sweeping : Pdu := .askingBulk 1 1 5 [⟨[1]⟩, ⟨[1]⟩, ⟨[3]⟩]

theorem library_searchable : Searchable Agent.plain Next.library 0 Next.libraryStore where
  next := rfl
  bulk := rfl
  outlet := rfl
  reachable := Next.library_reachable
  locks hreads := absurd Locking.sparesReads_writes hreads
  formed e _ := ⟨rfl, Next.library_formed e.object⟩

/-- The third row is the last one, with nothing but ends of the view. -/
theorem expansion_of_sweeping : ∃ t,
    Agent.plain.process (.ofCommunity .v2c [] Next.browser.peer sweeping) Next.library = .done (.ok ()) t ∧
      t.sent = [Outbound.replyTo (.ofCommunity .v2c [] Next.browser.peer sweeping) ⟨.response, 1, 0, 0,
        [⟨⟨[1, 0]⟩, .integer 7⟩, ⟨⟨[1, 0]⟩, .integer 7⟩, ⟨⟨[3, 1]⟩, .integer 9⟩, ⟨⟨[3, 1]⟩, .integer 9⟩,
          ⟨⟨[3, 1]⟩, .endOfMibView⟩, ⟨⟨[3, 1]⟩, .endOfMibView⟩, ⟨⟨[3, 1]⟩, .endOfMibView⟩]⟩] := by
  have hadmits : Agent.plain.Admits Next.library (.ofCommunity .v2c [] Next.browser.peer sweeping)
      (.ofCommunity .v2c [] Next.browser.peer sweeping) { Next.browser with kind := .getBulk } 0 :=
    ⟨⟨none, rfl, rfl⟩, rfl, rfl⟩
  obtain ⟨answer, hanswer, -, hprocess, -⟩ := expansion_of_admits library_searchable hadmits rfl (by decide)
  have hsees (y : Binding) : (Survey.ofStores 0 [] Next.library Next.libraryStore).Sees y ↔
      y ∈ [⟨⟨[1, 0]⟩, .integer 7⟩, ⟨⟨[3, 1]⟩, .integer 9⟩] := by
    rw [List.mem_pair]
    exact Next.sees_library
  obtain rfl : answer = firstPast [⟨⟨[1, 0]⟩, .integer 7⟩, ⟨⟨[3, 1]⟩, .integer 9⟩] := by
    funext o
    refine library_searchable.eq_firstPast [] Locking.sparesReads_writes hsees ?_ (hanswer o)
    exact List.pairwise_pair.mpr (by decide)
  exact hprocess ⟨by decide +kernel, by decide +kernel⟩

/-- A table whose first variable holds a marker. -/
def markedStore : Store :=
  .table ⟨⟨[1, 3, 1]⟩, .readOnly, ⟨[(⟨[1, 3, 1, 1]⟩, .noSuchInstance), (⟨[1, 3, 1, 2]⟩, .integer 2)]⟩⟩

def marked : State Instrument := { Next.cabinet with objects _ := Store.Among.put markedStore }

/-- A single search past the marker finds the second variable, but in bulk the marker is what comes next. -/
theorem not_iterated_of_marker :
    (∃ t, Agent.plain.process (.ofCommunity .v2c [] Next.browser.peer (.asking .getNext 1 [⟨[1, 3, 1]⟩])) marked =
      .done (.ok ()) t ∧ t.sent = [Outbound.replyTo
        (.ofCommunity .v2c [] Next.browser.peer (.asking .getNext 1 [⟨[1, 3, 1]⟩]))
        ⟨.response, 1, 0, 0, [⟨⟨[1, 3, 1, 1]⟩, .noSuchInstance⟩]⟩]) ∧
    (∃ t, Agent.plain.process (.ofCommunity .v2c [] Next.browser.peer (.asking .getNext 1 [⟨[1, 3, 1, 1]⟩])) marked =
      .done (.ok ()) t ∧ t.sent = [Outbound.replyTo
        (.ofCommunity .v2c [] Next.browser.peer (.asking .getNext 1 [⟨[1, 3, 1, 1]⟩]))
        ⟨.response, 1, 0, 0, [⟨⟨[1, 3, 1, 2]⟩, .integer 2⟩]⟩]) ∧
    ∃ t, Agent.plain.process (.ofCommunity .v2c [] Next.browser.peer (.askingBulk 1 0 2 [⟨[1, 3, 1]⟩])) marked =
      .done (.ok ()) t ∧ t.sent ≠ [Outbound.replyTo
        (.ofCommunity .v2c [] Next.browser.peer (.askingBulk 1 0 2 [⟨[1, 3, 1]⟩]))
        ⟨.response, 1, 0, 0, [⟨⟨[1, 3, 1, 1]⟩, .noSuchInstance⟩, ⟨⟨[1, 3, 1, 2]⟩, .integer 2⟩]⟩] := by
  refine ⟨⟨_, rfl, ?_⟩, ⟨_, rfl, ?_⟩, ⟨_, rfl, ?_⟩⟩
  · decide +kernel
  · decide +kernel
  · decide +kernel

end Responder.Bulk
