import Responder.Proofs.Next.Disclosure
import Responder.Proofs.Reading

/-! Searches that objects decline. An object may say that it has nothing, whatever it was found to have. The search
    then goes on from where the region of the object ends, and as that end belongs to what is left, it alone is
    authorized, as if it were what is asked for. So what a search shows lies in the view (`within_of_passes`), but
    for what lies past the end of an object that has declined, where the view allows that end
    (`not_within_of_declining`). -/

namespace Responder.Next

/-! ### Objects that may decline -/

/-- What objects promise: to find their first variable in any region, and to search for it on their own terms, where
they say what it is or that there is nothing. -/
structure Obeys {Obj : Type} [ManagedObject Obj] (holds : Obj → Prop) (value? : Obj → Oid → Option Value) : Prop where
  find : ∀ x r o, holds x → ManagedObject.find? x r = some o → First (value? x) r.toRange o
  next : ∀ x who item, holds x → ∃ x' edits answer, ManagedObject.call .next who item x = ⟨x', edits, .ok answer⟩ ∧
    holds x' ∧ (answer = true → ∃ o v, First (value? x) item.region.toRange o ∧ (item.editAll edits).binding = ⟨o, v⟩)

variable {Obj : Type} {holds : Obj → Prop} {registry : Nat} {entries : List Entry} {who : Requester}
  {allows : Oid → Bool} {s t : State Obj} {x : Item} {o : Oid}

/-- The registered objects are as they have promised to be. -/
structure Ground (holds : Obj → Prop) (registry : Nat) (entries : List Entry) (s : State Obj) : Prop where
  objects : ∀ e ∈ entries, holds (s.objects e.object)
  entries : (s.registry registry).entries = entries

/-- What others do meanwhile: objects stay as they have promised to be, and what has happened has happened. -/
structure Others (holds : Obj → Prop) (registry : Nat) (entries : List Entry) (s t : State Obj) : Prop where
  ground : Ground holds registry entries s → Ground holds registry entries t
  journal : ∀ st ∈ s.journal, st ∈ t.journal

/-- An object has declined a search for somebody, and its region ends just below the identifier. -/
def Declined (entries : List Entry) (who : Requester) (s : State Obj) (o : Oid) : Prop :=
  ∃ e ∈ entries, e.region.upper = some o ∧ e.region.upperIncluded = false ∧
    ∃ st ∈ s.journal, st.who = who ∧ st.callback = .next ∧ st.object = some e.object ∧ st.result = .ok false

/-- What a search may show: a marker, or nothing, or a variable that the view allows, or one past the end of an object
that has declined, if the view allows that end. -/
def Within (entries : List Entry) (who : Requester) (allows : Oid → Bool) (s : State Obj) (b : Binding) : Prop :=
  b.value.isException = true ∨ b.value = .null ∨ allows b.oid = true ∨
    ∃ o, Declined entries who s o ∧ allows o = true ∧ o ≤ b.oid

/-- An item that searches on from where an object has declined, or past an identifier. -/
structure Seeks (entries : List Entry) (who : Requester) (x : Item) (s : State Obj) : Prop where
  upper : x.region.upper = none
  lower : x.region.lowerIncluded = true → Declined entries who s x.region.lower

/-- An item that still searches, or shows what it may. -/
structure Heeds (entries : List Entry) (who : Requester) (allows : Oid → Bool) (x : Item) (s : State Obj) : Prop where
  seeks : x.complete = false → Seeks entries who x s
  shows : x.complete = true → Within entries who allows s x.binding

/-! ### What time does not change -/

theorem Ground.bare (hbare : t.bare = s.bare) (h : Ground holds registry entries s) : Ground holds registry entries t :=
  ⟨State.objects_eq_of_bare hbare ▸ h.objects, State.entries_eq_of_bare hbare registry ▸ h.entries⟩

section Mono
variable (hjournal : ∀ st ∈ s.journal, st ∈ t.journal)
include hjournal

theorem Declined.mono (h : Declined entries who s o) : Declined entries who t o := by
  obtain ⟨e, he, hupper, hincluded, st, hst, hstep⟩ := h
  exact ⟨e, he, hupper, hincluded, st, hjournal st hst, hstep⟩

theorem Within.mono {b : Binding} (h : Within entries who allows s b) : Within entries who allows t b := by
  refine h.imp_right (Or.imp_right (Or.imp_right ?_))
  rintro ⟨o, hdeclined, ho⟩
  exact ⟨o, hdeclined.mono hjournal, ho⟩

theorem Seeks.mono (h : Seeks entries who x s) : Seeks entries who x t :=
  ⟨h.upper, fun hlower => (h.lower hlower).mono hjournal⟩

theorem Heeds.mono (h : Heeds entries who allows x s) : Heeds entries who allows x t :=
  ⟨fun hopen => (h.seeks hopen).mono hjournal, fun hclosed => (h.shows hclosed).mono hjournal⟩

theorem fit_mono {xs : List Item} (hground : Ground holds registry entries t)
    (h : Fit (Ground holds registry entries) (Heeds entries who allows) xs s) :
    Fit (Ground holds registry entries) (Heeds entries who allows) xs t :=
  ⟨hground, fun x hx => (h.items x hx).mono hjournal⟩

end Mono

theorem steady_fit {xs : List Item} {number : Nat} : Steady (Others holds registry entries) number fun s : State Obj =>
    Seeks entries who x s ∧ Fit (Ground holds registry entries) (Heeds entries who allows) xs s where
  locks {s t} hlocks := by
    rintro ⟨hx, h⟩
    have hsame := State.journal_eq_of_bare hlocks.bare
    have hjournal : ∀ st ∈ s.journal, st ∈ t.journal := fun st hst => hsame.symm ▸ hst
    exact ⟨hx.mono hjournal, fit_mono hjournal (h.state.bare hlocks.bare) h⟩
  others {s t} hrely := by
    rintro ⟨hx, h⟩
    exact ⟨hx.mono hrely.journal, fit_mono hrely.journal (hrely.ground h.state) h⟩

theorem Heeds.rest (h : Heeds entries who allows x s) : Heeds entries who allows { x with deferred := false } s :=
  ⟨fun hopen => ⟨(h.seeks hopen).upper, (h.seeks hopen).lower⟩, h.shows⟩

/-! ### Searching -/

section Search
variable [ManagedObject Obj] {value? : Obj → Oid → Option Value} {p : Policy} {e : Entry}

/-- What an object says in answer to a search that has accepted it. -/
theorem within_of_accepts (hobeys : Obeys holds value?) {object : Obj} (hholds : holds object)
    (hx : Seeks entries who x s) (haccepts : (p.query who x.region false).accepts object = true) {v : Value}
    (hfirst : First (value? object) x.region.toRange o) : Within entries who (p.allows who) s ⟨o, v⟩ := by
  cases hlower : x.region.lowerIncluded with
  | false =>
    rw [Query.accepts_search hx.upper hlower, Option.any_eq_true, Policy.allows_query] at haccepts
    obtain ⟨y, hy, hallows⟩ := haccepts
    obtain rfl : y = o := (hobeys.find _ _ _ hholds hy).eq hfirst
    exact Or.inr (Or.inr (Or.inl hallows))
  | true =>
    rw [Query.accepts_point hlower, Policy.allows_query] at haccepts
    have hle := (Range.contains_iff.mp hfirst.inside).1
    rw [Range.first, if_pos hlower] at hle
    exact Or.inr (Or.inr (Or.inr ⟨x.region.lower, hx.lower hlower, haccepts, hle⟩))

omit [ManagedObject Obj] in
/-- Above the region of an object that has declined, the search goes on from its end, unless it was past that
already. -/
theorem Seeks.above {item : Item} (hx : Seeks entries who x s) (he : e ∈ entries)
    (hstep : ∃ st ∈ s.journal, st.who = who ∧ st.callback = .next ∧ st.object = some e.object ∧ st.result = .ok false)
    (hregion : item.region = x.region.above e.region.toRange) (hleft : item.region.isEmpty = false) :
    Seeks entries who item s := by
  rw [hregion] at hleft
  obtain ⟨up, hup⟩ := Range.exists_upper_of_above hleft
  have habove : item.region.toRange = x.region.toRange.above e.region.toRange := congrArg Region.toRange hregion
  rcases Range.above_eq (r := x.region.toRange) hup with heq | heq <;> rw [← habove] at heq
  · refine ⟨(congrArg Range.upper heq).trans hx.upper, fun hlower => ?_⟩
    have hincluded : e.region.upperIncluded = false := by
      simpa using (congrArg Range.lowerIncluded heq).symm.trans hlower
    rw [show item.region.lower = up from congrArg Range.lower heq]
    exact ⟨e, he, hup, hincluded, hstep⟩
  · refine ⟨(congrArg Range.upper heq).trans hx.upper, fun hlower => ?_⟩
    rw [show item.region.lower = x.region.lower from congrArg Range.lower heq]
    exact hx.lower ((congrArg Range.lowerIncluded heq).symm.trans hlower)

/-- A call that keeps the promise of an object keeps the ground, and goes into the journal. -/
theorem call_next {object : Obj} {edits : List Edit} {answer : Bool} (hground : Ground holds registry entries s)
    (hcall : ManagedObject.call .next who x (s.objects e.object) = ⟨object, edits, .ok answer⟩)
    (hholds : holds object) : (s.call .next who e.object x).1 = (x.editAll edits, .ok answer) ∧
      (∀ st ∈ s.journal, st ∈ (s.call .next who e.object x).2.journal) ∧
      Ground holds registry entries (s.call .next who e.object x).2 ∧
      ∃ st ∈ (s.call .next who e.object x).2.journal, st.who = who ∧ st.callback = .next ∧
        st.object = some e.object ∧ st.result = .ok answer := by
  simp only [State.call, hcall, true_and]
  refine ⟨fun st hst => List.mem_append_left _ hst, ⟨fun e' he' => ?_, hground.entries⟩, _,
    List.mem_append_right _ (List.mem_singleton.mpr rfl), rfl, rfl, rfl, rfl⟩
  simp only [State.setObject]
  split
  · exact hholds
  · exact hground.objects e' he'

theorem serve_ensures (hobeys : Obeys holds value?) : ∀ (patience : Nat) (x : Item) (xs : List Item) (s : State Obj),
    Seeks entries who x s → Fit (Ground holds registry entries) (Heeds entries who (p.allows who)) (x :: xs) s →
      (serve p registry who patience x).Ensures (Others holds registry entries) (Ground holds registry entries) s
        fun out t => Fit (Ground holds registry entries) (Heeds entries who (p.allows who)) (out.1 :: xs) t
  | 0, x, xs, s, _, h => h
  | patience + 1, x, xs, s, hx, h => by
    simp only [serve, Activity.ensures_bind]
    have hentries (s : State Obj) (hs : Seeks entries who x s ∧
        Fit (Ground holds registry entries) (Heeds entries who (p.allows who)) (x :: xs) s) :
        ∀ e ∈ (s.registry registry).entries, (p.query who x.region false).region.overlaps e.region = true →
          e ∈ entries := fun e he _ => hs.2.state.entries ▸ he
    refine (Lookup.run_ensures steady_fit hentries p.patience ⟨hx, h⟩).mono (fun _ h => h.2.state) ?_
    rintro f t ⟨⟨hx, h⟩, hsound⟩
    cases hfound : f.entry with
    | none =>
      dsimp only
      split
      · exact h.tail.cons ⟨fun _ => ⟨hx.upper, hx.lower⟩, (h.items x List.mem_cons_self).shows⟩
      · exact h.tail.cons ⟨fun hopen => (by cases hopen), fun _ => Or.inl rfl⟩
    | some e =>
      obtain ⟨he, haccepts⟩ := hsound e hfound
      have hholds := h.state.objects e he
      obtain ⟨object, edits, answer, hcall, hafter, hanswer⟩ := hobeys.next _ who x hholds
      obtain ⟨hcalled, hjournal, hground, hstep⟩ := call_next h.state hcall hafter
      simp only [Activity.ensures_bind, callObject, Activity.ensures_modifyGet, hcalled]
      refine (f.release_ensures registry who e.object _).mono (fun _ => id) ?_
      rintro ⟨⟩ u ⟨hbare, -⟩
      rw [← State.journal_eq_of_bare hbare] at hjournal hstep
      have hshown := fun v o => within_of_accepts (o := o) (v := v) hobeys hholds hx haccepts
      have hx := hx.mono hjournal
      have h := fit_mono hjournal (hground.bare hbare) h.tail
      cases answer with
      | true =>
        obtain ⟨o, v, hfirst, hbinding⟩ := hanswer rfl
        dsimp only
        split
        · -- The search goes on past a counter that cannot be carried.
          have hpast : Seeks entries who { (x.editAll edits).setValue .null with
              region := (x.editAll edits).region.past (x.editAll edits).oid } u := by
            refine ⟨?_, fun hlower => absurd hlower Bool.false_ne_true⟩
            show (x.editAll edits).region.upper = none
            rw [Item.editAll_region]
            exact hx.upper
          exact serve_ensures hobeys patience _ xs u hpast
            (h.cons ⟨fun _ => hpast, fun _ => Or.inr (Or.inl rfl)⟩)
        · have hwithin : Within entries who (p.allows who) u (x.editAll edits).binding :=
            hbinding ▸ (hshown v o hfirst).mono hjournal
          have hregion : Seeks entries who (x.editAll edits) u := by
            refine ⟨?_, ?_⟩ <;> rw [Item.editAll_region]
            · exact hx.upper
            · exact hx.lower
          refine h.cons ?_
          dsimp only
          split
          · exact ⟨fun _ => hregion, fun _ => hwithin⟩
          · exact ⟨fun hopen => (by cases hopen), fun _ => hwithin⟩
      | false =>
        dsimp only
        split
        · exact h.cons ⟨fun hopen => (by cases hopen), fun _ => Or.inl rfl⟩
        · next hleft =>
          rw [Item.editAll_region, Bool.not_eq_true] at hleft
          have hon : Seeks entries who { (x.editAll edits).setValue .null with
              region := (x.editAll edits).region.above e.region.toRange } u := by
            rw [Item.editAll_region]
            exact hx.above he hstep rfl hleft
          exact serve_ensures hobeys patience _ xs u hon (h.cons ⟨fun _ => hon, fun _ => Or.inr (Or.inl rfl)⟩)

theorem tends_serve (hobeys : Obeys holds value?) (patience : Nat) :
    Tends (Others holds registry entries) (Ground holds registry entries) (Heeds entries who (p.allows who))
      (serve p registry who patience) := fun x xs s hopen h =>
  serve_ensures hobeys patience x xs s ((h.items x List.mem_cons_self).seeks hopen) h

omit [ManagedObject Obj] in
theorem Heeds.repetition (index : Nat) : Heeds entries who allows (x.repetition index) s := by
  have hseeks (item : Item) (h : item.region.toRange = Range.after x.oid) : Seeks entries who item s :=
    ⟨congrArg Range.upper h,
      fun hlower => (Bool.false_ne_true ((congrArg Range.lowerIncluded h).symm.trans hlower)).elim⟩
  unfold Item.repetition
  dsimp only
  split
  · next hmarker => exact ⟨fun _ => hseeks _ rfl, fun _ => Or.inl hmarker⟩
  · exact ⟨fun _ => hseeks _ rfl, fun hclosed => absurd hclosed Bool.false_ne_true⟩

end Search

/-! ### Answers -/

/-- Whatever is answered to a search under a view, in one binding or another, is a marker, or nothing, or a variable in
the view, or it lies past the end of an object that has declined. -/
theorem within_of_passes [ManagedObject Obj] {value? : Obj → Oid → Option Value} (hobeys : Obeys holds value?)
    {a : Agent Obj} {tables : Vacm.Tables} {name : Octets} (haccess : a.access = some tables)
    (hview : who.view = some name) {service : Service Obj} (hservice : service ∈ [Next.service, Bulk.service])
    {pdu : Pdu} (hserves : service.serves pdu.kind = true) {maxSize : Nat} {created : Instant}
    (hground : Ground holds registry entries s) {r : Request}
    (hpasses : Passes (service.run a.policy registry) (Others holds registry entries)
      (.start who pdu maxSize created) s (.done (r, none) t)) (hc : r.isComplete = true) (m : Inbound) :
    ∀ out ∈ (a.finish r m (some registry) t).2.sent, out ∈ t.sent ∨
      ∀ b ∈ out.pdu.bindings, Within entries who (tables.allows name) t b := by
  have hkind : pdu.kind ≠ .set ∧ pdu.kind.isSearch = true := by
    rcases List.mem_pair.mp hservice with rfl | rfl <;>
      rw [show pdu.kind = _ from eq_of_beq hserves] <;> exact ⟨by decide, rfl⟩
  have hrun (r : Request) (s : State Obj) (hwho : r.begin.requester = who)
      (hfit : Fit (Ground holds registry entries) (Heeds entries who (tables.allows name)) r.begin.items s) :
      (service.run a.policy registry r).Ensures (Others holds registry entries) (Ground holds registry entries) s
        fun out t => Read (Ground holds registry entries) (Heeds entries who (tables.allows name)) r.begin out.1 t := by
    have htends : Tends (Others holds registry entries) (Ground holds registry entries)
        (Heeds entries who (tables.allows name)) (search a.policy registry r.begin.requester) := by
      rw [hwho, ← Policy.allows_of_view (p := a.policy) haccess hview]
      exact .search (tends_serve hobeys)
    rcases List.mem_pair.mp hservice with rfl | rfl
    · exact Next.run_ensures htends hfit
    · exact Bulk.run_ensures htends (fun x index s _ => Heeds.repetition index) hfit
  have hstart (index : Nat) (b : Binding) : Heeds entries who (tables.allows name)
      { index, binding := b, region := Request.regionOf pdu who.context b.oid } s := by
    rw [regionOf_search hkind.2]
    exact ⟨fun _ => ⟨rfl, fun hlower => (Bool.false_ne_true hlower).elim⟩,
      fun hclosed => (Bool.false_ne_true hclosed).elim⟩
  have hunder := hpasses.underway hkind.1 hrun (fun _ _ hrely => hrely.ground)
    (fun x s t hrely hx => (hx.mono hrely.journal).rest) hground fun index b _ => hstart index b
  rw [Progress.ensures_done] at hunder
  intro out hout
  refine (Agent.mem_sent_finish hout).imp_right fun hitems b hb => ?_
  obtain ⟨x, hx, rfl | rfl⟩ := hitems b hb
  · exact (hunder.fit.items x hx).shows (hunder.complete hc x hx)
  · exact Or.inr (Or.inl rfl)

/-! ### An object that declines -/

/-- The variables that an instrument has. -/
def held? : Instrument → Oid → Option Value
  | .scalar s => (Store.scalar s).value?
  | .table t => (Store.table t).value?
  | .constant c => fun o => if o = c.oid then some c.value else none
  | .scripted s => s.values.get?

/-- Stores, constants, and scripted objects that do nothing in a search but what a plain table does, or decline it. -/
def Willing : Instrument → Prop
  | .scalar _ | .constant _ => True
  | .table t => (Store.table t).WellFormed
  | .scripted s => s.values.Sorted ∧
    ∀ action ∈ s.script .next, action.edits = [] ∧ action.fault = none ∧ (action.plain = true ∨ action.declines = true)

theorem first_of_firstIn? {m : OidMap Value} (hm : m.Sorted) {r : Range} {o : Oid} {v : Value}
    (h : m.firstIn? r = some (o, v)) : First m.get? r o := by
  obtain ⟨hmem, hin, hleast⟩ := (OidMap.firstIn?_eq_some_iff hm).mp h
  refine ⟨Option.isSome_iff_exists.mpr ⟨v, (OidMap.get?_eq_some_iff hm).mpr hmem⟩, hin, fun o' ho' hin' => ?_⟩
  obtain ⟨v', hv'⟩ := Option.isSome_iff_exists.mp ho'
  rcases hleast (o', v') ((OidMap.get?_eq_some_iff hm).mp hv') hin' with heq | hlt
  · exact (congrArg Prod.fst heq).ge
  · exact hlt.le

theorem first_of_single {r : Range} {o : Oid} {v : Value} (h : r.contains o = true) :
    First (fun o' => if o' = o then some v else none) r o :=
  ⟨by simp, h, fun o' ho' _ => by simp_all⟩

theorem find_of_willing {x : Instrument} {r : Region} {o : Oid} (hx : Willing x)
    (h : ManagedObject.find? x r = some o) : First (held? x) r.toRange o := by
  have hsingle (o' : Oid) (v : Value) (h : (if r.contains o' then some o' else none) = some o) :
      First (fun o => if o = o' then some v else none) r.toRange o := by
    rw [Option.ite_none_right_eq_some, Option.some.injEq] at h
    obtain ⟨hin, rfl⟩ := h
    exact first_of_single hin
  have hmany (m : OidMap Value) (hm : m.Sorted) (h : (m.firstIn? r.toRange).map (·.1) = some o) :
      First m.get? r.toRange o := by
    obtain ⟨⟨o, v⟩, hfirst, rfl⟩ := Option.map_eq_some_iff.mp h
    exact first_of_firstIn? hm hfirst
  cases x with
  | scalar s => exact hsingle s.oid s.value h
  | table t => exact hmany t.values hx.1 h
  | constant c => exact hsingle c.oid c.value h
  | scripted s => exact hmany s.values hx.1 h

/-- What a plain table does in a search. -/
theorem plainly_next {s : Scripted} (hs : s.values.Sorted) (item : Item) : ∃ edits answer,
    s.plainly .next item = ⟨s, edits, .ok answer⟩ ∧ (answer = true → ∃ o v,
      First s.values.get? item.region.toRange o ∧ (item.editAll edits).binding = ⟨o, v⟩) := by
  unfold Scripted.plainly
  dsimp only
  split
  · next o v hfirst => exact ⟨_, _, rfl, fun _ => ⟨o, v, first_of_firstIn? hs hfirst, rfl⟩⟩
  · exact ⟨_, _, rfl, fun h => (Bool.false_ne_true h).elim⟩

/-- A scripted object does what a plain table does, or declines. -/
theorem next_of_scripted {s : Scripted} (hs : Willing (.scripted s)) (who : Requester) (item : Item) :
    ∃ object edits answer, ManagedObject.call .next who item (Instrument.scripted s) = ⟨object, edits, .ok answer⟩ ∧
      Willing object ∧ (answer = true → ∃ o v, First s.values.get? item.region.toRange o ∧
        (item.editAll edits).binding = ⟨o, v⟩) := by
  obtain ⟨hsorted, hscript⟩ := hs
  cases hactions : s.script .next with
  | nil =>
    obtain ⟨edits, answer, heq, hfirst⟩ := plainly_next hsorted item
    refine ⟨.scripted s, edits, answer, ?_, ⟨hsorted, hscript⟩, hfirst⟩
    simp only [ManagedObject.call, ManagedObject.next, Instrument.forward, Scripted.react, hactions, heq,
      Reaction.mapObject]
  | cons action rest =>
    obtain ⟨hedits, hfault, hplain⟩ := hscript action (by simp [hactions])
    have hafter : Willing (.scripted (s.advance .next)) := by
      refine ⟨hsorted, fun action haction => hscript action ?_⟩
      have hrest : action ∈ (s.script .next).tail := by simpa [Scripted.advance] using haction
      exact List.mem_of_mem_tail hrest
    cases hp : action.plain with
    | true =>
      obtain ⟨edits, answer, heq, hfirst⟩ := plainly_next (s := s.advance .next) hsorted item
      refine ⟨.scripted (s.advance .next), edits, answer, ?_, hafter, hfirst⟩
      simp only [ManagedObject.call, ManagedObject.next, Instrument.forward, Scripted.react, hactions,
        Scripted.play, hp, if_true, heq, hedits, hfault, List.append_nil, Reaction.mapObject]
    | false =>
      have hdeclines : action.declines = true := hplain.resolve_left (by simp [hp])
      refine ⟨.scripted (s.advance .next), [], false, ?_, hafter, fun h => (Bool.false_ne_true h).elim⟩
      simp [ManagedObject.call, ManagedObject.next, Instrument.forward, Scripted.react, hactions,
        Scripted.play, hp, hedits, hfault, hdeclines, Reaction.mapObject]

theorem obeys_willing : Obeys Willing held? where
  find x r o hx hfind := find_of_willing hx hfind
  next x who item hx := by
    have hsingle (o : Oid) (v : Value) : ∃ edits answer,
        (if item.region.contains o = true then (⟨x, [.setBinding o v], .ok true⟩ : Reaction Instrument Bool)
          else ⟨x, [], .ok false⟩) = ⟨x, edits, .ok answer⟩ ∧ (answer = true → ∃ o' v',
            First (fun o' => if o' = o then some v else none) item.region.toRange o' ∧
              (item.editAll edits).binding = ⟨o', v'⟩) := by
      split
      · next hin => exact ⟨_, _, rfl, fun _ => ⟨o, v, first_of_single hin, rfl⟩⟩
      · exact ⟨_, _, rfl, fun h => (Bool.false_ne_true h).elim⟩
    cases x with
    | scalar s =>
      obtain ⟨edits, answer, heq, hfirst⟩ := hsingle s.oid s.value
      refine ⟨_, edits, answer, Eq.trans ?_ heq, hx, hfirst⟩
      simp only [ManagedObject.call, ManagedObject.next, Instrument.forward]
      split <;> rfl
    | constant c =>
      obtain ⟨edits, answer, heq, hfirst⟩ := hsingle c.oid c.value
      refine ⟨_, edits, answer, Eq.trans ?_ heq, hx, hfirst⟩
      simp only [ManagedObject.call, ManagedObject.next, Instrument.forward]
      split <;> rfl
    | table t =>
      cases hfirst : t.values.firstIn? item.region.toRange with
      | some found =>
        refine ⟨.table t, [.setBinding found.1 found.2], true, ?_, hx, fun _ =>
          ⟨found.1, found.2, first_of_firstIn? hx.1 hfirst, rfl⟩⟩
        simp only [ManagedObject.call, ManagedObject.next, Instrument.forward, hfirst, Reaction.mapObject]
      | none =>
        refine ⟨.table t, [], false, ?_, hx, fun h => (Bool.false_ne_true h).elim⟩
        simp only [ManagedObject.call, ManagedObject.next, Instrument.forward, hfirst, Reaction.mapObject]
    | scripted s => exact next_of_scripted hx who item

/-- An object that declines the first search, and a scalar behind it. -/
def gallery : State Instrument where
  objects id :=
    match id.number with
    | 0 => .scripted {
        region := .subtree ⟨[1, 3, 1]⟩
        values := ⟨[(⟨[1, 3, 1, 1]⟩, .integer 1)]⟩
        script := fun | .next => [{ declines := true }] | _ => [] }
    | _ => .scalar { oid := ⟨[1, 3, 2, 1]⟩, value := .integer 2, writable := false }
  registries := [{
    entries := [⟨.subtree ⟨[1, 3, 1]⟩, ⟨0⟩⟩, ⟨.subtree ⟨[1, 3, 2]⟩, ⟨1⟩⟩]
    regions := [(⟨⟨1⟩, none⟩, .subtree ⟨[1, 3, 2]⟩), (⟨⟨0⟩, none⟩, .subtree ⟨[1, 3, 1]⟩)] }]
  outstanding := ⟨.seconds 300, []⟩

/-- Everybody may read everything but the scalar. -/
def curtain : Vacm.Tables := { screen with views := [([118], ⟨[⟨⟨[1, 3]⟩, [], true⟩, ⟨⟨[1, 3, 2, 1]⟩, [], false⟩]⟩)] }

def curtained : Agent Instrument := { Agent.plain with access := some curtain }

/-- A search that begins before the object that declines. -/
def wandering : Pdu := .asking .getNext 1 [⟨[1, 3, 1]⟩]

theorem gallery_ground : Ground Willing 0 (gallery.registry 0).entries gallery := by
  refine ⟨fun e _ => ?_, rfl⟩
  show Willing (match e.object.number with | 0 => _ | _ => _)
  split
  · refine ⟨List.pairwise_singleton _ _, fun action haction => ?_⟩
    rw [show action = { declines := true } from List.mem_singleton.mp haction]
    exact ⟨rfl, rfl, Or.inr rfl⟩
  · trivial

/-- What the search comes to behind the object that has declined is not in the view, but past the end of the object. -/
theorem within_of_wandering : ∃ r t out,
    Passes (Next.service.run curtained.policy 0) (Others Willing 0 (gallery.registry 0).entries)
      (.start visitor wandering 484 ⟨0⟩) gallery (.done (r, none) t) ∧ r.isComplete = true ∧
        (curtained.finish r (.ofCommunity .v2c [] browser.peer wandering) (some 0) t).2.sent = [out] ∧
          ∀ b ∈ out.pdu.bindings, Within (gallery.registry 0).entries visitor (curtain.allows [118]) t b := by
  let m : Inbound := .ofCommunity .v2c [] browser.peer wandering
  have hrun : (Next.run curtained.policy 0 (.start visitor wandering 484 ⟨0⟩) gallery).result?.any (fun x =>
      x.1.2 = none ∧ x.1.1.isComplete = true ∧ x.2.sent = [] ∧
        (curtained.finish x.1.1 m (some 0) x.2).2.sent.length = 1) = true := by
    decide +kernel
  rw [Option.any_eq_true] at hrun
  obtain ⟨⟨⟨r, error⟩, t⟩, hresult, htest⟩ := hrun
  obtain ⟨rfl, hcomplete, hbefore, hone⟩ := of_decide_eq_true htest
  obtain ⟨out, hout⟩ := List.length_eq_one_iff.mp hone
  have hpasses : Passes (Next.service.run curtained.policy 0) (Others Willing 0 (gallery.registry 0).entries)
      (.start visitor wandering 484 ⟨0⟩) gallery (.done (r, none) t) := Progress.eq_done_of_result? hresult ▸ .first
  have hwithin := within_of_passes obeys_willing (a := curtained) rfl rfl (List.mem_pair.mpr (Or.inl rfl)) rfl
    gallery_ground hpasses hcomplete m out (by rw [hout]; exact List.mem_singleton.mpr rfl)
  have hnew : out ∉ t.sent := by
    rw [show t.sent = [] from hbefore]
    exact List.not_mem_nil
  exact ⟨r, t, out, hpasses, hcomplete, hout, hwithin.resolve_left hnew⟩

/-- The scalar that the view keeps is shown, as the object before it has declined. -/
theorem not_within_of_declining : (∃ t, curtained.process (.ofCommunity .v2c [] browser.peer wandering) gallery =
    .done (.ok ()) t ∧ t.sent = [Outbound.replyTo (.ofCommunity .v2c [] browser.peer wandering)
      ⟨.response, 1, 0, 0, [⟨⟨[1, 3, 2, 1]⟩, .integer 2⟩]⟩]) ∧ curtain.allows [118] ⟨[1, 3, 2, 1]⟩ = false := by
  refine ⟨⟨_, rfl, ?_⟩, by decide⟩
  decide +kernel

end Responder.Next
