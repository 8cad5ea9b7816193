import Responder.Proofs.Agent
import Responder.Proofs.Items
import Responder.Proofs.Reading
import Responder.Proofs.Store
import Responder.Proofs.View

/-! The search for the variable that follows. An object reads faithfully (`Reads`) if it finds the first of its
    variables in any region and says what that holds. The entries that a context sees stand in the order of their
    variables, so a search comes to the first variable that any of them has on offer (`Discloses`); without a view
    that is what follows (`follows_of_admits`). -/

namespace Responder.Next

/-! ### Objects -/

/-- The first variable in a range. -/
structure First (value? : Oid → Option Value) (r : Range) (o : Oid) : Prop where
  present : (value? o).isSome = true
  inside : r.contains o = true
  least : ∀ o', (value? o').isSome = true → r.contains o' = true → o ≤ o'

theorem First.eq {value? : Oid → Option Value} {r : Range} {o o' : Oid} (h : First value? r o)
    (h' : First value? r o') : o = o' :=
  le_antisymm (h.least o' h'.present h'.inside) (h'.least o h.present h.inside)

/-- An object has these variables, all in its scope, as long as it is in one of these states: it finds the first one
in any region, and reads it. -/
structure Reads {Obj : Type} [ManagedObject Obj] (holds : Obj → Prop) (scope : Range) (value? : Oid → Option Value) :
    Prop where
  inside : ∀ o, (value? o).isSome = true → scope.contains o = true
  first : ∀ x r o, holds x → ManagedObject.find? x r = some o → First value? r.toRange o
  nothing : ∀ x r o, holds x → ManagedObject.find? x r = none → (value? o).isSome = true → r.contains o = false
  next : ∀ x who item o, holds x → ManagedObject.find? x item.region = some o →
    ∃ v x' edits, value? o = some v ∧ ManagedObject.call .next who item x = ⟨x', edits, .ok true⟩ ∧ holds x' ∧
      (item.editAll edits).binding = ⟨o, v⟩ ∧ (item.editAll edits).status = item.status ∧
        (item.editAll edits).deferred = item.deferred

section Stores
variable {Obj : Type} [ManagedObject Obj] [Store.Among Obj]

theorem reads_scalar (s : Scalar) : Reads (fun x : Obj => x = Store.Among.put (.scalar s))
    (ManagedObject.region (Store.scalar s)).toRange (Store.scalar s).value? := by
  have hvalue (o : Oid) : ((Store.scalar s).value? o).isSome = true ↔ o = s.oid := by simp [Store.value?]
  have hfind (r : Region) : ManagedObject.find? (Store.Among.put (.scalar s) : Obj) r =
      if r.contains s.oid then some s.oid else none := Store.Among.find?_put _ r
  refine ⟨fun o ho => ?_, ?_, ?_, ?_⟩
  · obtain rfl := (hvalue o).mp ho
    show (Range.subtree (s.oid.parent?.getD s.oid)).contains s.oid = true
    rw [Range.contains_subtree]
    cases hparent : s.oid.parent? with
    | none => exact s.oid.isUnder_self
    | some parent => exact Oid.parent_le hparent
  · rintro _ r o rfl hsome
    rw [hfind, Option.ite_none_right_eq_some, Option.some.injEq] at hsome
    obtain ⟨hin, rfl⟩ := hsome
    exact ⟨(hvalue _).mpr rfl, hin, fun o' ho' _ => ((hvalue o').mp ho').ge⟩
  · rintro _ r o rfl hnone ho
    rw [hfind, ite_eq_right_iff] at hnone
    obtain rfl := (hvalue o).mp ho
    cases hin : r.contains s.oid with
    | false => rfl
    | true => cases hnone hin
  · rintro _ who item o rfl hsome
    rw [Store.Among.find?_put] at hsome
    obtain ⟨v, hv, hcall⟩ := Store.call_next (.scalar s) who item trivial hsome
    refine ⟨v, _, [.setBinding o v], hv, ?_, rfl, rfl, rfl, rfl⟩
    rw [Store.Among.call_put, hcall]
    rfl

theorem reads_table {t : Table} (ht : (Store.table t).WellFormed) :
    Reads (fun x : Obj => x = Store.Among.put (.table t)) (ManagedObject.region (Store.table t)).toRange
      (Store.table t).value? := by
  have hvalue (o : Oid) : ((Store.table t).value? o).isSome = true ↔ ∃ v, (o, v) ∈ t.values.entries := by
    rw [Option.isSome_iff_exists]
    exact exists_congr fun v => OidMap.get?_eq_some_iff ht.1
  have hfind (r : Region) : ManagedObject.find? (Store.Among.put (.table t) : Obj) r =
      (t.values.firstIn? r.toRange).map (·.1) := Store.Among.find?_put _ r
  refine ⟨fun o ho => ?_, ?_, ?_, ?_⟩
  · obtain ⟨v, hv⟩ := Option.isSome_iff_exists.mp ho
    have hheld := ht.2 o v hv
    rw [Table.holds, Bool.and_eq_true] at hheld
    show (Range.subtree t.root).contains o = true
    rw [Range.contains_subtree]
    exact hheld.1
  · rintro _ r o rfl hsome
    rw [hfind, Option.map_eq_some_iff] at hsome
    obtain ⟨⟨o, v⟩, hfirst, rfl⟩ := hsome
    obtain ⟨hmem, hin, hleast⟩ := (OidMap.firstIn?_eq_some_iff ht.1).mp hfirst
    refine ⟨(hvalue o).mpr ⟨v, hmem⟩, hin, fun o' ho' hin' => ?_⟩
    obtain ⟨v', hmem'⟩ := (hvalue o').mp ho'
    rcases hleast (o', v') hmem' hin' with heq | hlt
    · exact (congrArg Prod.fst heq).ge
    · exact hlt.le
  · rintro _ r o rfl hnone ho
    rw [hfind, Option.map_eq_none_iff] at hnone
    obtain ⟨v, hmem⟩ := (hvalue o).mp ho
    exact (OidMap.firstIn?_eq_none_iff ht.1).mp hnone (o, v) hmem
  · rintro _ who item o rfl hsome
    rw [Store.Among.find?_put] at hsome
    obtain ⟨v, hv, hcall⟩ := Store.call_next (.table t) who item ht hsome
    refine ⟨v, _, [.setBinding o v], hv, ?_, rfl, rfl, rfl, rfl⟩
    rw [Store.Among.call_put, hcall]
    rfl

/-- A store reads faithfully. -/
theorem reads_store {b : Store} (hb : b.WellFormed) :
    Reads (fun x : Obj => x = Store.Among.put b) (ManagedObject.region b).toRange b.value? := by
  cases b with
  | scalar s => exact reads_scalar s
  | table t => exact reads_table hb

end Stores

/-! ### What follows -/

/-- What there is to be searched: the state before the search, what the objects have, and the states in which they
have it. -/
structure Survey (Obj : Type) where
  registry : Nat
  context : ContextName
  before : State Obj
  holds : ObjectId → Obj → Prop
  value? : ObjectId → Oid → Option Value

namespace Survey
variable {Obj : Type} (V : Survey Obj)

def entries : List Entry := (V.before.registry V.registry).entries

/-- The context sees a variable with its value. -/
def Sees (x : Binding) : Prop :=
  ∃ e ∈ V.entries, e.region.seenIn V.context = true ∧ V.value? e.object x.oid = some x.value

/-- The answer to a search past an identifier: the first variable there that the context sees, with its value. The
view ends just if there is none. -/
structure Follows (o : Oid) (x : Binding) : Prop where
  first : (∃ y, V.Sees y ∧ o < y.oid) → V.Sees x ∧ o < x.oid ∧ ∀ y, V.Sees y → o < y.oid → x.oid ≤ y.oid
  nothing : x = ⟨o, .endOfMibView⟩ ↔ ∀ y, V.Sees y → ¬o < y.oid

/-- Past an identifier, an object that the context sees has its first variable there on offer, if the view allows that
one. -/
def Offers (allows : Oid → Bool) (o : Oid) (x : Binding) : Prop :=
  ∃ e ∈ V.entries, e.region.seenIn V.context = true ∧ V.value? e.object x.oid = some x.value ∧
    First (V.value? e.object) (.after o) x.oid ∧ allows x.oid = true

/-- The answer to a search past an identifier under a view: the first variable on offer, with its value. The view ends
just if there is none. -/
structure Discloses (allows : Oid → Bool) (o : Oid) (x : Binding) : Prop where
  first : (∃ y, V.Offers allows o y) → V.Offers allows o x ∧ ∀ y, V.Offers allows o y → x.oid ≤ y.oid
  nothing : x = ⟨o, .endOfMibView⟩ ↔ ∀ y, ¬V.Offers allows o y

variable {V} {o : Oid} {x y : Binding}

theorem follows_of_first (hx : V.Sees x) (hlt : o < x.oid) (hleast : ∀ y, V.Sees y → o < y.oid → x.oid ≤ y.oid) :
    V.Follows o x where
  first _ := ⟨hx, hlt, hleast⟩
  nothing := by
    constructor
    · rintro rfl
      exact absurd hlt (lt_irrefl o)
    · exact fun hnone => absurd hlt (hnone x hx)

theorem follows_of_nothing (hnone : ∀ y, V.Sees y → ¬o < y.oid) : V.Follows o ⟨o, .endOfMibView⟩ where
  first := fun ⟨y, hy, hlt⟩ => absurd hlt (hnone y hy)
  nothing := ⟨fun _ => hnone, fun _ => rfl⟩

section Offers
variable {allows : Oid → Bool}

theorem Offers.sees (h : V.Offers allows o x) : V.Sees x := by
  obtain ⟨e, he, hc, hvalue, -⟩ := h
  exact ⟨e, he, hc, hvalue⟩

theorem Offers.lt (h : V.Offers allows o x) : o < x.oid := by
  obtain ⟨e, -, -, -, hfirst, -⟩ := h
  exact Range.contains_after.mp hfirst.inside

theorem Offers.allowed (h : V.Offers allows o x) : allows x.oid = true := by
  obtain ⟨-, -, -, -, -, hallows⟩ := h
  exact hallows

theorem discloses_of_first (hx : V.Offers allows o x) (hleast : ∀ y, V.Offers allows o y → x.oid ≤ y.oid) :
    V.Discloses allows o x where
  first _ := ⟨hx, hleast⟩
  nothing := by
    constructor
    · rintro rfl
      exact absurd hx.lt (lt_irrefl o)
    · exact fun hnone => absurd hx (hnone x)

theorem discloses_of_nothing (hnone : ∀ y, ¬V.Offers allows o y) : V.Discloses allows o ⟨o, .endOfMibView⟩ where
  first := fun ⟨y, hy⟩ => absurd hy (hnone y)
  nothing := ⟨fun _ => hnone, fun _ => rfl⟩

end Offers

variable [ManagedObject Obj]

/-- The entries are in order, and their objects read faithfully. -/
structure Sound (V : Survey Obj) : Prop where
  ordered : Registry.Ordered V.entries
  reads : ∀ e ∈ V.entries, Reads (V.holds e.object) e.region.toRange (V.value? e.object)

theorem Sound.contains (hV : V.Sound) {e : Entry} (he : e ∈ V.entries) {v : Value} (hv : V.value? e.object o = some v) :
    e.region.contains o = true := (hV.reads e he).inside o (Option.isSome_iff_exists.mpr ⟨v, hv⟩)

/-- A context sees one value of a variable at most. -/
theorem Sound.eq_of_sees (hV : V.Sound) (hx : V.Sees x) (hy : V.Sees y) (ho : x.oid = y.oid) : x = y := by
  obtain ⟨e, he, hc, hvalue⟩ := hx
  obtain ⟨e', he', hc', hvalue'⟩ := hy
  rw [← ho] at hvalue'
  obtain rfl := hV.ordered.eq_of_seen he he' hc hc' (hV.contains he hvalue) (hV.contains he' hvalue')
  cases x
  cases y
  cases ho
  cases hvalue.symm.trans hvalue'
  rfl

theorem Sound.eq_of_follows (hV : V.Sound) (hx : V.Follows o x) (hy : V.Follows o y) : x = y := by
  by_cases hsome : ∃ z, V.Sees z ∧ o < z.oid
  · obtain ⟨hx, hxo, hxleast⟩ := hx.first hsome
    obtain ⟨hy, hyo, hyleast⟩ := hy.first hsome
    exact hV.eq_of_sees hx hy (le_antisymm (hxleast y hy hyo) (hyleast x hx hxo))
  · have hnone (z : Binding) (hz : V.Sees z) : ¬o < z.oid := fun hlt => hsome ⟨z, hz, hlt⟩
    rw [hx.nothing.mpr hnone, hy.nothing.mpr hnone]

theorem Sound.eq_of_forall₂ (hV : V.Sound) {as xs ys : List Binding}
    (hxs : List.Forall₂ (fun a x => V.Follows a.oid x) as xs)
    (hys : List.Forall₂ (fun a y => V.Follows a.oid y) as ys) : xs = ys := by
  have hunique : Relator.RightUnique fun (a : Binding) x => V.Follows a.oid x := fun _ _ _ => hV.eq_of_follows
  exact List.right_unique_forall₂' hunique hxs hys

/-- The state is as the objects have it: nothing is registered or written, and reading takes no locks. -/
structure Shows (V : Survey Obj) (s : State Obj) : Prop where
  entries : (s.registry V.registry).entries = V.entries
  locking : (s.registry V.registry).locking.SparesReads
  holds : ∀ e ∈ V.entries, V.holds e.object (s.objects e.object)
  sent : s.sent = V.before.sent

/-- The state is as the objects have it, and where reading may take locks nobody else holds one. -/
structure Calm (V : Survey Obj) (owner : TransactionId) (s : State Obj) : Prop where
  entries : (s.registry V.registry).entries = V.entries
  free : ¬(s.registry V.registry).locking.SparesReads → (s.registry V.registry).locks.OwnedBy owner
  holds : ∀ e ∈ V.entries, V.holds e.object (s.objects e.object)
  sent : s.sent = V.before.sent

section Shows
variable {s t : State Obj} {q : Query} {who : Requester} {p : Policy} {rely : State Obj → State Obj → Prop}
  {owner : TransactionId}

omit [ManagedObject Obj] in
theorem Shows.calm (hs : V.Shows s) (owner : TransactionId) : V.Calm owner s :=
  ⟨hs.entries, fun hlocks => absurd hs.locking hlocks, hs.holds, hs.sent⟩

omit [ManagedObject Obj] in
theorem Calm.of_bare (hs : V.Calm owner s) (hbare : t.bare = s.bare)
    (hlocks : (s.registry V.registry).locks.OwnedBy owner → (t.registry V.registry).locks.OwnedBy owner) :
    V.Calm owner t where
  entries := (State.entries_eq_of_bare hbare V.registry).trans hs.entries
  free hreads := hlocks (hs.free (State.locking_eq_of_bare hbare V.registry ▸ hreads))
  holds e he := State.objects_eq_of_bare hbare ▸ hs.holds e he
  sent := (State.sent_eq_of_bare hbare).trans hs.sent

/-- Where an object has a variable past an identifier, it has a first one there. -/
theorem Shows.exists_first (hs : V.Shows s) (hV : V.Sound) {e : Entry} (he : e ∈ V.entries) {o' : Oid}
    (hpresent : (V.value? e.object o').isSome = true) (hlt : o < o') :
    ∃ x v, V.value? e.object x = some v ∧ First (V.value? e.object) (.after o) x := by
  cases hfind : ManagedObject.find? (s.objects e.object) (Region.after o) with
  | none =>
    have hout := (hV.reads e he).nothing _ _ o' (hs.holds e he) hfind hpresent
    cases hout.symm.trans (Range.contains_after.mpr hlt)
  | some x =>
    have hfirst := (hV.reads e he).first _ _ x (hs.holds e he) hfind
    obtain ⟨v, hv⟩ := Option.isSome_iff_exists.mp hfirst.present
    exact ⟨x, v, hv, hfirst⟩

/-- Without a view, what is on offer first is what follows. -/
theorem Shows.follows_of_discloses (hs : V.Shows s) (hV : V.Sound) (h : V.Discloses (fun _ => true) o x) :
    V.Follows o x := by
  have hoffer (y : Binding) (hy : V.Sees y) (hlt : o < y.oid) : ∃ z, V.Offers (fun _ => true) o z ∧ z.oid ≤ y.oid := by
    obtain ⟨e, he, hc, hvalue⟩ := hy
    have hpresent : (V.value? e.object y.oid).isSome = true := Option.isSome_iff_exists.mpr ⟨_, hvalue⟩
    obtain ⟨z, v, hv, hfirst⟩ := hs.exists_first hV he hpresent hlt
    exact ⟨⟨z, v⟩, ⟨e, he, hc, hv, hfirst, rfl⟩, hfirst.least y.oid hpresent (Range.contains_after.mpr hlt)⟩
  by_cases hsome : ∃ y, V.Offers (fun _ => true) o y
  · obtain ⟨hx, hleast⟩ := h.first hsome
    refine follows_of_first hx.sees hx.lt fun y hy hlt => ?_
    obtain ⟨z, hz, hle⟩ := hoffer y hy hlt
    exact (hleast z hz).trans hle
  · rw [not_exists] at hsome
    obtain rfl := h.nothing.mpr hsome
    refine follows_of_nothing fun y hy hlt => ?_
    obtain ⟨z, hz, -⟩ := hoffer y hy hlt
    exact hsome z hz

/-- What is on offer past an identifier is among the candidates of a search from there, and is found. -/
theorem Calm.candidate (hs : V.Calm owner s) (hV : V.Sound)
    (hregion : q.region = (Region.after o).inContext (some V.context)) {y : Binding} {e : Entry} (he : e ∈ V.entries)
    (hc : e.region.seenIn V.context = true) (hvalue : V.value? e.object y.oid = some y.value)
    (hfirst : First (V.value? e.object) (.after o) y.oid) (hallows : q.allows y.oid = true) :
    e ∈ (s.registry V.registry).candidates q ∧ q.accepts (s.objects e.object) = true := by
  have hafter : q.region.contains y.oid = true := by
    rw [hregion]
    exact hfirst.inside
  have hself : q.region.seenIn V.context = true := by
    rw [hregion, Region.seenIn_iff]
    exact Or.inr rfl
  refine ⟨Registry.mem_candidates_iff.mpr ⟨hs.entries ▸ he, ?_⟩, ?_⟩
  · exact Region.overlaps_of_seenIn hself hc hafter (hV.contains he hvalue)
  · rw [Query.accepts_search (by rw [hregion]; rfl) (by rw [hregion]; rfl)]
    cases hfind : ManagedObject.find? (s.objects e.object) q.region with
    | some x =>
      have hx := (hV.reads e he).first _ _ x (hs.holds e he) hfind
      rw [hregion] at hx
      obtain rfl : x = y.oid := hx.eq hfirst
      exact hallows
    | none =>
      have hout := (hV.reads e he).nothing _ _ y.oid (hs.holds e he) hfind hfirst.present
      cases hout.symm.trans hafter

/-- The first candidate that a search accepts has the first variable on offer. -/
theorem Calm.first_of_find? (hs : V.Calm owner s) (hV : V.Sound)
    (hregion : q.region = (Region.after o).inContext (some V.context)) {e : Entry}
    (hfind : ((s.registry V.registry).candidates q).find? (fun e => q.accepts (s.objects e.object)) = some e) :
    e ∈ V.entries ∧ ∃ x, ManagedObject.find? (s.objects e.object) q.region = some x ∧
      ∀ v, V.value? e.object x = some v → V.Discloses q.allows o ⟨x, v⟩ := by
  have hentries : (s.registry V.registry).entries = V.entries := hs.entries
  have hsublist : ((s.registry V.registry).candidates q).Sublist (s.registry V.registry).entries :=
    List.filter_sublist.trans (List.dropWhile_sublist _)
  have hsorted := ((hentries ▸ hV.ordered).sublist hsublist).sorted
  have hasymm (a b : Entry) (hab : Region.order a.region b.region = .lt) : ¬Region.order b.region a.region = .lt := by
    rw [Std.OrientedCmp.gt_of_lt hab]
    decide
  obtain ⟨hmem, haccepts, hleast⟩ := (find?_eq_some_iff_least hasymm hsorted).mp hfind
  obtain ⟨he, hover⟩ := Registry.mem_candidates_iff.mp hmem
  rw [hentries] at he
  rw [Query.accepts_search (by rw [hregion]; rfl) (by rw [hregion]; rfl), Option.any_eq_true] at haccepts
  obtain ⟨x, hx, hallows⟩ := haccepts
  have hc : e.region.seenIn V.context = true := by
    rw [hregion, Region.overlaps, Bool.and_eq_true] at hover
    exact hover.1
  have hfirst := (hV.reads e he).first _ _ x (hs.holds e he) hx
  rw [hregion] at hfirst
  refine ⟨he, x, hx, fun v hv => discloses_of_first ⟨e, he, hc, hv, hfirst, hallows⟩ ?_⟩
  rintro y ⟨e', he', hc', hvalue, hfirst', hallows'⟩
  obtain ⟨hmem', haccepts'⟩ := hs.candidate hV hregion he' hc' hvalue hfirst' hallows'
  rcases hleast e' hmem' haccepts' with rfl | horder
  · exact (hfirst.eq hfirst').le
  · exact (hV.ordered.lt_of_order he he' horder hc hc' (hV.contains he hv) (hV.contains he' hvalue)).le

/-- If a search accepts no candidate, nothing is on offer. -/
theorem Calm.nothing_of_find? (hs : V.Calm owner s) (hV : V.Sound)
    (hregion : q.region = (Region.after o).inContext (some V.context))
    (hfind : ((s.registry V.registry).candidates q).find? (fun e => q.accepts (s.objects e.object)) = none) :
    V.Discloses q.allows o ⟨o, .endOfMibView⟩ := by
  refine discloses_of_nothing ?_
  rintro y ⟨e, he, hc, hvalue, hfirst, hallows⟩
  obtain ⟨hmem, haccepts⟩ := hs.candidate hV hregion he hc hvalue hfirst hallows
  exact List.find?_eq_none.mp hfind e hmem haccepts

/-- There is an answer to every search. -/
theorem Calm.exists_discloses (hs : V.Calm owner s) (hV : V.Sound) (p : Policy) (who : Requester) (o : Oid) :
    ∃ x, V.Discloses (p.allows who) o x := by
  have hallows : (p.query who ((Region.after o).inContext (some V.context)) false).allows = p.allows who :=
    p.allows_query who _ _
  generalize hq : p.query who ((Region.after o).inContext (some V.context)) false = q at hallows
  have hregion : q.region = (Region.after o).inContext (some V.context) := hq ▸ rfl
  cases hfind : ((s.registry V.registry).candidates q).find? fun e => q.accepts (s.objects e.object) with
  | none => exact ⟨_, hallows ▸ hs.nothing_of_find? hV hregion hfind⟩
  | some e =>
    obtain ⟨he, x, hx, hdiscloses⟩ := hs.first_of_find? hV hregion hfind
    obtain ⟨v, hv⟩ := Option.isSome_iff_exists.mp ((hV.reads e he).first _ _ x (hs.holds e he) hx).present
    exact ⟨⟨x, v⟩, hallows ▸ hdiscloses v hv⟩

end Shows

/-! ### Requests -/

/-- The item of a binding before it is served. -/
structure Asked (V : Survey Obj) (a : Binding) (x : Item) : Prop where
  oid : x.oid = a.oid
  region : x.region = (Region.after a.oid).inContext (some V.context)
  fresh : x.complete = false
  clear : x.hasError = false
  rested : x.deferred = false

/-- The item of a search for what lies past an identifier. -/
structure Seeks (V : Survey Obj) (o : Oid) (x : Item) : Prop where
  oid : x.oid = o
  region : x.region = (Region.after o).inContext (some V.context)
  clear : x.hasError = false
  rested : x.deferred = false

/-- The item of a binding after it was served. -/
structure Answered (V : Survey Obj) (allows : Oid → Bool) (a : Binding) (x : Item) : Prop where
  discloses : V.Discloses allows a.oid x.binding
  closed : x.complete = true
  clear : x.hasError = false

section Requests
variable {s t : State Obj} {who : Requester} {p : Policy} {rely : State Obj → State Obj → Prop} {a : Binding}
  {item : Item}

/-- A look-up finds the first candidate that the query accepts. -/
theorem Calm.look (hs : V.Calm who.transaction s) (q : Query) (hq : q.writes = false) :
    (p.lookUp V.registry who q).Ensures rely (fun _ => False) s fun f t => V.Calm who.transaction t ∧
      t.bare = s.bare ∧ f.lock ≠ .timedOut ∧
        f.entry = ((s.registry V.registry).candidates q).find? fun e => q.accepts (s.objects e.object) := by
  have hfree : Lookup.Free ⟨V.registry, q, some (p.terms who)⟩ s := by
    intro terms hterms
    obtain ⟨hmine, hlocks⟩ := Lookup.locking?_eq_some.mp hterms
    cases hmine
    refine hs.free fun hspares => ?_
    cases (hspares _ q hq).symm.trans hlocks
  refine (Lookup.run_free p.patience hfree).mono (fun _ => id) fun f t hplain => ?_
  exact ⟨hs.of_bare hplain.bare (hplain.ownedBy rfl), hplain.bare, hplain.lock, hplain.entry⟩

/-- What an object that reads faithfully is called for leaves everything as it is. -/
theorem Calm.call (hs : V.Calm owner s) {e : Entry} {item : Item} {x' : Obj} {edits : List Edit}
    (hcall : ManagedObject.call .next who item (s.objects e.object) = ⟨x', edits, .ok true⟩)
    (hx' : V.holds e.object x') : (s.call .next who e.object item).1 = (item.editAll edits, .ok true) ∧
      V.Calm owner (s.call .next who e.object item).2 ∧
        ((s.call .next who e.object item).2.registry V.registry).locking = (s.registry V.registry).locking := by
  refine ⟨by simp only [State.call, hcall], ⟨hs.entries, hs.free, fun e' he' => ?_, hs.sent⟩, rfl⟩
  simp only [State.call, hcall, State.setObject]
  split
  · next heq => exact heq ▸ hx'
  · exact hs.holds e' he'

/-- What a search comes to with the first object that it calls. It is over, unless what it has found is a counter that
the version of the protocol cannot carry; then it goes on from there. -/
theorem Calm.step (hs : V.Calm who.transaction s) (hV : V.Sound) (patience : Nat) (hitem : V.Seeks a.oid item)
    {ends : Item × Option Error → State Obj → Prop}
    (hover : ∀ x t, V.Answered (p.allows who) a x → ¬(who.version = .v1 ∧ x.value.isCounter64 = true) →
      x.region = item.region → V.Calm who.transaction t →
        (t.registry V.registry).locking = (s.registry V.registry).locking → ends (x, none) t)
    (hskip : ∀ y x t, V.Discloses (p.allows who) a.oid y → who.version = .v1 → y.value.isCounter64 = true →
      V.Seeks y.oid x → V.Calm who.transaction t →
        (t.registry V.registry).locking = (s.registry V.registry).locking →
          (Next.serve p V.registry who patience x).Ensures rely (fun _ => False) t ends) :
    (Next.serve p V.registry who (patience + 1) item).Ensures rely (fun _ => False) s ends := by
  simp only [Next.serve, Activity.ensures_bind]
  refine (hs.look (p := p) (p.query who item.region false) rfl).mono (fun _ => id) ?_
  rintro f t ⟨ht, hbare, hlock, hentry⟩
  have hlocking := State.locking_eq_of_bare hbare V.registry
  have hobjects : t.objects = s.objects := State.objects_eq_of_bare hbare
  cases hfound : f.entry with
  | none =>
    have hdiscloses := hs.nothing_of_find? hV hitem.region (hentry.symm.trans hfound)
    rw [Policy.allows_query] at hdiscloses
    simp only [hlock, if_false, Activity.ensures_pure]
    have hbinding : (endOfView item).binding = ⟨a.oid, .endOfMibView⟩ :=
      congrArg (Binding.mk · Value.endOfMibView) hitem.oid
    refine hover (endOfView item) t ⟨hbinding ▸ hdiscloses, rfl, hitem.clear⟩ ?_ rfl ht hlocking
    exact fun hcounter => Bool.false_ne_true hcounter.2
  | some e =>
    obtain ⟨he, x, hx, hdiscloses⟩ := hs.first_of_find? hV hitem.region (hentry.symm.trans hfound)
    rw [Policy.allows_query] at hdiscloses
    obtain ⟨v, object, edits, hv, hcall, hobject, hbinding, hstatus, hdeferred⟩ :=
      (hV.reads e he).next _ who item x (hs.holds e he) hx
    rw [← hobjects] at hcall
    obtain ⟨hcalled, hafter, hkept⟩ := ht.call hcall hobject
    have hfollows : V.Discloses (p.allows who) a.oid (item.editAll edits).binding := hbinding ▸ hdiscloses v hv
    have hregion : (item.editAll edits).region = item.region := item.editAll_region edits
    have hclear : (item.editAll edits).hasError = false := (congrArg Status.isError hstatus).trans hitem.clear
    have hrested : (item.editAll edits).deferred = false := hdeferred.trans hitem.rested
    simp only [Activity.ensures_bind, callObject, Activity.ensures_modifyGet, hcalled]
    refine (f.release_ensures V.registry who e.object _).mono (fun _ => id) ?_
    rintro ⟨⟩ u ⟨hbare', hown⟩
    have hu : V.Calm who.transaction u := hafter.of_bare hbare' hown
    have hlocking' := (State.locking_eq_of_bare hbare' V.registry).trans (hkept.trans hlocking)
    split
    · next hcounter =>
      refine hskip (item.editAll edits).binding _ u hfollows hcounter.1 hcounter.2 ⟨rfl, ?_, hclear, hrested⟩ hu
        hlocking'
      show (item.editAll edits).region.past _ = _
      rw [hregion, hitem.region]
      rfl
    · next hcarried =>
      simp only [hrested, Bool.false_eq_true, if_false, Activity.ensures_pure]
      exact hover _ u ⟨hfollows, rfl, hclear⟩ hcarried hregion hu hlocking'

/-- A search comes to what follows with the first object that it calls. -/
theorem Calm.serve (hs : V.Calm who.transaction s) (hV : V.Sound) (hversion : who.version ≠ .v1) (patience : Nat)
    (hitem : V.Asked a item) : (Next.serve p V.registry who (patience + 1) item).Ensures rely (fun _ => False) s
      fun out t => (V.Calm who.transaction t ∧
        (t.registry V.registry).locking = (s.registry V.registry).locking) ∧ out.2 = none ∧
          V.Answered (p.allows who) a out.1 ∧ out.1.region = item.region := by
  refine hs.step hV patience ⟨hitem.oid, hitem.region, hitem.clear, hitem.rested⟩ ?_ ?_
  · exact fun x t hx _ hregion ht hlocking => ⟨⟨ht, hlocking⟩, rfl, hx, hregion⟩
  · exact fun y x t _ hlegacy => absurd hlegacy hversion

/-- The service comes to what each binding has on offer. -/
theorem Calm.run_discloses (hs : V.Calm who.transaction s) (hV : V.Sound) (hversion : who.version ≠ .v1)
    (hcontext : who.context = V.context) {pdu : Pdu} (hkind : pdu.kind = .getNext)
    (maxSize : Nat) (created : Instant) : ∃ r t bindings,
      Next.run p V.registry (.start who pdu maxSize created) s = .done (r, none) t ∧ r.isComplete = true ∧
        r.toResponse = { pdu.toResponse with bindings } ∧ (V.Calm who.transaction t ∧
          (t.registry V.registry).locking = (s.registry V.registry).locking) ∧
            List.Forall₂ (fun a x => V.Discloses (p.allows who) a.oid x) pdu.bindings bindings := by
  have hserve (a : Binding) (item : Item) (t : State Obj) (hitem : V.Asked a item) (ht : V.Calm who.transaction t ∧
      (t.registry V.registry).locking = (s.registry V.registry).locking) :
      (Next.search p V.registry who item).Ensures (fun _ _ => False) (fun _ => False) t fun out u =>
        (V.Calm who.transaction u ∧ (u.registry V.registry).locking = (s.registry V.registry).locking) ∧
          out.2 = none ∧ V.Answered (p.allows who) a out.1 := by
    refine (ht.1.serve hV hversion _ hitem).mono (fun _ => id) ?_
    rintro out u ⟨⟨hu, hlocking⟩, hnone, hanswered, -⟩
    exact ⟨⟨hu, hlocking.trans ht.2⟩, hnone, hanswered⟩
  have hasked (index : Nat) (a : Binding) :
      V.Asked a (Item.restart { index, binding := a, region := Request.regionOf pdu who.context a.oid }) :=
    ⟨rfl, hcontext ▸ regionOf_search (by simp [hkind, Pdu.Kind.isSearch]) a.oid, rfl, rfl, rfl⟩
  obtain ⟨items, t, hdone, ht, hall, hc, hresponse⟩ := exists_read (Or.inr hkind) hasked (fun a x hx => hx.fresh) hserve
    (fun a x hx => ⟨hx.closed, hx.clear⟩) ⟨hs, rfl⟩ maxSize created
  refine ⟨_, t, items.map Item.binding, ?_, hc, hresponse, ht, ?_⟩
  · rw [Next.run, (Request.begin_same _).1]
    exact Activity.bind_of_done hdone
  · exact List.forall₂_map_right_iff.mpr (hall.imp fun a x hx => hx.discloses)

/-- Where reading takes no locks, the service comes to what each binding has on offer. -/
theorem Shows.run_discloses (hs : V.Shows s) (hV : V.Sound) (hversion : who.version ≠ .v1)
    (hcontext : who.context = V.context) {pdu : Pdu} (hkind : pdu.kind = .getNext) (maxSize : Nat) (created : Instant) :
    ∃ r t bindings, Next.run p V.registry (.start who pdu maxSize created) s = .done (r, none) t ∧
      r.isComplete = true ∧ r.toResponse = { pdu.toResponse with bindings } ∧ V.Shows t ∧
        List.Forall₂ (fun a x => V.Discloses (p.allows who) a.oid x) pdu.bindings bindings := by
  obtain ⟨r, t, bindings, hrun, hc, hresponse, ⟨ht, hlocking⟩, hall⟩ :=
    (hs.calm who.transaction).run_discloses (p := p) hV hversion hcontext hkind maxSize created
  exact ⟨r, t, bindings, hrun, hc, hresponse, ⟨ht.entries, hlocking ▸ hs.locking, ht.holds, ht.sent⟩, hall⟩

/-- Without access control the service comes to what follows each binding. -/
theorem Shows.run_done (hs : V.Shows s) (hV : V.Sound) (haccess : p.access = none) (hversion : who.version ≠ .v1)
    (hcontext : who.context = V.context) {pdu : Pdu} (hkind : pdu.kind = .getNext)
    (maxSize : Nat) (created : Instant) : ∃ r t bindings,
      Next.run p V.registry (.start who pdu maxSize created) s = .done (r, none) t ∧ r.isComplete = true ∧
        r.toResponse = { pdu.toResponse with bindings } ∧ V.Shows t ∧
          List.Forall₂ (fun a x => V.Follows a.oid x) pdu.bindings bindings := by
  obtain ⟨r, t, bindings, hrun, hc, hresponse, ht, hall⟩ :=
    hs.run_discloses (p := p) hV hversion hcontext hkind maxSize created
  rw [Policy.allows_of_open haccess] at hall
  exact ⟨r, t, bindings, hrun, hc, hresponse, ht, hall.imp fun a x hx => hs.follows_of_discloses hV hx⟩

end Requests
end Survey

/-! ### Answers -/

/-- Searching, as an agent answers it without access control, where reading takes no locks and every registered object
reads faithfully: each binding of the response is the first variable past the one that is asked for which the context
sees, with its value, and the end of the view just if there is none. -/
theorem follows_of_admits {Obj : Type} [ManagedObject Obj] {V : Survey Obj} {a : Agent Obj} {m₀ m : Inbound}
    {who : Requester} (hadmits : a.Admits V.before m₀ m who V.registry) (hcontext : who.context = V.context)
    (hservice : a.serviceFor? .getNext = some service) (hkind : m.pdu.kind = .getNext) (haccess : a.access = none)
    (hversion : m.version ≠ .v1) (houtlet : a.outlet = .open) {regionOf : ObjectId → Region}
    (hreachable : (V.before.registry V.registry).Reachable regionOf)
    (hlocking : (V.before.registry V.registry).locking.SparesReads)
    (hreads : ∀ e ∈ V.entries, V.holds e.object (V.before.objects e.object) ∧
      Reads (V.holds e.object) (regionOf e.object).toRange (V.value? e.object)) :
    ∃ bindings, List.Forall₂ (fun a x => V.Follows a.oid x) m.pdu.bindings bindings ∧
      ({ m.pdu.toResponse with bindings }.size ≤ m.maxSize → ∃ t, a.process m₀ V.before = .done (.ok ()) t ∧
        t.sent = V.before.sent ++ [Outbound.replyTo m { m.pdu.toResponse with bindings }]) := by
  obtain ⟨hordered, hregions⟩ := hreachable.ordered
  have hV : V.Sound := ⟨hordered, fun e he => hregions e he ▸ (hreads e he).2⟩
  have hs : V.Shows (Agent.opened V.before) := ⟨rfl, hlocking, fun e he => (hreads e he).1, rfl⟩
  obtain ⟨r, t, bindings, hrun, hc, hresponse, ht, hall⟩ := hs.run_done (p := a.policy) hV haccess
    (hadmits.version ▸ hversion) hcontext hkind m.maxSize V.before.now
  refine ⟨bindings, hall, fun hsize => ?_⟩
  obtain ⟨u, hprocess, hsent, -⟩ :=
    Agent.process_of_done hadmits (hkind ▸ hservice) hversion houtlet hrun hc hresponse hsize
  exact ⟨u, hprocess, ht.sent ▸ hsent⟩

/-- A scalar, and two tables with a variable each. -/
def libraryStore (id : ObjectId) : Store :=
  match id.number with
  | 0 => .scalar { oid := ⟨[1, 0]⟩, value := .integer 7, writable := false }
  | 1 => .table ⟨⟨[2]⟩, .readOnly, ⟨[(⟨[2, 1]⟩, .integer 8)]⟩⟩
  | _ => .table ⟨⟨[3]⟩, .readOnly, ⟨[(⟨[3, 1]⟩, .integer 9)]⟩⟩

/-- The context of the first table. -/
def upstairs : ContextName := [97]

/-- The scalar and the second table in every context, and the first table in a context of its own. -/
def library : State Instrument where
  objects id := Store.Among.put (libraryStore id)
  registries := [{
    entries := [⟨.subtree ⟨[1]⟩, ⟨0⟩⟩, ⟨(Region.subtree ⟨[2]⟩).inContext (some upstairs), ⟨1⟩⟩, ⟨.subtree ⟨[3]⟩, ⟨2⟩⟩]
    regions := [(⟨⟨2⟩, none⟩, .subtree ⟨[3]⟩),
      (⟨⟨1⟩, some upstairs⟩, (Region.subtree ⟨[2]⟩).inContext (some upstairs)), (⟨⟨0⟩, none⟩, .subtree ⟨[1]⟩)] }]
  outstanding := ⟨.seconds 300, []⟩

/-- Three searches: from below the scalar, past the scalar, and past everything. -/
def browsing : Pdu := .asking .getNext 1 [⟨[1]⟩, ⟨[1, 0]⟩, ⟨[4]⟩]

/-- Somebody who asks in the default context. -/
def browser : Requester where
  peer := ⟨.v4 192 0 2 10, 50161, 0⟩
  version := .v2c
  model := .v2c
  securityName := []
  level := .noAuthNoPriv
  engine := []
  context := []
  requestId := 1
  kind := .getNext
  transaction := ⟨0⟩
  view := none

def librarySurvey : Survey Instrument :=
  ⟨0, [], library, fun id x => x = Store.Among.put (libraryStore id), fun id => (libraryStore id).value?⟩

theorem library_reachable : (library.registry 0).Reachable fun id => ManagedObject.region (libraryStore id) := by
  have hempty : Registry.Reachable (fun id => ManagedObject.region (libraryStore id)) {} := .empty rfl rfl
  have hscalar := hempty.register
    (show Registry.register {} ⟨0⟩ (ManagedObject.region (libraryStore ⟨0⟩)) none = .ok _ from rfl)
  have htable := hscalar.register
    (show Registry.register _ ⟨1⟩ (ManagedObject.region (libraryStore ⟨1⟩)) (some upstairs) = .ok _ from rfl)
  exact htable.register (show Registry.register _ ⟨2⟩ (ManagedObject.region (libraryStore ⟨2⟩)) none = .ok _ from rfl)

theorem library_formed (id : ObjectId) : (libraryStore id).WellFormed := by
  unfold libraryStore
  split
  · trivial
  all_goals
    refine ⟨List.pairwise_singleton _ _, fun o v h => ?_⟩
    rw [OidMap.get?_eq_some_iff (List.pairwise_singleton _ _)] at h
    obtain ⟨rfl, -⟩ := Prod.mk.inj (List.mem_singleton.mp h)
    decide

theorem sees_library {y : Binding} :
    librarySurvey.Sees y ↔ y = ⟨⟨[1, 0]⟩, .integer 7⟩ ∨ y = ⟨⟨[3, 1]⟩, .integer 9⟩ := by
  obtain ⟨o, v⟩ := y
  have hvalue (id : ObjectId) : librarySurvey.value? id o = some v ↔ (libraryStore id).value? o = some v := Iff.rfl
  have htable (o' : Oid) (v' : Value) : OidMap.get? ⟨[(o', v')]⟩ o = some v ↔ (o, v) = (o', v') := by
    rw [OidMap.get?_eq_some_iff (List.pairwise_singleton _ _), List.mem_singleton]
  have hcontext : librarySurvey.context = [] := rfl
  simp only [Survey.Sees, hvalue, hcontext, Region.seenIn_iff]
  show (∃ e ∈ [_, _, _], _) ↔ _
  simp [Region.subtree, Region.everywhere, Region.inContext, upstairs, libraryStore, Store.value?, htable,
    eq_comm (a := Value.integer 7)]

/-- The search past the scalar does not find the table of another context. -/
theorem follows_of_browsing : ∃ t, Agent.plain.process (.ofCommunity .v2c [] browser.peer browsing) library =
    .done (.ok ()) t ∧ t.sent = [Outbound.replyTo (.ofCommunity .v2c [] browser.peer browsing) ⟨.response, 1, 0, 0,
      [⟨⟨[1, 0]⟩, .integer 7⟩, ⟨⟨[3, 1]⟩, .integer 9⟩, ⟨⟨[4]⟩, .endOfMibView⟩]⟩] := by
  have hadmits : Agent.plain.Admits library (.ofCommunity .v2c [] browser.peer browsing)
      (.ofCommunity .v2c [] browser.peer browsing) browser 0 := ⟨⟨none, rfl, rfl⟩, rfl, rfl⟩
  have hreads (id : ObjectId) : @Reads Instrument _ (librarySurvey.holds id)
      (ManagedObject.region (libraryStore id)).toRange (librarySurvey.value? id) := reads_store (library_formed id)
  obtain ⟨bindings, hall, hprocess⟩ := follows_of_admits (V := librarySurvey) hadmits rfl rfl rfl rfl (by decide) rfl
    library_reachable Locking.sparesReads_writes fun e _ => ⟨rfl, hreads e.object⟩
  have hsound : librarySurvey.Sound :=
    ⟨library_reachable.ordered.1, fun e he => library_reachable.ordered.2 e he ▸ hreads e.object⟩
  have hanswer : List.Forall₂ (fun a x => librarySurvey.Follows a.oid x) browsing.bindings
      [⟨⟨[1, 0]⟩, .integer 7⟩, ⟨⟨[3, 1]⟩, .integer 9⟩, ⟨⟨[4]⟩, .endOfMibView⟩] := by
    refine .cons ?_ (.cons ?_ (.cons ?_ .nil))
    · exact Survey.follows_of_first (sees_library.mpr (by simp)) (by decide) (by simp +decide [sees_library])
    · exact Survey.follows_of_first (sees_library.mpr (by simp)) (by decide) (by simp +decide [sees_library])
    · exact Survey.follows_of_nothing (by simp +decide [sees_library])
  obtain rfl := hsound.eq_of_forall₂ hall hanswer
  exact hprocess (by decide +kernel)

end Responder.Next
