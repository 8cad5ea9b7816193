import Mathlib.Data.List.Pairwise
import Responder.Proofs.OidMap
import Responder.Registry.Basic

/-! Registries as registration leaves them. Entries stand in the order of `Region.order`, and no two of them
    that a context can see share an identifier (`Ordered`). So what a context sees of an identifier is one
    entry at most, and of two entries that it sees the one that stands first lies below the other one. -/

namespace Responder

/-! ### Regions -/

namespace Region

variable {a b r : Region} {o : Oid} {c : ContextName}

/-- Values by a comparison, a missing one last. -/
def compareLast {α : Type} (cmp : α → α → Ordering) : Option α → Option α → Ordering
  | some a, some b => cmp a b
  | some _, none => .lt
  | none, some _ => .gt
  | none, none => .eq

instance {α : Type} {cmp : α → α → Ordering} [Std.TransCmp cmp] : Std.TransCmp (compareLast cmp) where
  eq_swap {a b} := by cases a <;> cases b <;> first | rfl | exact @Std.OrientedCmp.eq_swap _ cmp _ _ _
  isLE_trans {a b c} hab hbc := by
    cases a <;> cases b <;> cases c <;> first
      | rfl
      | exact hbc
      | exact absurd hbc Bool.false_ne_true
      | exact absurd hab Bool.false_ne_true
      | exact @Std.TransCmp.isLE_trans _ cmp _ _ _ _ hab hbc

theorem compareUpper_eq : compareUpper = compareLast compare := by
  funext a b
  cases a <;> cases b <;> rfl

instance : Std.TransCmp compareUpper := compareUpper_eq ▸ inferInstance

instance : Std.TransCmp order :=
  have : Std.TransCmp fun a b : Region => compareUpper a.upper b.upper :=
    { eq_swap := Std.OrientedCmp.eq_swap, isLE_trans := Std.TransCmp.isLE_trans }
  have : Std.TransCmp fun a b : Region => compareOn (·.lowerIncluded) b a := .opposite
  inferInstanceAs <| Std.TransCmp <| compareLex (fun a b : Region => compareUpper a.upper b.upper) <|
    compareLex (compareOn (·.upperIncluded)) <| compareLex (compareOn (·.lower)) <|
      compareLex (fun a b => compareOn (·.lowerIncluded) b a) (compareOn (·.context))

instance : Std.LawfulEqCmp order where
  eq_of_compare {a b} h := by
    obtain ⟨⟨lower, lowerIncluded, upper, upperIncluded⟩, context⟩ := a
    obtain ⟨⟨lower', lowerIncluded', upper', upperIncluded'⟩, context'⟩ := b
    simp only [order, Ordering.then_eq_eq, compare_eq_iff_eq] at h
    obtain ⟨hupper, rfl, rfl, rfl, hcontext⟩ := h
    obtain rfl : context = context' := Std.LawfulEqOrd.eq_of_compare hcontext
    cases upper <;> cases upper' <;> simp [compareUpper] at hupper ⊢
    exact hupper

/-- What stands before the least region that reaches an identifier ends below that. -/
theorem order_reaching : order r (.reaching o) = .lt ↔ ∃ up, r.upper = some up ∧ up < o := by
  have hempty : compare r.lower Oid.empty ≠ .lt := by
    rw [ne_eq, compare_lt_iff_lt]
    exact not_lt_of_ge (Oid.empty_le r.lower)
  have hcontext : compare r.context none ≠ .lt := by cases r.context <;> simp [compare]
  have hbool (x : Bool) : compare x false ≠ .lt ∧ compare true x ≠ .lt := by cases x <;> decide
  simp only [order, reaching, Ordering.then_eq_lt, (hbool _).1, (hbool _).2, hempty, hcontext, and_false, or_false]
  cases r.upper with
  | none => simp [compareUpper]
  | some up => simp [compareUpper, compare_lt_iff_lt]

/-- A region that does not stand before another one reaches as far. -/
theorem reaches_of_order (h : order a b ≠ .gt) (ha : a.reaches o = true) : b.reaches o = true := by
  rw [Range.reaches_iff] at ha ⊢
  intro up hup
  have hle : compareUpper a.upper b.upper = .lt ∨ compareUpper a.upper b.upper = .eq ∧
      compare a.upperIncluded b.upperIncluded ≠ .gt := by
    unfold order at h
    cases hu : compareUpper a.upper b.upper
    · exact Or.inl rfl
    · refine Or.inr ⟨rfl, fun hgt => h ?_⟩
      simp [hu, hgt]
    · simp [hu] at h
  rw [hup] at hle
  cases hmine : a.upper with
  | none => simp [hmine, compareUpper] at hle
  | some mine =>
    rw [hmine] at hle
    simp only [compareUpper, compare_lt_iff_lt, compare_eq_iff_eq] at hle
    rcases ha mine hmine with hlt | ⟨rfl, hincluded⟩
    · exact Or.inl (by rcases hle with hle | ⟨heq, -⟩ <;> order)
    · rcases hle with hlt | ⟨heq, hbool⟩
      · exact Or.inl hlt
      · refine Or.inr ⟨heq, ?_⟩
        rw [hincluded] at hbool
        cases hb : b.upperIncluded
        · rw [hb] at hbool
          exact absurd rfl hbool
        · rfl

/-- Whether a context can see the region. -/
def seenIn (r : Region) (c : ContextName) : Bool := contextsMatch (some c) r.context

theorem seenIn_iff : r.seenIn c = true ↔ r.context = none ∨ r.context = some c := by
  unfold seenIn
  cases r.context with
  | none => simp [contextsMatch]
  | some d =>
    simp only [contextsMatch, beq_iff_eq, reduceCtorEq, false_or, Option.some.injEq]
    exact eq_comm

theorem contextsMatch_of_seenIn (ha : a.seenIn c = true) (hb : b.seenIn c = true) :
    contextsMatch a.context b.context = true := by
  rw [seenIn_iff] at ha hb
  rcases ha with ha | ha <;> rcases hb with hb | hb <;> simp [ha, hb, contextsMatch]

theorem overlaps_comm : a.overlaps b = b.overlaps a := by
  have hcontext : contextsMatch a.context b.context = contextsMatch b.context a.context := by
    cases a.context <;> cases b.context <;> simp only [contextsMatch]
    exact BEq.comm
  rw [overlaps, overlaps, hcontext, Range.meets_comm]

theorem overlaps_iff : a.overlaps b = true ↔
    contextsMatch a.context b.context = true ∧ ∃ o, a.contains o = true ∧ b.contains o = true := by
  rw [overlaps, Bool.and_eq_true, Range.meets_iff]

theorem overlaps_of_seenIn (ha : a.seenIn c = true) (hb : b.seenIn c = true) (hoa : a.contains o = true)
    (hob : b.contains o = true) : a.overlaps b = true :=
  overlaps_iff.mpr ⟨contextsMatch_of_seenIn ha hb, o, hoa, hob⟩

/-- What the first of two regions contains the second one contains too, from its own identifiers on. -/
theorem contains_of_order {x y : Oid} (h : order a b ≠ .gt) (hx : a.contains x = true) (hy : b.contains y = true)
    (hle : y ≤ x) : b.contains x = true :=
  Range.contains_iff.mpr ⟨(Range.contains_iff.mp hy).1.trans hle, reaches_of_order h (Range.contains_iff.mp hx).2⟩

/-- Of two regions that a context sees and that share nothing, the first lies below the other one. -/
theorem lt_of_order {x y : Oid} (h : order a b ≠ .gt) (hab : a.overlaps b = false) (ha : a.seenIn c = true)
    (hb : b.seenIn c = true) (hx : a.contains x = true) (hy : b.contains y = true) : x < y := by
  by_contra hle
  have hbx := contains_of_order h hx hy (not_lt.mp hle)
  rw [overlaps_of_seenIn ha hb hx hbx] at hab
  cases hab

end Region

/-! ### Entries -/

namespace Registry

variable {r r' : Registry} {entries : List Entry} {e e' : Entry} {q : Query} {o : Oid} {c : ContextName}

theorem mem_dropWhile_of_not {α : Type} {p : α → Bool} {a : α} {l : List α} (ha : a ∈ l) (hp : p a = false) :
    a ∈ l.dropWhile p := by
  rw [← List.takeWhile_append_dropWhile (p := p) (l := l), List.mem_append] at ha
  refine ha.resolve_left fun hin => ?_
  rw [List.all_eq_true.mp List.all_takeWhile a hin] at hp
  cases hp

/-- No entry is left out that reaches the identifier or goes beyond it. -/
theorem mem_entriesFrom (he : e ∈ r.entries) {x : Oid} (hx : e.region.reaches x = true) (hle : o ≤ x) :
    e ∈ r.entriesFrom o := by
  refine mem_dropWhile_of_not he ?_
  rw [beq_eq_false_iff_ne, ne_eq, Region.order_reaching]
  rintro ⟨up, hup, hlt⟩
  rcases Range.reaches_iff.mp hx up hup with h | ⟨rfl, -⟩
  · order
  · order

/-- A query looks at all entries that overlap its region, in their order. -/
theorem candidates_eq_filter (r : Registry) (q : Query) :
    r.candidates q = r.entries.filter fun e => q.region.overlaps e.region := by
  have hskipped : (r.entries.takeWhile fun e => Region.order e.region (.reaching q.region.lower) == .lt).filter
      (fun e => q.region.overlaps e.region) = [] := by
    rw [List.filter_eq_nil_iff]
    intro e he hover
    -- What overlaps the region would stand behind the entries that are passed over.
    have hlt := List.all_eq_true.mp List.all_takeWhile e he
    obtain ⟨-, x, hx, hex⟩ := Region.overlaps_iff.mp hover
    obtain ⟨up, hup, hbelow⟩ := Region.order_reaching.mp (eq_of_beq hlt)
    have hreach := Range.reaches_iff.mp (Range.contains_iff.mp hex).2 up hup
    have hlow := (Range.lower_le_first _).trans (Range.contains_iff.mp hx).1
    rcases hreach with hreach | ⟨rfl, -⟩
    · exact absurd hbelow (not_lt_of_ge (hlow.trans hreach.le))
    · exact absurd hbelow (not_lt_of_ge hlow)
  rw [candidates, entriesFrom]
  conv_rhs => rw [← List.takeWhile_append_dropWhile (p := fun e : Entry =>
    Region.order e.region (.reaching q.region.lower) == .lt) (l := r.entries)]
  rw [List.filter_append, hskipped, List.nil_append]

theorem mem_candidates_iff : e ∈ r.candidates q ↔ e ∈ r.entries ∧ q.region.overlaps e.region = true := by
  rw [candidates_eq_filter, List.mem_filter]

theorem conflict?_eq_none_iff {region : Region} :
    r.conflict? region = none ↔ ∀ e ∈ r.entries, e.region.overlaps region = false := by
  rw [conflict?, List.find?_eq_none]
  constructor
  · intro h e he
    rw [← Bool.not_eq_true]
    intro hover
    have hmeets := (Bool.and_eq_true _ _ ▸ hover).2
    obtain ⟨x, hx, hregion⟩ := Range.meets_iff.mp hmeets
    exact h e (mem_entriesFrom he (Range.contains_iff.mp hx).2
      ((Range.lower_le_first _).trans (Range.contains_iff.mp hregion).1)) hover
  · intro h e he
    rw [h e ((List.dropWhile_suffix _).subset he)]
    simp

/-- Entries in the order of their regions, with no identifier that two of them would share in a context. -/
structure Ordered (entries : List Entry) : Prop where
  sorted : entries.Pairwise fun a b => Region.order a.region b.region = .lt
  apart : entries.Pairwise fun a b => a.region.overlaps b.region = false

theorem Ordered.sublist {entries' : List Entry} (h : Ordered entries) (hsub : entries'.Sublist entries) :
    Ordered entries' := ⟨h.sorted.sublist hsub, h.apart.sublist hsub⟩

theorem Ordered.candidates (h : Ordered r.entries) (q : Query) :
    (r.candidates q).Pairwise fun a b => Region.order a.region b.region = .lt :=
  h.sorted.sublist (candidates_eq_filter r q ▸ List.filter_sublist)

/-- Entries that stand in order are looked at again from a region on. -/
theorem candidatesAfter_eq_filter (h : Ordered r.entries) (q : Query) (seen : Region) :
    r.candidatesAfter q seen =
      (r.entries.filter fun e => Region.order e.region seen == .gt).filter fun e => q.region.overlaps e.region := by
  rw [candidatesAfter, dropWhile_eq_filter (fun a b hab hb => ?_) h.sorted]
  · refine congrArg (List.filter _) (List.filter_congr fun e _ => ?_)
    cases Region.order e.region seen <;> rfl
  · rw [bne_iff_ne, ne_eq, Std.OrientedCmp.gt_iff_lt] at hb ⊢
    exact fun hlt => hb (Std.TransCmp.lt_trans hlt hab)

theorem mem_insertEntry (h : e' ∈ insertEntry entries e) : e' = e ∨ e' ∈ entries := by
  rcases List.mem_append.mp h with h | h
  · exact Or.inr ((List.takeWhile_sublist _).subset h)
  · rcases List.mem_cons.mp h with h | h
    · exact Or.inl h
    · exact Or.inr ((List.dropWhile_sublist _).subset h)

theorem insertEntry_eq (h : entries.Pairwise fun a b => Region.order a.region b.region = .lt) :
    insertEntry entries e = (entries.filter fun x => Region.order x.region e.region == .lt) ++
      e :: entries.filter fun x => Region.order x.region e.region == .gt := by
  rw [insertEntry, takeWhile_eq_filter _ h, dropWhile_eq_filter _ h]
  · refine congrArg (_ ++ e :: ·) (List.filter_congr fun x _ => ?_)
    cases Region.order x.region e.region <;> rfl
  · intro a b hab hb
    rw [bne_iff_ne, ne_eq, Std.OrientedCmp.gt_iff_lt] at hb ⊢
    exact fun hlt => hb (Std.TransCmp.lt_trans hlt hab)
  · intro a b hab hb
    rw [beq_iff_eq] at hb ⊢
    exact Std.TransCmp.lt_trans hab hb

/-- Entries stay in order with one more that overlaps none of them. -/
theorem Ordered.insertEntry (h : Ordered entries) (hfree : ∀ e' ∈ entries, e'.region.overlaps e.region = false) :
    Ordered (insertEntry entries e) := by
  have hsymm : Std.Symm fun a b : Entry => a.region.overlaps b.region = false :=
    ⟨fun a b hab => Region.overlaps_comm.trans hab⟩
  rw [insertEntry_eq h.sorted]
  refine ⟨?_, ?_⟩ <;> rw [List.pairwise_append, List.pairwise_cons]
  · refine ⟨h.sorted.filter _, ⟨fun b hb => ?_, h.sorted.filter _⟩, fun a ha b hb => ?_⟩
    · simp only [List.mem_filter, beq_iff_eq] at hb
      exact Std.OrientedCmp.lt_of_gt hb.2
    · simp only [List.mem_filter, beq_iff_eq, List.mem_cons] at ha hb
      rcases hb with rfl | hb
      · exact ha.2
      · exact Std.TransCmp.lt_trans ha.2 (Std.OrientedCmp.lt_of_gt hb.2)
  · refine ⟨h.apart.filter _, ⟨fun b hb => ?_, h.apart.filter _⟩, fun a ha b hb => ?_⟩
    · exact Region.overlaps_comm.trans (hfree b (List.mem_of_mem_filter hb))
    · simp only [List.mem_filter, beq_iff_eq, List.mem_cons] at ha hb
      rcases hb with rfl | hb
      · exact hfree a ha.1
      · refine h.apart.forall ha.1 hb.1 ?_
        rintro rfl
        exact absurd (ha.2.symm.trans hb.2) (by decide)

/-- The registries that registration and its undoing lead to, with the region that each object is registered
under. Locks, contexts and the locking are anything. -/
inductive Reachable (regionOf : ObjectId → Region) : Registry → Prop
  | empty {r : Registry} (hentries : r.entries = []) (hregions : r.regions = []) : Reachable regionOf r
  | register {r r' : Registry} {object : ObjectId} {context : Option ContextName} (before : Reachable regionOf r)
      (h : r.register object (regionOf object) context = .ok r') : Reachable regionOf r'
  | unregister {r : Registry} (before : Reachable regionOf r) (object : ObjectId) (context : Option ContextName) :
      Reachable regionOf (r.unregister object context).2
  | relabel {r r' : Registry} (before : Reachable regionOf r) (hentries : r'.entries = r.entries)
      (hregions : r'.regions = r.regions) : Reachable regionOf r'

section Reachable
variable {regionOf : ObjectId → Region}

theorem entries_register {object : ObjectId} {region : Region} {context : Option ContextName}
    (h : r.register object region context = .ok r') :
    (∀ e ∈ r.entries, e.region.overlaps (region.inContext (contextOf context)) = false) ∧
      r'.entries = insertEntry r.entries ⟨region.inContext (contextOf context), object⟩ := by
  unfold register at h
  dsimp only at h
  split at h
  · cases h
  · next hfree =>
    cases h
    exact ⟨conflict?_eq_none_iff.mp hfree, rfl⟩

theorem entries_unregister (r : Registry) (object : ObjectId) (context : Option ContextName) :
    (r.unregister object context).2.entries.Sublist r.entries := by
  unfold unregister
  dsimp only
  split
  · exact .refl _
  · exact List.filter_sublist

/-- Registration keeps the entries in order, and under the regions of their objects. -/
theorem Reachable.ordered (h : Reachable regionOf r) :
    Ordered r.entries ∧ ∀ e ∈ r.entries, e.region.toRange = (regionOf e.object).toRange := by
  induction h with
  | empty hentries hregions => simp [hentries, Ordered.mk]
  | @register r r' object context before h ih =>
    obtain ⟨hfree, hentries⟩ := entries_register h
    rw [hentries]
    refine ⟨ih.1.insertEntry hfree, fun e he => ?_⟩
    rcases mem_insertEntry he with rfl | he
    · rfl
    · exact ih.2 e he
  | @unregister r before object context ih =>
    have hsub := r.entries_unregister object context
    exact ⟨ih.1.sublist hsub, fun e he => ih.2 e (hsub.subset he)⟩
  | relabel before hentries hregions ih => exact hentries ▸ ih

end Reachable

/-! ### What a context sees -/

/-- The entry that a context sees at an identifier. -/
def seenAt? (entries : List Entry) (c : ContextName) (o : Oid) : Option Entry :=
  entries.find? fun e => e.region.seenIn c && e.region.contains o

theorem Ordered.eq_of_seen (h : Ordered entries) (he : e ∈ entries) (he' : e' ∈ entries)
    (hc : e.region.seenIn c = true) (hc' : e'.region.seenIn c = true) (ho : e.region.contains o = true)
    (ho' : e'.region.contains o = true) : e = e' := by
  have hsymm : Std.Symm fun a b : Entry => a.region.overlaps b.region = false :=
    ⟨fun a b hab => Region.overlaps_comm.trans hab⟩
  refine Classical.byContradiction fun hne => ?_
  have hapart := h.apart.forall he he' hne
  rw [Region.overlaps_of_seenIn hc hc' ho ho'] at hapart
  cases hapart

/-- Of two entries that a context sees, what belongs to the first one lies below what belongs to the other one. -/
theorem Ordered.lt_of_order (h : Ordered entries) (he : e ∈ entries) (he' : e' ∈ entries)
    (hlt : Region.order e.region e'.region = .lt) (hc : e.region.seenIn c = true) (hc' : e'.region.seenIn c = true)
    {x y : Oid} (hx : e.region.contains x = true) (hy : e'.region.contains y = true) : x < y := by
  have hsymm : Std.Symm fun a b : Entry => a.region.overlaps b.region = false :=
    ⟨fun a b hab => Region.overlaps_comm.trans hab⟩
  have hne : e ≠ e' := by
    rintro rfl
    cases Std.ReflCmp.compare_self.symm.trans hlt
  exact Region.lt_of_order (by simp [hlt]) (h.apart.forall he he' hne) hc hc' hx hy

theorem Ordered.seenAt?_eq_some_iff (h : Ordered entries) :
    seenAt? entries c o = some e ↔ e ∈ entries ∧ e.region.seenIn c = true ∧ e.region.contains o = true := by
  constructor
  · intro hseen
    have htest := List.find?_some hseen
    rw [Bool.and_eq_true] at htest
    exact ⟨List.mem_of_find?_eq_some hseen, htest⟩
  · rintro ⟨he, hc, ho⟩
    have hsome : (seenAt? entries c o).isSome = true := List.find?_isSome.mpr ⟨e, he, by simp [hc, ho]⟩
    obtain ⟨e', he'⟩ := Option.isSome_iff_exists.mp hsome
    have htest := List.find?_some he'
    rw [Bool.and_eq_true] at htest
    rw [he', h.eq_of_seen he (List.mem_of_find?_eq_some he') hc htest.1 ho htest.2]

/-- What a query for one identifier overlaps is what its context sees there. -/
theorem overlaps_point {r : Region} :
    ((Region.point o).inContext (some c)).overlaps r = true ↔ r.seenIn c = true ∧ r.contains o = true := by
  have hcontains (x : Oid) : (Region.point o).contains x = true ↔ x = o := Range.contains_point
  rw [Region.overlaps_iff]
  refine and_congr_right fun _ => ?_
  constructor
  · rintro ⟨x, hx, hr⟩
    exact (hcontains x).mp hx ▸ hr
  · intro hr
    exact ⟨o, (hcontains o).mpr rfl, hr⟩

/-- The object that answers for an identifier in a context. -/
def answering? (entries : List Entry) (c : ContextName) (o : Oid) : Option ObjectId :=
  (seenAt? entries c o).map (·.object)

/-- Whatever overlaps a query for one identifier, its object answers for it. -/
theorem Ordered.answering?_eq (h : Ordered entries) (he : e ∈ entries)
    (hover : ((Region.point o).inContext (some c)).overlaps e.region = true) :
    answering? entries c o = some e.object := by
  obtain ⟨hc, ho⟩ := overlaps_point.mp hover
  rw [answering?, h.seenAt?_eq_some_iff.mpr ⟨he, hc, ho⟩, Option.map_some]

theorem exists_of_answering? {id : ObjectId} (h : answering? entries c o = some id) :
    ∃ e ∈ entries, e.object = id ∧ e.region.contains o = true := by
  obtain ⟨e, he, rfl⟩ := Option.map_eq_some_iff.mp h
  have htest := List.find?_some he
  rw [Bool.and_eq_true] at htest
  exact ⟨e, List.mem_of_find?_eq_some he, rfl, htest.2⟩

theorem find?_candidates_point {Obj : Type} [ManagedObject Obj] (h : Ordered r.entries) (objects : ObjectId → Obj)
    (hq : q.region = (Region.point o).inContext (some c)) :
    (r.candidates q).find? (fun e => q.accepts (objects e.object)) =
      if q.allows o = true then seenAt? r.entries c o else none := by
  have haccepts (object : Obj) : q.accepts object = q.allows o := by
    have hsearch : q.isSearch = false := by
      rw [Query.isSearch, hq]
      rfl
    rw [Query.accepts, hsearch, hq]
    rfl
  have hmem (e : Entry) : e ∈ r.candidates q ↔ seenAt? r.entries c o = some e := by
    rw [mem_candidates_iff, hq, overlaps_point, h.seenAt?_eq_some_iff]
  simp only [haccepts]
  by_cases hallows : q.allows o = true
  · rw [if_pos hallows]
    cases hfound : (r.candidates q).find? fun _ => q.allows o with
    | some e => exact ((hmem e).mp (List.mem_of_find?_eq_some hfound)).symm
    | none =>
      rw [List.find?_eq_none] at hfound
      refine (Option.eq_none_iff_forall_ne_some.mpr fun e he => ?_).symm
      exact hfound e ((hmem e).mpr he) hallows
  · rw [if_neg hallows, List.find?_eq_none]
    exact fun _ _ => hallows

end Registry
end Responder
