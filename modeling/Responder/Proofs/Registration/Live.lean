import Mathlib.Data.List.Induction
import Responder.Proofs.Registration

/-! What a registry holds after any calls. A registration is in force (`Live`) from the call that it succeeds with until
    it is taken back. The index of the regions lists just the registrations in force, whatever their regions
    (`Kept.index`). The entries do so as long as no two objects share a hollow region, one without any identifier, in
    one context: such regions never overlap, so the second registration takes the place of the first among the entries
    (`listed_of_calls`). -/

namespace Responder.Registry

/-- The call registers the object in the context, and succeeds. -/
def Call.Begins (r : Registry) (call : Call) (object : ObjectId) (context : Option ContextName) : Prop :=
  ∃ region name r', call = .register object region name ∧ contextOf name = context ∧
    r.register object region name = .ok r'

/-- The call takes back the registration of the object in the context. -/
def Call.Ends (call : Call) (object : ObjectId) (context : Option ContextName) : Prop :=
  ∃ name, call = .unregister object name ∧ contextOf name = context

/-- The registration of an object in a context is in force after the calls: one of them began it, and none has ended it
since. -/
def Live (r : Registry) (calls : List Call) (object : ObjectId) (context : Option ContextName) : Prop :=
  ∃ before call after, calls = before ++ call :: after ∧ call.Begins (r.performAll before) object context ∧
    ∀ later ∈ after, ¬later.Ends object context

/-- Nobody but the object asks for its region in the context, or the region holds an identifier. -/
def Sole (regionOf : ObjectId → Region) (calls : List Call) (object : ObjectId) (context : Option ContextName) : Prop :=
  (regionOf object).isEmpty = true → ∀ other region name, .register other region name ∈ calls →
    contextOf name = context → (regionOf other).toRange = (regionOf object).toRange → other = object

variable {r r' r₀ : Registry} {calls : List Call} {call : Call} {object other : ObjectId} {context : Option ContextName}
  {regionOf : ObjectId → Region} {region : Region} {name : Option ContextName}

theorem performAll_concat (r : Registry) (calls : List Call) (call : Call) :
    r.performAll (calls ++ [call]) = (call.perform (r.performAll calls)).2 := by
  rw [performAll, List.foldl_append]
  rfl

/-! ### Registrations in force -/

theorem live_concat : Live r (calls ++ [call]) object context ↔
    call.Begins (r.performAll calls) object context ∨ Live r calls object context ∧ ¬call.Ends object context := by
  constructor
  · rintro ⟨before, begun, after, hcalls, hbegins, hafter⟩
    rcases after.eq_nil_or_concat with rfl | ⟨after, last, rfl⟩
    · obtain ⟨rfl, hlast⟩ := List.append_inj' hcalls rfl
      exact Or.inl (List.singleton_inj.mp hlast ▸ hbegins)
    · rw [List.concat_eq_append, ← List.cons_append, ← List.append_assoc] at hcalls
      obtain ⟨rfl, hlast⟩ := List.append_inj' hcalls rfl
      rw [List.concat_eq_append, List.forall_mem_append, List.forall_mem_singleton] at hafter
      exact Or.inr ⟨⟨before, begun, after, rfl, hbegins, hafter.1⟩, List.singleton_inj.mp hlast ▸ hafter.2⟩
  · rintro (hbegins | ⟨⟨before, begun, after, rfl, hbegins, hafter⟩, hend⟩)
    · exact ⟨calls, call, [], rfl, hbegins, by simp⟩
    · refine ⟨before, begun, after ++ [call], by simp, hbegins, ?_⟩
      exact List.forall_mem_append.mpr ⟨hafter, List.forall_mem_singleton.mpr hend⟩

theorem not_live_nil : ¬Live r [] object context := by
  rintro ⟨before, call, after, hcalls, -⟩
  cases before <;> cases hcalls

theorem Live.exists_register (h : Live r calls object context) :
    ∃ region name, .register object region name ∈ calls ∧ contextOf name = context := by
  obtain ⟨before, call, after, rfl, ⟨region, name, r', rfl, hname, -⟩, -⟩ := h
  exact ⟨region, name, by simp, hname⟩

theorem begins_register_iff : (Call.register other region name).Begins r object context ↔
    (object = other ∧ contextOf name = context) ∧ ∃ r', r.register other region name = .ok r' := by
  constructor
  · rintro ⟨region', name', r', heq, hname, hr'⟩
    cases heq
    exact ⟨⟨rfl, hname⟩, r', hr'⟩
  · rintro ⟨⟨rfl, hname⟩, r', hr'⟩
    exact ⟨region, name, r', rfl, hname, hr'⟩

theorem not_ends_register : ¬(Call.register other region name).Ends object context := by
  rintro ⟨name', heq, -⟩
  cases heq

theorem not_begins_unregister : ¬(Call.unregister other name).Begins r object context := by
  rintro ⟨region, name', r', heq, -⟩
  cases heq

theorem ends_unregister_iff : (Call.unregister other name).Ends object context ↔
    object = other ∧ contextOf name = context := by
  constructor
  · rintro ⟨name', heq, hname⟩
    cases heq
    exact ⟨rfl, hname⟩
  · rintro ⟨rfl, hname⟩
    exact ⟨name, rfl, hname⟩

theorem Sole.of_concat (h : Sole regionOf (calls ++ [call]) object context) : Sole regionOf calls object context :=
  fun hempty other region name hmem => h hempty other region name (List.mem_append_left _ hmem)

/-! ### Entries and the index -/

/-- Among sorted entries the new one takes the place of one with the same region, and of no other. -/
theorem mem_insertEntry_iff {entries : List Entry} {e e' : Entry}
    (h : entries.Pairwise fun a b => Region.order a.region b.region = .lt) :
    e' ∈ insertEntry entries e ↔ e' = e ∨ e' ∈ entries ∧ e'.region ≠ e.region := by
  rw [insertEntry_eq h]
  simp only [List.mem_append, List.mem_cons, List.mem_filter, beq_iff_eq]
  have heq : Region.order e'.region e.region = .eq ↔ e'.region = e.region := Std.LawfulEqCmp.compare_eq_iff_eq
  have hne : e'.region ≠ e.region ↔
      Region.order e'.region e.region = .lt ∨ Region.order e'.region e.region = .gt := by
    rw [ne_eq, ← heq]
    cases Region.order e'.region e.region <;> simp
  rw [hne]
  tauto

theorem Ordered.distinct {entries : List Entry} (h : Ordered entries) :
    entries.Pairwise fun a b => a.region ≠ b.region := by
  refine h.sorted.imp fun {a b} hlt heq => ?_
  rw [heq] at hlt
  cases Std.ReflCmp.compare_self.symm.trans hlt

/-- Two entries have one region only if they are one. -/
theorem Ordered.eq_of_region {entries : List Entry} (h : Ordered entries) {e e' : Entry} (he : e ∈ entries)
    (he' : e' ∈ entries) (hregion : e.region = e'.region) : e = e' := by
  have hsymm : Std.Symm fun a b : Entry => a.region ≠ b.region := ⟨fun _ _ hne => hne.symm⟩
  by_contra hne
  exact h.distinct.forall he he' hne hregion

theorem regions_register (h : r.register object region name = .ok r') :
    r'.regions = (⟨object, contextOf name⟩, region.inContext (contextOf name)) ::
      r.regions.filter (·.1 ≠ ⟨object, contextOf name⟩) := by
  unfold register at h
  dsimp only at h
  split at h
  · cases h
  · cases h
    rfl

/-- A region that holds an identifier overlaps itself. -/
theorem overlaps_self (h : region.isEmpty = false) : region.overlaps region = true := by
  have hcontext : Region.contextsMatch region.context region.context = true := contextsMatch_iff.mpr (Or.inl rfl)
  have hfirst : region.contains region.first = true :=
    Range.contains_iff.mpr ⟨le_rfl, Range.not_isEmpty_iff.mp h⟩
  rw [Region.overlaps, hcontext, Bool.true_and]
  exact Range.meets_iff.mpr ⟨_, hfirst, hfirst⟩

/-- With no key listed twice, a key leads to all that is listed under it. -/
theorem lookup_eq_some_iff_mem {α β : Type} [DecidableEq α] {key : α} {value : β} :
    ∀ {l : List (α × β)}, (l.map (·.1)).Nodup → (l.lookup key = some value ↔ (key, value) ∈ l)
  | [], _ => by simp
  | (k, v) :: l, h => by
    rw [List.map_cons, List.nodup_cons] at h
    rw [List.lookup_cons, List.mem_cons, Prod.mk.injEq]
    by_cases hk : key = k
    · subst hk
      have habsent : (key, value) ∉ l := fun hmem => h.1 (List.mem_map.mpr ⟨_, hmem, rfl⟩)
      simp [habsent, eq_comm]
    · simp only [beq_false_of_ne hk, hk, false_and, false_or]
      exact lookup_eq_some_iff_mem h.2

/-- A region that does not overlap one in force is the same only if it is hollow, and then for the same object. -/
theorem Sole.eq_of_free (hsole : Sole regionOf calls other context)
    (hasked : .register object (regionOf object) name ∈ calls)
    (hfree : ((regionOf other).inContext context).overlaps ((regionOf object).inContext (contextOf name)) = false)
    (heq : (regionOf other).inContext context = (regionOf object).inContext (contextOf name)) :
    other = object ∧ context = contextOf name := by
  have hcontext : context = contextOf name := congrArg Region.context heq
  have hrange := congrArg (fun r : Region => r.toRange) heq
  have hempty : (regionOf other).isEmpty = true := by
    by_contra hfull
    rw [← heq, overlaps_self (Bool.not_eq_true _ ▸ hfull)] at hfree
    cases hfree
  exact ⟨(hsole hempty object _ name hasked hcontext.symm hrange.symm).symm, hcontext⟩

/-- What a registry keeps under calls: its entries are in order, its index lists the registrations in force, and its
entries are those of registrations in force, of each one whose region nobody else can have. -/
structure Kept (regionOf : ObjectId → Region) (r₀ : Registry) (calls : List Call) : Prop where
  ordered : Ordered (r₀.performAll calls).entries
  keys : ((r₀.performAll calls).regions.map (·.1)).Nodup
  index : ∀ object context region, (⟨object, context⟩, region) ∈ (r₀.performAll calls).regions ↔
    Live r₀ calls object context ∧ region = (regionOf object).inContext context
  owned : ∀ e ∈ (r₀.performAll calls).entries, Live r₀ calls e.object e.region.context ∧
    e.region = (regionOf e.object).inContext e.region.context
  entered : ∀ object context, Live r₀ calls object context → Sole regionOf calls object context →
    ⟨(regionOf object).inContext context, object⟩ ∈ (r₀.performAll calls).entries

section Kept
variable (h : Kept regionOf r₀ calls)

theorem kept_nil (hentries : r₀.entries = []) (hregions : r₀.regions = []) : Kept regionOf r₀ [] := by
  constructor <;> simp [performAll, hentries, hregions, Ordered.mk, not_live_nil]

include h

/-- A registration that is turned away. -/
theorem Kept.rejected {error : Error}
    (herror : (r₀.performAll calls).register object region name = .error error) :
    Kept regionOf r₀ (calls ++ [.register object region name]) := by
  have hsame : r₀.performAll (calls ++ [.register object region name]) = r₀.performAll calls := by
    rw [performAll_concat, Call.perform, herror]
  have hlive (object' : ObjectId) (context : Option ContextName) :
      Live r₀ (calls ++ [.register object region name]) object' context ↔ Live r₀ calls object' context := by
    rw [live_concat, begins_register_iff, herror]
    simp [not_ends_register]
  constructor
  · exact hsame ▸ h.ordered
  · exact hsame ▸ h.keys
  · simpa only [hsame, hlive] using h.index
  · simpa only [hsame, hlive] using h.owned
  · simp only [hsame, hlive]
    exact fun object' context hobject hsole => h.entered object' context hobject hsole.of_concat

/-- A registration that succeeds. It takes no entry's place, unless both regions are hollow. -/
theorem Kept.register (hok : (r₀.performAll calls).register object (regionOf object) name = .ok r') :
    Kept regionOf r₀ (calls ++ [.register object (regionOf object) name]) := by
  obtain ⟨hfree, hentries⟩ := entries_register hok
  have hregions := regions_register hok
  have hsame : r₀.performAll (calls ++ [.register object (regionOf object) name]) = r' := by
    rw [performAll_concat, Call.perform, hok]
  have hlive (object' : ObjectId) (context : Option ContextName) :
      Live r₀ (calls ++ [.register object (regionOf object) name]) object' context ↔
        (object' = object ∧ contextOf name = context) ∨ Live r₀ calls object' context := by
    rw [live_concat, begins_register_iff, hok]
    simp [not_ends_register]
  have hmem (e : Entry) : e ∈ r'.entries ↔ e = ⟨(regionOf object).inContext (contextOf name), object⟩ ∨
      e ∈ (r₀.performAll calls).entries ∧ e.region ≠ (regionOf object).inContext (contextOf name) := by
    rw [hentries, mem_insertEntry_iff h.ordered.sorted]
  constructor
  case ordered =>
    rw [hsame, hentries]
    exact h.ordered.insertEntry hfree
  case keys =>
    rw [hsame, hregions, List.map_cons, List.nodup_cons]
    refine ⟨fun hin => ?_, h.keys.sublist (List.filter_sublist.map _)⟩
    obtain ⟨x, hx, hkey⟩ := List.mem_map.mp hin
    exact of_decide_eq_true (List.mem_filter.mp hx).2 hkey
  case index =>
    intro object' context region
    rw [hsame, hlive, hregions, List.mem_cons, List.mem_filter, h.index]
    simp only [Prod.mk.injEq, Registration.mk.injEq, decide_eq_true_eq, ne_eq]
    constructor
    · rintro (⟨⟨rfl, rfl⟩, rfl⟩ | ⟨⟨hobject, rfl⟩, -⟩)
      · exact ⟨Or.inl ⟨rfl, rfl⟩, rfl⟩
      · exact ⟨Or.inr hobject, rfl⟩
    · rintro ⟨hobject, rfl⟩
      by_cases hkey : object' = object ∧ context = contextOf name
      · obtain ⟨rfl, rfl⟩ := hkey
        exact Or.inl ⟨⟨rfl, rfl⟩, rfl⟩
      · exact Or.inr ⟨⟨hobject.resolve_left fun hnew => hkey ⟨hnew.1, hnew.2.symm⟩, rfl⟩, hkey⟩
  case owned =>
    intro e he
    rw [hsame, hmem] at he
    rw [hlive]
    rcases he with rfl | ⟨he, -⟩
    · exact ⟨Or.inl ⟨rfl, rfl⟩, rfl⟩
    · exact ⟨Or.inr (h.owned e he).1, (h.owned e he).2⟩
  case entered =>
    intro object' context hobject hsole
    rw [hlive] at hobject
    rw [hsame, hmem]
    by_cases hkey : object' = object ∧ context = contextOf name
    · obtain ⟨rfl, rfl⟩ := hkey
      exact Or.inl rfl
    · have hold := hobject.resolve_left fun hnew => hkey ⟨hnew.1, hnew.2.symm⟩
      have hentry := h.entered object' context hold hsole.of_concat
      exact Or.inr ⟨hentry, fun heq => hkey (hsole.eq_of_free (by simp) (hfree _ hentry) heq)⟩

theorem Kept.lookup_eq_some_iff : (r₀.performAll calls).regions.lookup ⟨object, context⟩ = some region ↔
    Live r₀ calls object context ∧ region = (regionOf object).inContext context := by
  rw [lookup_eq_some_iff_mem h.keys]
  exact h.index object context region

theorem Kept.lookup_eq_none_iff :
    (r₀.performAll calls).regions.lookup ⟨object, context⟩ = none ↔ ¬Live r₀ calls object context := by
  rw [Option.eq_none_iff_forall_ne_some]
  simp only [ne_eq, h.lookup_eq_some_iff, not_and]
  exact ⟨fun hnone hlive => hnone _ hlive rfl, fun hdead _ hlive => absurd hlive hdead⟩

/-- What comes of taking back a registration that is not in force. -/
theorem Kept.unregister_of_not_live (hdead : ¬Live r₀ calls object (contextOf name)) :
    (r₀.performAll calls).unregister object name = (none, r₀.performAll calls) := by
  simp only [Registry.unregister, h.lookup_eq_none_iff.mpr hdead]

/-- What comes of taking back a registration that is in force. -/
theorem Kept.unregister_of_live (hlive : Live r₀ calls object (contextOf name)) :
    (r₀.performAll calls).unregister object name =
      (((r₀.performAll calls).entryAt? ((regionOf object).inContext (contextOf name))).map (·.object),
        { r₀.performAll calls with
          entries := (r₀.performAll calls).entries.filter
            fun e => e.region ≠ (regionOf object).inContext (contextOf name)
          regions := (r₀.performAll calls).regions.filter (·.1 ≠ ⟨object, contextOf name⟩) }) := by
  simp only [Registry.unregister, h.lookup_eq_some_iff.mpr ⟨hlive, rfl⟩]

/-- Of two objects that are registered under one region only one can have an entry. Where the region is not hollow, or
nobody else asks for it, there are no two. -/
theorem Kept.eq_of_live (hobject : Live r₀ calls object context)
    (hother : Live r₀ calls other context) (hsole : Sole regionOf calls other context)
    (hregion : (regionOf other).inContext context = (regionOf object).inContext context) : object = other := by
  have hrange := congrArg (fun r : Region => r.toRange) hregion
  by_cases hempty : (regionOf other).isEmpty = true
  · obtain ⟨region, name, hasked, hname⟩ := hobject.exists_register
    exact hsole hempty object region name hasked hname hrange.symm
  · have hfull : Sole regionOf calls object context := fun hhollow =>
      absurd ((congrArg (fun r : Range => r.isEmpty) hrange).trans hhollow) hempty
    have hentry := h.entered object context hobject hfull
    have hentry' := h.entered other context hother hsole
    exact congrArg Entry.object (h.ordered.eq_of_region hentry hentry' hregion.symm)

/-- A registration that is taken back. It takes no other entry with it, unless both regions are hollow. -/
theorem Kept.unregister (object : ObjectId) (name : Option ContextName) :
    Kept regionOf r₀ (calls ++ [.unregister object name]) := by
  have hsame : r₀.performAll (calls ++ [.unregister object name]) =
      ((r₀.performAll calls).unregister object name).2 := by
    rw [performAll_concat, Call.perform]
  have hforce (object' : ObjectId) (context : Option ContextName) :
      Live r₀ (calls ++ [.unregister object name]) object' context ↔
        Live r₀ calls object' context ∧ ¬(object' = object ∧ contextOf name = context) := by
    rw [live_concat, ends_unregister_iff, or_iff_right not_begins_unregister]
  by_cases hlive : Live r₀ calls object (contextOf name)
  · rw [h.unregister_of_live hlive] at hsame
    constructor
    · rw [hsame]
      exact h.ordered.sublist List.filter_sublist
    · rw [hsame]
      exact h.keys.sublist (List.filter_sublist.map _)
    · intro object' context region
      rw [hsame, hforce, List.mem_filter, h.index, decide_eq_true_eq, ne_eq, Registration.mk.injEq,
        eq_comm (a := context)]
      tauto
    · intro e he
      rw [hsame, List.mem_filter, decide_eq_true_eq] at he
      obtain ⟨howned, hregion⟩ := h.owned e he.1
      refine ⟨(hforce _ _).mpr ⟨howned, ?_⟩, hregion⟩
      rintro ⟨hobject, hcontext⟩
      exact he.2 (by rw [hregion, hobject, ← hcontext])
    · intro object' context hobject hsole
      rw [hforce] at hobject
      rw [hsame, List.mem_filter, decide_eq_true_eq]
      refine ⟨h.entered object' context hobject.1 hsole.of_concat, fun heq => hobject.2 ?_⟩
      obtain rfl : context = contextOf name := congrArg Region.context heq
      exact ⟨(h.eq_of_live hlive hobject.1 hsole.of_concat heq).symm, rfl⟩
  · rw [h.unregister_of_not_live hlive] at hsame
    have hforce' (object' : ObjectId) (context : Option ContextName) :
        Live r₀ (calls ++ [.unregister object name]) object' context ↔ Live r₀ calls object' context := by
      rw [hforce, and_iff_left_iff_imp]
      rintro hobject ⟨rfl, rfl⟩
      exact hlive hobject
    constructor
    · exact hsame ▸ h.ordered
    · exact hsame ▸ h.keys
    · simpa only [hsame, hforce'] using h.index
    · simpa only [hsame, hforce'] using h.owned
    · simp only [hsame, hforce']
      exact fun object' context hobject hsole => h.entered object' context hobject hsole.of_concat

end Kept

/-- Calls that register each object under a region of its own. -/
def Steadfast (regionOf : ObjectId → Region) (calls : List Call) : Prop :=
  ∀ object region name, .register object region name ∈ calls → region = regionOf object

theorem kept_of_steadfast (hentries : r₀.entries = []) (hregions : r₀.regions = [])
    (hcalls : Steadfast regionOf calls) : Kept regionOf r₀ calls := by
  induction calls using List.reverseRecOn with
  | nil => exact kept_nil hentries hregions
  | append_singleton calls call ih =>
    have h := ih fun object region name hmem => hcalls object region name (List.mem_append_left _ hmem)
    cases call with
    | register object region name =>
      obtain rfl := hcalls object region name (by simp)
      cases hregister : (r₀.performAll calls).register object (regionOf object) name with
      | ok r' => exact h.register hregister
      | error error => exact h.rejected hregister
    | unregister object name => exact h.unregister object name

theorem Kept.entryAt?_eq (h : Kept regionOf r₀ calls) (hlive : Live r₀ calls object context)
    (hsole : Sole regionOf calls object context) :
    (r₀.performAll calls).entryAt? ((regionOf object).inContext context) =
      some ⟨(regionOf object).inContext context, object⟩ := by
  have hentry := h.entered object context hlive hsole
  obtain ⟨e, he⟩ := Option.isSome_iff_exists.mp
    (List.find?_isSome (p := fun e => decide (e.region = (regionOf object).inContext context)).mpr
      ⟨_, hentry, by simp⟩)
  have hregion : e.region = (regionOf object).inContext context := by simpa using List.find?_some he
  rw [Registry.entryAt?, he, h.ordered.eq_of_region (List.mem_of_find?_eq_some he) hentry hregion]

theorem Kept.nodup_regionsOf (h : Kept regionOf r₀ calls) (object : ObjectId) :
    (((r₀.performAll calls).regionsOf object).map (·.1)).Nodup := by
  rw [regionsOf, ((List.mergeSort_perm _ _).map _).nodup_iff, List.map_map]
  have hkeys := h.keys.sublist <| List.Sublist.map (·.1) <|
    List.filter_sublist (p := fun x : Registration × Region => decide (x.1.object = object))
  -- The keys of one object differ in their contexts.
  have hcontexts := hkeys.map_on (f := Registration.context) fun x hx y hy heq => ?_
  · rwa [List.map_map] at hcontexts
  · obtain ⟨⟨⟨x, c⟩, region⟩, hxs, rfl⟩ := List.mem_map.mp hx
    obtain ⟨⟨⟨y, c'⟩, region'⟩, hys, rfl⟩ := List.mem_map.mp hy
    obtain rfl : x = object := by simpa using (List.mem_filter.mp hxs).2
    obtain rfl : y = x := by simpa using (List.mem_filter.mp hys).2
    exact congrArg (Registration.mk y) heq

theorem Kept.mem_regionsOf_iff (h : Kept regionOf r₀ calls) :
    (context, region) ∈ (r₀.performAll calls).regionsOf object ↔
      Live r₀ calls object context ∧ region = (regionOf object).inContext context := by
  rw [← h.index, regionsOf, List.mem_mergeSort, List.mem_map]
  constructor
  · rintro ⟨⟨⟨object', context'⟩, region'⟩, hx, heq⟩
    obtain ⟨rfl, rfl⟩ := Prod.mk.inj heq
    obtain ⟨hmem, hobject⟩ := List.mem_filter.mp hx
    obtain rfl : object' = object := by simpa using hobject
    exact hmem
  · intro hx
    exact ⟨_, List.mem_filter.mpr ⟨hx, by simp⟩, rfl⟩

/-- A registry lists what was registered. After any calls on an empty registry that register each object under a region
of its own, hollow or not, the index lists the contexts that an object is registered in, each of them once. The entries
have regions of their own, and each is that of a registration in force; every registration in force has its entry,
unless its region is hollow and others have asked for the same one in its context. Taking back a registration that is
not in force does nothing. Otherwise it goes from the index, and so does the entry at its region, whose object is given
back: the object itself, with the same exception. -/
theorem listed_of_calls (contexts : List ContextName) (locks : Locks) (locking : Locking) {calls : List Call}
    (hcalls : Steadfast regionOf calls) :
    let r := performAll { contexts, locks, locking } calls
    let live := Live { contexts, locks, locking } calls
    (∀ object, ((r.regionsOf object).map (·.1)).Nodup ∧ ∀ context region, (context, region) ∈ r.regionsOf object ↔
      live object context ∧ region = (regionOf object).inContext context) ∧
    (r.entries.Pairwise fun a b => a.region ≠ b.region) ∧
    (∀ e ∈ r.entries, live e.object e.region.context ∧ e.region = (regionOf e.object).inContext e.region.context) ∧
    (∀ object context, live object context → Sole regionOf calls object context →
      ⟨(regionOf object).inContext context, object⟩ ∈ r.entries) ∧
    ∀ object name, (¬live object (contextOf name) → r.unregister object name = (none, r)) ∧
      (live object (contextOf name) →
        let region := (regionOf object).inContext (contextOf name)
        r.unregister object name = ((r.entryAt? region).map (·.object),
          { r with
            entries := r.entries.filter fun e => e.region ≠ region
            regions := r.regions.filter (·.1 ≠ ⟨object, contextOf name⟩) }) ∧
        (Sole regionOf calls object (contextOf name) → r.entryAt? region = some ⟨region, object⟩)) := by
  intro r live
  have h : Kept regionOf { contexts, locks, locking } calls := kept_of_steadfast rfl rfl hcalls
  refine ⟨fun object => ⟨h.nodup_regionsOf object, fun _ _ => h.mem_regionsOf_iff⟩, h.ordered.distinct, h.owned,
    h.entered, fun object name => ?_⟩
  exact ⟨h.unregister_of_not_live, fun hlive => ⟨h.unregister_of_live hlive, h.entryAt?_eq hlive⟩⟩

/-- A region between an identifier and itself, which holds none. -/
def hollow : Region := .everywhere ⟨⟨[1, 3]⟩, true, some ⟨[1, 3]⟩, false⟩

/-- Two objects are registered under one hollow region. -/
def twins : List Call := [.register ⟨0⟩ hollow none, .register ⟨1⟩ hollow none]

/-- Both registrations are in force, and only the second one is listed. Taking back the first one gives back the other
object, and leaves nothing to list. -/
theorem not_listed_of_twins : Live {} twins ⟨0⟩ none ∧ Live {} twins ⟨1⟩ none ∧
    (performAll {} twins).entries = [⟨hollow, ⟨1⟩⟩] ∧ ((performAll {} twins).unregister ⟨0⟩ none).1 = some ⟨1⟩ ∧
    Live {} (twins ++ [.unregister ⟨0⟩ none]) ⟨1⟩ none ∧
    (performAll {} (twins ++ [.unregister ⟨0⟩ none])).entries = [] := by
  have hfirst : Live {} twins ⟨0⟩ none :=
    ⟨[], _, [.register ⟨1⟩ hollow none], rfl, ⟨_, _, _, rfl, rfl, rfl⟩, by simp [not_ends_register]⟩
  have hsecond : Live {} twins ⟨1⟩ none :=
    ⟨[.register ⟨0⟩ hollow none], _, [], rfl, ⟨_, _, _, rfl, rfl, rfl⟩, by simp⟩
  refine ⟨hfirst, hsecond, by decide, by decide, live_concat.mpr (Or.inr ⟨hsecond, ?_⟩), by decide⟩
  rw [ends_unregister_iff]
  decide

/-- The regions of three objects: one holds the others, and the last one is hollow. -/
def shelfRegion (object : ObjectId) : Region :=
  if object = ⟨0⟩ then .subtree ⟨[1, 3]⟩ else if object = ⟨1⟩ then .subtree ⟨[1, 3, 6]⟩ else hollow

/-- An object is turned away where another one is, registered in a context of its own, and outlives the other one. -/
def shelving : List Call := [
  .register ⟨0⟩ (shelfRegion ⟨0⟩) (some [120]), .register ⟨1⟩ (shelfRegion ⟨1⟩) (some [120]),
  .register ⟨1⟩ (shelfRegion ⟨1⟩) (some [121]), .register ⟨2⟩ (shelfRegion ⟨2⟩) (some []), .unregister ⟨0⟩ (some [120])]

theorem listed_of_shelving : Steadfast shelfRegion shelving ∧
    (performAll {} shelving).entries = [⟨hollow, ⟨2⟩⟩, ⟨(Region.subtree ⟨[1, 3, 6]⟩).inContext (some [121]), ⟨1⟩⟩] ∧
    (∀ context region, (context, region) ∈ (performAll {} shelving).regionsOf ⟨1⟩ ↔
      Live {} shelving ⟨1⟩ context ∧ region = (shelfRegion ⟨1⟩).inContext context) ∧
    ((performAll {} shelving).unregister ⟨2⟩ none).1 = some ⟨2⟩ ∧
    (performAll {} shelving).unregister ⟨1⟩ (some [120]) = (none, performAll {} shelving) := by
  have hsteadfast : Steadfast shelfRegion shelving := by
    intro object region name hmem
    simp only [shelving, List.mem_cons, Call.register.injEq, reduceCtorEq, List.not_mem_nil, or_false] at hmem
    rcases hmem with ⟨rfl, rfl, -⟩ | ⟨rfl, rfl, -⟩ | ⟨rfl, rfl, -⟩ | ⟨rfl, rfl, -⟩ <;> rfl
  obtain ⟨hcontexts, -, -, -, htaken⟩ := listed_of_calls [] {} .writes hsteadfast
  refine ⟨hsteadfast, by decide, (hcontexts ⟨1⟩).2, by decide, (htaken ⟨1⟩ (some [120])).1 fun hlive => ?_⟩
  have hlisted := ((hcontexts ⟨1⟩).2 _ _).mpr ⟨hlive, rfl⟩
  rw [regionsOf, List.mem_mergeSort] at hlisted
  revert hlisted
  decide

end Responder.Registry
