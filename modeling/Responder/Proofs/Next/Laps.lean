import Mathlib.Data.Finset.Card
import Mathlib.Data.Finset.Image
import Responder.Proofs.Next.Contention
import Responder.Proofs.Next.Decline
import Responder.Proofs.Next.Skipping
import Responder.Proofs.Region

/-! The laps of a search. A search asks one object a lap, and what it comes to is what its laps come to (`serve_eq`).
    It goes on above the region of an object that has declined, and past a counter that the first version cannot
    carry; either way less lies ahead of it, entries or counters (`Lap.Advances.narrower`). So it comes to its end by
    itself, after one lap for each of them and one more, as long as objects show variables of a finite stock, each
    where the search is (`laps_of_draws`). -/

namespace Responder

/-! ### Regions that narrow -/

namespace Range

variable {r : Range} {o o' : Oid}

theorem contains_past : (r.past o).contains o' = true ↔ o < o' ∧ r.reaches o' = true := by
  simp only [contains_iff, first, past, Bool.false_eq_true, if_false, Oid.successor_le_iff, reaches]

end Range

namespace Region

variable {r r' a b : Region} {o : Oid}

/-- The first region has the second one in it. -/
structure Narrows (r r' : Region) : Prop where
  context : r'.context = r.context
  contains : ∀ o, r'.contains o = true → r.contains o = true

theorem Narrows.refl (r : Region) : r.Narrows r := ⟨rfl, fun _ => id⟩

theorem Narrows.trans {r'' : Region} (h : r.Narrows r') (h' : r'.Narrows r'') : r.Narrows r'' :=
  ⟨h'.context.trans h.context, fun o ho => h.contains o (h'.contains o ho)⟩

theorem narrows_above (r : Region) (other : Range) : r.Narrows (r.above other) :=
  ⟨rfl, fun _ ho => (Range.contains_above.mp ho).1⟩

theorem narrows_past (h : r.contains o = true) : r.Narrows (r.past o) := by
  refine ⟨rfl, fun o' ho' => ?_⟩
  obtain ⟨hlt, hreaches⟩ := Range.contains_past.mp ho'
  exact Range.contains_iff.mpr ⟨(Range.contains_iff.mp h).1.trans hlt.le, hreaches⟩

theorem not_contains_past (r : Region) (o : Oid) : (r.past o).contains o = false := by
  rw [← Bool.not_eq_true]
  exact fun h => lt_irrefl o (Range.contains_past.mp h).1

theorem Narrows.overlaps (h : r.Narrows r') (hover : r'.overlaps b = true) : r.overlaps b = true := by
  obtain ⟨hcontext, o, ho, hb⟩ := overlaps_iff.mp hover
  exact overlaps_iff.mpr ⟨h.context ▸ hcontext, o, h.contains o ho, hb⟩

/-- What is left above a region has nothing of it. -/
theorem not_overlaps_above (a b : Region) : (a.above b.toRange).overlaps b = false := by
  rw [← Bool.not_eq_true, overlaps_iff]
  rintro ⟨-, o, habove, hb⟩
  exact not_contains_of_above habove hb

end Region

namespace Next

/-! ### Laps -/

/-- How one lap of a search comes out: with the end of the search, or with what is left to be searched after an object
has declined or a counter was passed over. -/
inductive Outcome where
  | ended (out : Item × Option Error)
  | declined (left : Item)
  | passed (counter : Oid) (left : Item)

/-- The item that the search goes on with. -/
def Outcome.left? : Outcome → Option Item
  | ended _ => none
  | declined left | passed _ left => some left

/-- One lap of a search. -/
structure Lap where
  /-- Where the search was. -/
  region : Region
  /-- What the registry had for it. -/
  offered : Option Entry
  outcome : Outcome

section Laps
variable {Obj : Type} [ManagedObject Obj]

/-- What comes of the answer of an object. -/
def judge (p : Policy) (who : Requester) (entry : Entry) (item : Item) : Except Fault Bool → Outcome
  | .error fault => .ended (p.report item .genErr fault)
  | .ok true =>
    if who.version = .v1 ∧ item.value.isCounter64 then
      .passed item.oid { item.setValue .null with region := item.region.past item.oid }
    else .ended (if item.deferred then item else item.finish, none)
  | .ok false =>
    let left := { item.setValue .null with region := item.region.above entry.region.toRange }
    if left.region.isEmpty then .ended (endOfView left, none) else .declined left

/-- One lap of a search: it looks for an object, and asks it. -/
def lap (p : Policy) (registry : Nat) (who : Requester) (x : Item) : Doing Obj Lap := do
  let found ← p.lookUp registry who (p.query who x.region false)
  match found.entry with
  | none => return ⟨x.region, none, .ended (if found.lock = .timedOut then x.defer else endOfView x, none)⟩
  | some entry =>
    let answer ← callObject .next who entry.object x
    found.release registry who entry.object
    return ⟨x.region, some entry, judge p who entry answer.1 answer.2⟩

/-- The laps of a search, no more than `patience`. -/
def laps (p : Policy) (registry : Nat) (who : Requester) : Nat → Item → Doing Obj (List Lap)
  | 0, _ => return []
  | patience + 1, x => do
    let l ← lap p registry who x
    match l.outcome.left? with
    | none => return [l]
    | some left => return l :: (← laps p registry who patience left)

/-- What a search comes to after its laps. -/
def conclude (x : Item) : List Lap → Item × Option Error
  | [] => (x, none)
  | l :: rest =>
    match l.outcome with
    | .ended out => out
    | .declined left | .passed _ left => conclude left rest

variable {p : Policy} {registry : Nat} {who : Requester}

/-- What follows an answer is what comes of it, or what comes of the rest. -/
theorem proceed_eq (patience : Nat) (e : Entry) (answer : Item × Except Fault Bool) :
    (proceed p registry who patience e answer : Doing Obj _) =
      match judge p who e answer.1 answer.2 with
      | .ended out => pure out
      | .declined left | .passed _ left => serve p registry who patience left := by
  unfold proceed judge
  cases answer.2 with
  | error fault => rfl
  | ok found =>
    cases found with
    | true =>
      dsimp only
      split <;> rfl
    | false =>
      dsimp only
      split <;> rfl

/-- A search is its laps, and its end is what they come to. -/
theorem serve_eq : ∀ (patience : Nat) (x : Item), (serve p registry who patience x : Doing Obj _) =
    do return conclude x (← laps p registry who patience x)
  | 0, x => by simp only [serve, laps, conclude, pure_bind]
  | patience + 1, x => by
    rw [serve_succ, laps, lap]
    simp only [bind_assoc]
    refine bind_congr fun found => ?_
    cases found.entry with
    | none => simp only [pure_bind, Outcome.left?, conclude]
    | some e =>
      simp only [bind_assoc, pure_bind]
      refine bind_congr fun answer => bind_congr fun _ => ?_
      rw [proceed_eq]
      cases judge p who e answer.1 answer.2 with
      | ended out => simp only [Outcome.left?, pure_bind, conclude]
      | declined left => simp only [Outcome.left?, serve_eq patience left, bind_assoc, pure_bind, conclude]
      | passed o left => simp only [Outcome.left?, serve_eq patience left, bind_assoc, pure_bind, conclude]

end Laps

/-! ### What lies ahead -/

section Ahead
variable {entries : List Entry} {counters : Finset Oid} {r : Region} {e : Entry} {o : Oid}

/-- How much lies ahead of a search: the entries that its region overlaps, and the counters in it. -/
def ahead (entries : List Entry) (counters : Finset Oid) (r : Region) : Nat :=
  (entries.toFinset.filter fun e => r.overlaps e.region = true).card +
    (counters.filter fun o => r.contains o = true).card

theorem ahead_le (entries : List Entry) (counters : Finset Oid) (r : Region) :
    ahead entries counters r ≤ entries.length + counters.card :=
  Nat.add_le_add ((Finset.card_filter_le _ _).trans entries.toFinset_card_le) (Finset.card_filter_le _ _)

section Filters
variable {α : Type} {s : Finset α} {f g : α → Bool} (himp : ∀ a, g a = true → f a = true)
include himp

theorem card_filter_le_of_imp : (s.filter fun a => g a = true).card ≤ (s.filter fun a => f a = true).card :=
  Finset.card_le_card (Finset.monotone_filter_right s fun a _ => himp a)

/-- A narrower filter that drops something keeps less. -/
theorem card_filter_lt_of_imp {a : α} (ha : a ∈ s) (hf : f a = true) (hg : g a = false) :
    (s.filter fun a => g a = true).card < (s.filter fun a => f a = true).card := by
  apply Finset.card_lt_card
  rw [Finset.ssubset_iff_of_subset (Finset.monotone_filter_right s fun a _ => himp a)]
  refine ⟨a, Finset.mem_filter.mpr ⟨ha, hf⟩, fun hmem => ?_⟩
  cases hg.symm.trans (Finset.mem_filter.mp hmem).2

end Filters

/-- Above the region of an entry there is one entry less. -/
theorem ahead_above_lt (he : e ∈ entries) (hover : r.overlaps e.region = true) :
    ahead entries counters (r.above e.region.toRange) < ahead entries counters r := by
  have hnarrows := r.narrows_above e.region.toRange
  have hdropped := r.not_overlaps_above e.region
  exact Nat.add_lt_add_of_lt_of_le
    (card_filter_lt_of_imp (fun _ => hnarrows.overlaps) (List.mem_toFinset.mpr he) hover hdropped)
    (card_filter_le_of_imp hnarrows.contains)

/-- Past a counter there is one counter less. -/
theorem ahead_past_lt (ho : o ∈ counters) (hin : r.contains o = true) :
    ahead entries counters (r.past o) < ahead entries counters r := by
  have hnarrows := Region.narrows_past hin
  have hdropped := r.not_contains_past o
  exact Nat.add_lt_add_of_le_of_lt (card_filter_le_of_imp fun _ => hnarrows.overlaps)
    (card_filter_lt_of_imp hnarrows.contains ho hin hdropped)

end Ahead

/-! ### Objects that show variables of a stock -/

section Draws
variable {Obj : Type} [ManagedObject Obj]

/-- What an object with a stock of variables may leave in an item: what was there, or a variable of the stock that lies
where the search is. -/
def Shown (stock : Finset Binding) (x : Item) (b : Binding) : Prop :=
  b = x.binding ∨ b ∈ stock ∧ x.region.contains b.oid = true

/-- What objects with a stock of variables promise for a search: to stay such objects, and to leave in the item what
they may, unless they decline or fail. An object that asks for more time may leave the item as it was. -/
structure Draws (holds : Obj → Prop) (stock : Finset Binding) : Prop where
  keeps : ∀ object who x, holds object → holds (ManagedObject.next who x object).object
  shows : ∀ object who x, holds object → (ManagedObject.next who x object).result = .ok true →
    Shown stock x (x.editAll (ManagedObject.next who x object).edits).binding

/-- The names of the counters of 64 bits in a stock. -/
def countersOf (stock : Finset Binding) : Finset Oid :=
  (stock.filter fun b => b.value.isCounter64 = true).image Binding.oid

/-- How a lap for an item comes out among entries and counters. -/
structure Lap.Advances (entries : List Entry) (counters : Finset Oid) (x : Item) (l : Lap) : Prop where
  region : l.region = x.region
  offered : ∀ e, l.offered = some e → e ∈ entries ∧ x.region.overlaps e.region = true
  declined : ∀ left, l.outcome = .declined left →
    ∃ e, l.offered = some e ∧ left.region = x.region.above e.region.toRange
  passed : ∀ o left, l.outcome = .passed o left →
    o ∈ counters ∧ x.region.contains o = true ∧ left.region = x.region.past o
  carried : ∀ left, l.outcome.left? = some left → left.value.isCounter64 = false

variable {holds : Obj → Prop} {stock : Finset Binding} {registry : Nat} {entries : List Entry} {s : State Obj}
  {p : Policy} {who : Requester} {x : Item} {e : Entry}

theorem Ground.call (hdraws : Draws holds stock) (h : Ground holds registry entries s) (he : e ∈ entries) :
    Ground holds registry entries (s.call .next who e.object x).2 := by
  refine ⟨fun e' he' => ?_, h.entries⟩
  simp only [State.call, State.setObject]
  split
  · exact hdraws.keeps _ who x (h.objects e he)
  · exact h.objects e' he'

/-- What an object shows that cannot be carried is a counter of the stock, where the search is. -/
theorem Draws.counter (hdraws : Draws holds stock) {object : Obj} (hobject : holds object)
    (hx : x.value.isCounter64 = false) {item : Item}
    (hitem : item = x.editAll (ManagedObject.next who x object).edits)
    (hresult : (ManagedObject.next who x object).result = .ok true) (hcounter : item.value.isCounter64 = true) :
    item.oid ∈ countersOf stock ∧ x.region.contains item.oid = true := by
  subst hitem
  rcases hdraws.shows object who x hobject hresult with hsame | ⟨hmem, hin⟩
  · rw [Item.value, hsame, ← Item.value, hx] at hcounter
    cases hcounter
  · exact ⟨Finset.mem_image_of_mem _ (Finset.mem_filter.mpr ⟨hmem, hcounter⟩), hin⟩

omit [ManagedObject Obj] in
/-- A lap that ends the search. -/
theorem advances_over {counters : Finset Oid} {offered : Option Entry}
    (hoffered : ∀ e, offered = some e → e ∈ entries ∧ x.region.overlaps e.region = true) (out : Item × Option Error) :
    Lap.Advances entries counters x ⟨x.region, offered, .ended out⟩ where
  region := rfl
  offered := hoffered
  declined _ h := by cases h
  passed _ _ h := by cases h
  carried _ h := by cases h

/-- What comes of the answer of an object that was offered. -/
theorem advances_judge (hdraws : Draws holds stock) {object : Obj} (hobject : holds object)
    (hx : x.value.isCounter64 = false) (he : e ∈ entries) (hover : x.region.overlaps e.region = true) :
    Lap.Advances entries (countersOf stock) x ⟨x.region, some e,
      judge p who e (x.editAll (ManagedObject.next who x object).edits) (ManagedObject.next who x object).result⟩ := by
  have hoffered (e' : Entry) (he' : some e = some e') : e' ∈ entries ∧ x.region.overlaps e'.region = true :=
    Option.some.inj he' ▸ ⟨he, hover⟩
  have hcounter (hresult : (ManagedObject.next who x object).result = .ok true) :=
    hdraws.counter hobject hx rfl hresult
  have hregion : (x.editAll (ManagedObject.next who x object).edits).region = x.region := x.editAll_region _
  generalize x.editAll (ManagedObject.next who x object).edits = item at hcounter hregion
  cases hresult : (ManagedObject.next who x object).result with
  | error fault => exact advances_over hoffered _
  | ok found =>
    cases found with
    | true =>
      by_cases hskips : who.version = .v1 ∧ item.value.isCounter64 = true
      · obtain ⟨hmem, hin⟩ := hcounter hresult hskips.2
        simp only [judge, if_pos hskips]
        refine ⟨rfl, hoffered, by simp, ?_, ?_⟩
        · rintro _ _ ⟨⟩
          exact ⟨hmem, hin, congrArg (Region.past · _) hregion⟩
        · rintro _ ⟨⟩
          rfl
      · simp only [judge, if_neg hskips]
        exact advances_over hoffered _
    | false =>
      simp only [judge]
      split
      · exact advances_over hoffered _
      · refine ⟨rfl, hoffered, ?_, by simp, ?_⟩
        · rintro _ ⟨⟩
          exact ⟨e, rfl, congrArg (Region.above · _) hregion⟩
        · rintro _ ⟨⟩
          rfl

/-- What others do meanwhile: the registered objects stay as they have promised to be. -/
def Leaves (holds : Obj → Prop) (registry : Nat) (entries : List Entry) (s t : State Obj) : Prop :=
  Ground holds registry entries s → Ground holds registry entries t

omit [ManagedObject Obj] in
theorem steady_ground {number : Nat} :
    Steady (Leaves holds registry entries) number (Ground holds registry entries) :=
  ⟨fun hlocks => Ground.bare hlocks.bare, fun hleaves => hleaves⟩

/-- One lap. -/
theorem lap_ensures (hdraws : Draws holds stock) (hx : x.value.isCounter64 = false)
    (hs : Ground holds registry entries s) :
    (lap p registry who x).Ensures (Leaves holds registry entries) (Ground holds registry entries) s fun l t =>
      Ground holds registry entries t ∧ l.Advances entries (countersOf stock) x := by
  simp only [lap, Activity.ensures_bind]
  have hentries (s : State Obj) (hs : Ground holds registry entries s) : ∀ e ∈ (s.registry registry).entries,
      (p.query who x.region false).region.overlaps e.region = true → e ∈ entries ∧ x.region.overlaps e.region = true :=
    fun e he hover => ⟨hs.entries ▸ he, hover⟩
  refine (Lookup.run_ensures steady_ground hentries p.patience hs).mono (fun _ => id) ?_
  rintro f t ⟨ht, hsound⟩
  cases hfound : f.entry with
  | none => exact ⟨ht, advances_over (by simp) _⟩
  | some e =>
    obtain ⟨⟨he, hover⟩, -⟩ := hsound e hfound
    simp only [Activity.ensures_bind, callObject, Activity.ensures_modifyGet]
    refine (f.release_ensures registry who e.object _).mono (fun _ => id) ?_
    rintro ⟨⟩ u ⟨hbare, -⟩
    exact ⟨(ht.call hdraws he).bare hbare, advances_judge hdraws (ht.objects e he) hx he hover⟩

end Draws

/-! ### All laps -/

/-- What a lap rules out for those that come after it. Nothing comes after the end; an entry that has declined is not
offered again; and the search does not come back to a counter that was passed over. -/
def Lap.Bars (l l' : Lap) : Prop :=
  match l.outcome with
  | .ended _ => False
  | .declined _ => l'.offered ≠ l.offered
  | .passed o _ => l'.region.contains o = false

/-- What the laps of a search from a region on come to. -/
structure Spends (entries : List Entry) (counters : Finset Oid) (r : Region) (patience : Nat) (ls : List Lap) :
    Prop where
  narrows : ∀ l ∈ ls, r.Narrows l.region
  offered : ∀ l ∈ ls, ∀ e, l.offered = some e → l.region.overlaps e.region = true
  bars : ls.Pairwise Lap.Bars
  length : ls.length ≤ ahead entries counters r + 1
  ends : ahead entries counters r < patience → ∃ l ∈ ls, ∃ out, l.outcome = .ended out

section Spends
variable {entries : List Entry} {counters : Finset Oid} {x left : Item} {l : Lap} {patience : Nat} {ls : List Lap}

/-- A search that may not go on. -/
theorem spends_nil (r : Region) : Spends entries counters r 0 [] :=
  ⟨by simp, by simp, .nil, Nat.zero_le _, fun h => absurd h (Nat.not_lt_zero _)⟩

namespace Lap.Advances

/-- The last lap. -/
theorem single (h : l.Advances entries counters x) (hend : l.outcome.left? = none) :
    Spends entries counters x.region (patience + 1) [l] where
  narrows := List.forall_mem_singleton.mpr (h.region ▸ .refl _)
  offered := List.forall_mem_singleton.mpr fun e he => h.region ▸ (h.offered e he).2
  bars := List.pairwise_singleton _ _
  length := Nat.le_add_left 1 _
  ends _ := by
    refine ⟨l, List.mem_singleton.mpr rfl, ?_⟩
    cases hl : l.outcome with
    | ended out => exact ⟨out, rfl⟩
    | declined left | passed o left =>
      rw [hl] at hend
      cases hend

/-- A lap leaves less for the next one. -/
theorem narrower (h : l.Advances entries counters x) (hleft : l.outcome.left? = some left) :
    x.region.Narrows left.region ∧ ahead entries counters left.region < ahead entries counters x.region := by
  cases hl : l.outcome with
  | ended out =>
    rw [hl] at hleft
    cases hleft
  | declined item =>
    rw [hl] at hleft
    obtain rfl := Option.some.inj hleft
    obtain ⟨e, he, hregion⟩ := h.declined item hl
    obtain ⟨hmem, hover⟩ := h.offered e he
    exact hregion ▸ ⟨x.region.narrows_above _, ahead_above_lt hmem hover⟩
  | passed o item =>
    rw [hl] at hleft
    obtain rfl := Option.some.inj hleft
    obtain ⟨hmem, hin, hregion⟩ := h.passed o item hl
    exact hregion ▸ ⟨Region.narrows_past hin, ahead_past_lt hmem hin⟩

/-- A lap bars what it has to from what is left after it. -/
theorem bars (h : l.Advances entries counters x) (hleft : l.outcome.left? = some left) {l' : Lap}
    (hnarrows : left.region.Narrows l'.region)
    (hoffered : ∀ e, l'.offered = some e → l'.region.overlaps e.region = true) : l.Bars l' := by
  unfold Lap.Bars
  cases hl : l.outcome with
  | ended out =>
    rw [hl] at hleft
    cases hleft
  | declined item =>
    rw [hl] at hleft
    obtain rfl := Option.some.inj hleft
    obtain ⟨e, he, hregion⟩ := h.declined item hl
    intro hagain
    have hover := hnarrows.overlaps (hoffered e (hagain.trans he))
    rw [hregion, Region.not_overlaps_above] at hover
    cases hover
  | passed o item =>
    rw [hl] at hleft
    obtain rfl := Option.some.inj hleft
    obtain ⟨-, -, hregion⟩ := h.passed o item hl
    refine Bool.eq_false_iff.mpr fun hback => ?_
    have hin := hnarrows.contains o hback
    rw [hregion, Region.not_contains_past] at hin
    cases hin

/-- A lap before the others. -/
theorem cons (h : l.Advances entries counters x) (hleft : l.outcome.left? = some left)
    (hrest : Spends entries counters left.region patience ls) :
    Spends entries counters x.region (patience + 1) (l :: ls) := by
  obtain ⟨hnarrows, hless⟩ := h.narrower hleft
  have hlength := hrest.length
  refine ⟨?_, ?_, ?_, ?_, fun hlt => ?_⟩
  · exact List.forall_mem_cons.mpr ⟨h.region ▸ .refl _, fun l hl => hnarrows.trans (hrest.narrows l hl)⟩
  · exact List.forall_mem_cons.mpr ⟨fun e he => h.region ▸ (h.offered e he).2, hrest.offered⟩
  · exact List.pairwise_cons.mpr ⟨fun l' hl' => h.bars hleft (hrest.narrows l' hl') (hrest.offered l' hl'), hrest.bars⟩
  · rw [List.length_cons]
    omega
  · obtain ⟨l', hl', hover⟩ := hrest.ends (by omega)
    exact ⟨l', List.mem_cons_of_mem l hl', hover⟩

end Lap.Advances
end Spends

section Search
variable {Obj : Type} [ManagedObject Obj] {holds : Obj → Prop} {stock : Finset Binding} {registry : Nat}
  {entries : List Entry} {p : Policy} {who : Requester}

/-- Every lap leaves less for the next one. The induction is on how many laps there may be. -/
theorem laps_ensures (hdraws : Draws holds stock) : ∀ (patience : Nat) (x : Item) (s : State Obj),
    x.value.isCounter64 = false → Ground holds registry entries s →
      (laps p registry who patience x).Ensures (Leaves holds registry entries) (Ground holds registry entries) s
        fun ls t => Ground holds registry entries t ∧ Spends entries (countersOf stock) x.region patience ls
  | 0, x, s, _, hs => ⟨hs, spends_nil x.region⟩
  | patience + 1, x, s, hx, hs => by
    simp only [laps, Activity.ensures_bind]
    refine (lap_ensures hdraws hx hs).mono (fun _ => id) ?_
    rintro l t ⟨ht, hl⟩
    cases hleft : l.outcome.left? with
    | none => exact ⟨ht, hl.single hleft⟩
    | some left =>
      simp only [Activity.ensures_bind]
      refine (laps_ensures hdraws patience left t (hl.carried left hleft) ht).mono (fun _ => id) ?_
      rintro ls u ⟨hu, hrest⟩
      exact ⟨hu, hl.cons hleft hrest⟩

/-- A search ends by itself. Among objects that show variables of a stock it takes no more laps than there are entries
and counters of 64 bits, and one more; and if it may take so many, the last one is its end. -/
theorem laps_of_draws (hdraws : Draws holds stock) (p : Policy) (who : Requester) (patience : Nat) (x : Item)
    (hx : x.value.isCounter64 = false) {s : State Obj} (hs : Ground holds registry entries s) :
    (serve p registry who patience x : Doing Obj _) = (do return conclude x (← laps p registry who patience x)) ∧
    (laps p registry who patience x).Ensures (Leaves holds registry entries) (Ground holds registry entries) s
      fun ls _ => ls.Pairwise Lap.Bars ∧ ls.length ≤ entries.length + (countersOf stock).card + 1 ∧
        (entries.length + (countersOf stock).card < patience → ∃ l ∈ ls, ∃ out, l.outcome = .ended out) := by
  have hahead := ahead_le entries (countersOf stock) x.region
  refine ⟨serve_eq patience x, (laps_ensures hdraws patience x s hx hs).mono (fun _ => id) ?_⟩
  rintro ls t ⟨-, hspends⟩
  exact ⟨hspends.bars, hspends.length.trans (Nat.add_le_add_right hahead 1), fun hlt => hspends.ends (by omega)⟩

end Search

/-! ### Instruments with a stock -/

section Instruments
variable {stock : Finset Binding} {x : Item}

/-- Instruments whose variables are of a stock. A scripted one may decline, fail, or ask for more time. -/
def Stocked (stock : Finset Binding) : Instrument → Prop
  | .scalar s => ⟨s.oid, s.value⟩ ∈ stock
  | .table t => ∀ e ∈ t.values.entries, ⟨e.1, e.2⟩ ∈ stock
  | .constant c => ⟨c.oid, c.value⟩ ∈ stock
  | .scripted s => (∀ e ∈ s.values.entries, ⟨e.1, e.2⟩ ∈ stock) ∧
    ∀ action ∈ s.script .next, ∀ edit ∈ action.edits, edit = .defer

theorem mem_of_firstIn? {m : OidMap Value} {r : Range} {e : Oid × Value} (h : m.firstIn? r = some e) :
    e ∈ m.entries ∧ r.contains e.1 = true := by
  obtain ⟨hhead, hin⟩ := Option.filter_eq_some_iff.mp h
  refine ⟨?_, hin⟩
  have hmem := List.mem_of_head? hhead
  split at hmem
  · exact List.mem_of_mem_drop hmem
  · exact List.mem_of_mem_drop hmem

/-- An item that is put off, however often, keeps its binding. -/
theorem binding_editAll_defer : ∀ {edits : List Edit} (x : Item), (∀ edit ∈ edits, edit = .defer) →
    (x.editAll edits).binding = x.binding
  | [], _, _ => rfl
  | edit :: rest, x, h => by
    obtain ⟨rfl, hrest⟩ := List.forall_mem_cons.mp h
    exact binding_editAll_defer x.defer hrest

/-- What a plain table shows is one of its variables, where the search is. -/
theorem shown_plainly {s : Scripted} (hs : ∀ e ∈ s.values.entries, ⟨e.1, e.2⟩ ∈ stock) {later : List Edit}
    (hlater : ∀ edit ∈ later, edit = .defer) (hresult : (s.plainly .next x).result = .ok true) :
    Shown stock x (x.editAll ((s.plainly .next x).edits ++ later)).binding := by
  unfold Scripted.plainly at hresult ⊢
  cases hfirst : s.values.firstIn? x.region.toRange with
  | none => simp only [hfirst, Except.ok.injEq, Bool.false_eq_true] at hresult
  | some e =>
    obtain ⟨hmem, hin⟩ := mem_of_firstIn? hfirst
    dsimp only
    rw [List.cons_append, List.nil_append, Item.editAll_cons, binding_editAll_defer _ hlater]
    exact Or.inr ⟨hs e hmem, hin⟩

/-- A search leaves a plain table as it is. -/
theorem object_plainly (s : Scripted) (x : Item) : (s.plainly .next x).object = s := by
  unfold Scripted.plainly
  dsimp only
  split <;> rfl

theorem shown_react {s : Scripted} (hs : Stocked stock (.scripted s)) (hresult : (s.react .next x).result = .ok true) :
    Shown stock x (x.editAll (s.react .next x).edits).binding := by
  obtain ⟨hvalues, hscript⟩ := hs
  unfold Scripted.react at hresult ⊢
  cases hactions : s.script .next with
  | nil =>
    rw [hactions] at hresult
    have hnone : ∀ edit ∈ ([] : List Edit), edit = .defer := by simp
    have hshown := shown_plainly hvalues hnone hresult
    rwa [List.append_nil] at hshown
  | cons action rest =>
    have hdefers := hscript action (by simp [hactions])
    simp only [hactions, Scripted.play] at hresult ⊢
    cases hfault : action.fault with
    | some fault => simp [hfault] at hresult
    | none =>
      simp only [hfault] at hresult
      cases hplain : action.plain with
      | true =>
        simp only [hplain, if_true] at hresult ⊢
        exact shown_plainly (s := s.advance .next) hvalues hdefers hresult
      | false =>
        simp only [Bool.false_eq_true, if_false, List.nil_append]
        exact Or.inl (binding_editAll_defer x hdefers)

theorem stocked_react {s : Scripted} (hs : Stocked stock (.scripted s)) (x : Item) :
    Stocked stock (.scripted (s.react .next x).object) := by
  obtain ⟨hvalues, hscript⟩ := hs
  unfold Scripted.react
  cases hactions : s.script .next with
  | nil =>
    dsimp only
    rw [object_plainly]
    exact ⟨hvalues, hscript⟩
  | cons action rest =>
    have hobject : ((s.advance .next).play .next x action).object = s.advance .next := by
      simp only [Scripted.play]
      split
      · exact object_plainly _ x
      · rfl
    dsimp only
    rw [hobject]
    refine ⟨hvalues, fun action haction => hscript action (List.mem_of_mem_tail ?_)⟩
    simpa [Scripted.advance] using haction

/-- Such instruments show nothing else. -/
theorem draws_stocked (stock : Finset Binding) : Draws (Stocked stock) stock where
  keeps object who x hobject := by
    cases object with
    | scalar s =>
      simp only [ManagedObject.next, Instrument.forward, Reaction.mapObject]
      split <;> exact hobject
    | table t =>
      simp only [ManagedObject.next, Instrument.forward, Reaction.mapObject]
      split <;> exact hobject
    | constant c =>
      simp only [ManagedObject.next, Instrument.forward, Reaction.mapObject]
      split <;> exact hobject
    | scripted s => exact stocked_react hobject x
  shows object who x hobject hresult := by
    cases object with
    | scalar s =>
      simp only [ManagedObject.next, Instrument.forward, Reaction.mapObject] at hresult ⊢
      split
      · next hin => exact Or.inr ⟨hobject, hin⟩
      · next hout => simp [hout] at hresult
    | table t =>
      simp only [ManagedObject.next, Instrument.forward, Reaction.mapObject] at hresult ⊢
      cases hfirst : t.values.firstIn? x.region.toRange with
      | none => simp [hfirst] at hresult
      | some e =>
        obtain ⟨hmem, hin⟩ := mem_of_firstIn? hfirst
        exact Or.inr ⟨hobject e hmem, hin⟩
    | constant c =>
      simp only [ManagedObject.next, Instrument.forward, Reaction.mapObject] at hresult ⊢
      split
      · next hin => exact Or.inr ⟨hobject, hin⟩
      · next hout => simp [hout] at hresult
    | scripted s => exact shown_react hobject hresult

end Instruments

/-! ### A search that takes as many laps as it may -/

/-- A counter, and a variable that is none. -/
def pair : List Binding := [⟨⟨[1, 3, 1, 1]⟩, .counter64 7⟩, ⟨⟨[1, 3, 1, 2]⟩, .integer 5⟩]

/-- An object that shows the counter to the first search, and declines the second one. -/
def coy : State Instrument := { cabinet with
  objects := fun _ => .scripted {
    region := .subtree ⟨[1, 3, 1]⟩
    values := ⟨pair.map fun b => (b.oid, b.value)⟩
    script := fun | .next => [{ plain := true }, { declines := true }] | _ => [] } }

/-- Below both. -/
def below : Item := { index := 0, binding := .unset ⟨[1, 3]⟩, region := .after ⟨[1, 3]⟩ }

/-- With one entry and one counter, the third lap is the last. -/
theorem laps_of_coy : below.value.isCounter64 = false ∧
    Ground (Stocked pair.toFinset) 0 [⟨.subtree ⟨[1, 3, 1]⟩, ⟨0⟩⟩] coy ∧ (countersOf pair.toFinset).card = 1 ∧
    ∃ ls t, laps Agent.plain.policy 0 teller 3 below coy = .done ls t ∧ ls.length = 3 ∧ ls.Pairwise Lap.Bars ∧
      ∃ l ∈ ls, ∃ out, l.outcome = .ended out := by
  have hground : Ground (Stocked pair.toFinset) 0 [⟨.subtree ⟨[1, 3, 1]⟩, ⟨0⟩⟩] coy := by
    refine ⟨fun e he => ?_, rfl⟩
    show Stocked pair.toFinset (.scripted _)
    refine ⟨?_, ?_⟩
    · decide
    · decide
  have hcounters : (countersOf pair.toFinset).card = 1 := by decide
  obtain ⟨-, hlaps⟩ := laps_of_draws (draws_stocked pair.toFinset) Agent.plain.policy teller 3 below rfl hground
  refine ⟨rfl, hground, hcounters, _, _, rfl, rfl, hlaps.1, hlaps.2.2 ?_⟩
  rw [hcounters]
  decide

end Next
end Responder
