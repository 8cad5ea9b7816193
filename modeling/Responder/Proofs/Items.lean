import Mathlib.Data.List.Forall2
import Responder.Proofs.Interference
import Responder.Service.Basic

/-! The items of a request. At its start there is one for each binding (`forall₂_start`). Serving replaces one of
    them (`forall₂_replace`), and everything else that happens to them happens to all alike, and leaves their
    errors as they are. Where each one is served alike, all are, one after the other (`serveOpen_ensures`). -/

namespace Responder

/-! ### Lists of the same length -/

section Lists
variable {α β : Type} {R : α → β → Prop} {as : List α} {xs ys : List β} {x x' : β}

/-- What corresponds to the two parts of a list. -/
theorem exists_of_forall₂ (h : List.Forall₂ R as (xs ++ x :: ys)) :
    ∃ bs b cs, as = bs ++ b :: cs ∧ List.Forall₂ R bs xs ∧ R b x ∧ List.Forall₂ R cs ys := by
  induction xs generalizing as with
  | nil =>
    cases h with
    | cons hb hcs => exact ⟨[], _, _, rfl, .nil, hb, hcs⟩
  | cons y xs ih =>
    cases h with
    | cons ha hrest =>
      obtain ⟨bs, b, cs, rfl, hbs, hb, hcs⟩ := ih hrest
      exact ⟨_ :: bs, b, cs, rfl, .cons ha hbs, hb, hcs⟩

theorem forall₂_replace (hall : List.Forall₂ R as (xs ++ x :: ys)) (hx : ∀ a, R a x → R a x') :
    List.Forall₂ R as (xs ++ x' :: ys) := by
  obtain ⟨bs, b, cs, rfl, hbs, hb, hcs⟩ := exists_of_forall₂ hall
  exact List.rel_append hbs (.cons (hx b hb) hcs)

theorem forall₂_imp {R' : α → β → Prop} (h : List.Forall₂ R as xs) (himp : ∀ a, ∀ x ∈ xs, R a x → R' a x) :
    List.Forall₂ R' as xs := by
  induction h with
  | nil => exact .nil
  | @cons a x as xs ha hrest ih =>
    exact .cons (himp a x List.mem_cons_self ha) (ih fun a x hx => himp a x (List.mem_cons_of_mem _ hx))

/-- What holds of everything in the second list holds of what corresponds to it. -/
theorem forall_of_forall₂ {P : α → Prop} (h : List.Forall₂ R as xs) (hP : ∀ a, ∀ x ∈ xs, R a x → P a) :
    ∀ a ∈ as, P a := by
  induction h with
  | nil => simp
  | @cons a x as xs ha hrest ih =>
    refine List.forall_mem_cons.mpr ⟨hP a x List.mem_cons_self ha, ih fun a x hx => hP a x (List.mem_cons_of_mem _ hx)⟩

theorem exists_of_mem (h : List.Forall₂ R as xs) (hx : x ∈ xs) : ∃ a, R a x := by
  obtain ⟨ys, zs, rfl⟩ := List.append_of_mem hx
  obtain ⟨-, a, -, -, -, ha, -⟩ := exists_of_forall₂ h
  exact ⟨a, ha⟩

theorem forall_replace {P : β → Prop} (hall : ∀ y ∈ xs ++ x :: ys, P y) (hx : P x') : ∀ y ∈ xs ++ x' :: ys, P y := by
  simp only [List.forall_mem_append, List.forall_mem_cons] at hall ⊢
  exact ⟨hall.1, hx, hall.2.2⟩

theorem pairwise_replace {Q : β → β → Prop} (hall : (xs ++ x :: ys).Pairwise Q) (hleft : ∀ y ∈ xs, Q y x → Q y x')
    (hright : ∀ y ∈ ys, Q x y → Q x' y) : (xs ++ x' :: ys).Pairwise Q := by
  rw [List.pairwise_append, List.pairwise_cons] at hall ⊢
  obtain ⟨hxs, ⟨hx, hys⟩, hcross⟩ := hall
  refine ⟨hxs, ⟨fun y hy => hright y hy (hx y hy), hys⟩, fun y hy z hz => ?_⟩
  rcases List.mem_cons.mp hz with rfl | hz
  · exact hleft y hy (hcross y hy x List.mem_cons_self)
  · exact hcross y hy z (List.mem_cons_of_mem _ hz)

end Lists

/-! ### Places -/

section Places
variable {n : Nat} {items done rest : List Item} {item item' : Item} (h : items.map Item.index = List.range n)
include h

theorem index_lt_of_places {x : Item} (hx : x ∈ items) : x.index < n := by
  have hmem : x.index ∈ items.map Item.index := List.mem_map_of_mem hx
  rw [h] at hmem
  exact List.mem_range.mp hmem

theorem exists_of_places {i : Nat} (hi : i < n) : ∃ x ∈ items, x.index = i := by
  have hmem : i ∈ items.map Item.index := h ▸ List.mem_range.mpr hi
  exact List.mem_map.mp hmem

theorem sorted_of_places (hitems : items = done ++ item :: rest) :
    (∀ x ∈ done, x.index < item.index) ∧ ∀ x ∈ rest, item.index < x.index := by
  have hsorted : (items.map Item.index).Pairwise (· < ·) := h ▸ List.pairwise_lt_range
  rw [hitems, List.map_append, List.map_cons, List.pairwise_append, List.pairwise_cons] at hsorted
  obtain ⟨-, ⟨hrest, -⟩, hdone⟩ := hsorted
  refine ⟨fun x hx => ?_, fun x hx => hrest _ (List.mem_map_of_mem hx)⟩
  exact hdone _ (List.mem_map_of_mem hx) _ List.mem_cons_self

/-- An item is the one that was served, or another one that was there before. -/
theorem mem_replace_of_places (hitems : items = done ++ item :: rest) {x : Item} (hx : x ∈ done ++ item' :: rest) :
    x = item' ∨ x ∈ items ∧ x.index ≠ item.index := by
  obtain ⟨hdone, hrest⟩ := sorted_of_places h hitems
  rw [hitems]
  rcases List.mem_append.mp hx with hx | hx
  · exact Or.inr ⟨List.mem_append_left _ hx, Nat.ne_of_lt (hdone x hx)⟩
  · rcases List.mem_cons.mp hx with rfl | hx
    · exact Or.inl rfl
    · exact Or.inr ⟨List.mem_append_right _ (List.mem_cons_of_mem _ hx), Nat.ne_of_gt (hrest x hx)⟩

end Places

/-! ### Errors -/

section Errors
variable {r : Request} {done rest : List Item} {item : Item}

theorem hasError_replace (hitems : r.items = done ++ item :: rest) (hr : r.hasError = false) (item' : Item) :
    { r with items := done ++ item' :: rest }.hasError = item'.hasError := by
  simp only [Request.hasError, hitems, List.any_append, List.any_cons, Bool.or_eq_false_iff] at hr
  obtain ⟨hstatus, hdone, -, hrest⟩ := hr
  simp only [Request.hasError, hstatus, List.any_append, List.any_cons, hdone, hrest, Bool.false_or, Bool.or_false]

theorem hasError_of_mem (hr : r.hasError = false) {x : Item} (hx : x ∈ r.items) : x.hasError = false := by
  rw [Request.hasError, Bool.or_eq_false_iff, List.any_eq_false] at hr
  simpa using hr.2 x hx

theorem hasError_finishAll (r : Request) : r.finishAll.hasError = r.hasError := by
  have hkept : (Item.hasError ∘ fun x : Item => if x.complete = true then x else x.finish) = Item.hasError := by
    funext x
    dsimp only [Function.comp_apply]
    split <;> rfl
  simp [Request.hasError, Request.finishAll, List.any_map, hkept]

theorem hasError_retry (r : Request) : r.retry.hasError = r.hasError := by
  simp only [Request.retry, Request.hasError, List.any_map]
  rfl

theorem toResponse_of_clear (hr : r.hasError = false) :
    r.toResponse = { r.pdu.toResponse with bindings := r.items.map Item.binding } := by
  have hstatus : r.reportedStatus.isError = false := by
    obtain ⟨hown, hitems⟩ := Bool.or_eq_false_iff.mp hr
    have hnone : (r.items.map Item.status).find? Status.isError = none := by
      rw [List.find?_map, Option.map_eq_none_iff, List.find?_eq_none]
      exact fun x hx => Bool.not_eq_true _ ▸ hasError_of_mem hr hx
    rw [Request.reportedStatus, hown, hnone]
    rfl
  simp [Request.toResponse, Request.responseHeader, hstatus]

theorem hasError_restart (r : Request) (phase : Phase) :
    { r with phase, items := r.items.map Item.restart }.hasError = r.hasError := by
  simp only [Request.hasError, List.any_map]
  rfl

end Errors

/-! ### The start -/

section Start
variable {pdu : Pdu} {who : Requester} {maxSize : Nat} {created : Instant}

/-- A request starts with one item for each binding. Of a bulk request some may be left out. -/
theorem items_start (hkind : pdu.kind ≠ .getBulk) : (Request.start who pdu maxSize created).items =
    pdu.bindings.mapIdx fun index a => { index, binding := a, region := Request.regionOf pdu who.context a.oid } := by
  have hcount : Request.startCount pdu = pdu.bindings.length := by
    simp [Request.startCount, Request.shapeOf?, hkind]
  simp [Request.start, hcount]

theorem exists_of_mem_start (hkind : pdu.kind ≠ .getBulk) {x : Item}
    (hx : x ∈ (Request.start who pdu maxSize created).items) :
    ∃ index a, x = { index, binding := a, region := Request.regionOf pdu who.context a.oid } := by
  rw [items_start hkind, List.mem_mapIdx] at hx
  obtain ⟨i, hi, rfl⟩ := hx
  exact ⟨i, _, rfl⟩

theorem indices_start (hkind : pdu.kind ≠ .getBulk) :
    (Request.start who pdu maxSize created).items.map Item.index = List.range pdu.bindings.length := by
  rw [items_start hkind]
  apply List.ext_getElem <;> simp

/-- What holds of each binding and its item at the start. -/
theorem forall₂_start (hkind : pdu.kind ≠ .getBulk) {R : Binding → Item → Prop}
    (h : ∀ index a, R a { index, binding := a, region := Request.regionOf pdu who.context a.oid }) :
    List.Forall₂ R pdu.bindings (Request.start who pdu maxSize created).items := by
  rw [items_start hkind, List.forall₂_iff_get]
  refine ⟨by simp, fun i hi hi' => ?_⟩
  rw [List.get_eq_getElem, List.get_eq_getElem, List.getElem_mapIdx]
  exact h i _

theorem hasError_start : (Request.start who pdu maxSize created).hasError = false := by
  rw [Request.hasError, Bool.or_eq_false_iff]
  refine ⟨rfl, List.any_eq_false.mpr fun x hx => ?_⟩
  obtain ⟨i, hi, rfl⟩ := List.mem_mapIdx.mp hx
  exact Bool.false_ne_true

theorem not_bulk_of_set (hkind : pdu.kind = .set) : pdu.kind ≠ .getBulk := by simp [hkind]

theorem regionOf_point (hkind : pdu.kind.isSearch = false) (o : Oid) :
    Request.regionOf pdu who.context o = (Region.point o).inContext (some who.context) := by
  rw [Request.regionOf, hkind, if_neg Bool.false_ne_true]

theorem regionOf_search (hkind : pdu.kind.isSearch = true) (o : Oid) :
    Request.regionOf pdu who.context o = (Region.after o).inContext (some who.context) := by
  rw [Request.regionOf, hkind, if_pos rfl]

end Start

/-! ### One after the other -/

/-- What serving makes of each item, it makes of all. -/
theorem serveOpen_ensures {Obj : Type} {rely : State Obj → State Obj → Prop} {here P : State Obj → Prop}
    {asked answered : Binding → Item → Prop} {serve : Item → Doing Obj (Item × Option Error)}
    (hopen : ∀ a x, asked a x → x.complete = false)
    (hserve : ∀ a x s, asked a x → P s →
      (serve x).Ensures rely here s fun out t => P t ∧ out.2 = none ∧ answered a out.1) {as : List Binding}
    {xs : List Item} (hall : List.Forall₂ asked as xs) {s : State Obj} (hs : P s) :
    (serveOpen serve xs).Ensures rely here s fun out t => P t ∧ out.2 = none ∧ List.Forall₂ answered as out.1 := by
  induction hall generalizing s with
  | nil => exact ⟨hs, rfl, .nil⟩
  | @cons a x as xs ha hrest ih =>
    simp only [serveOpen, hopen a x ha, Bool.false_eq_true, if_false, Activity.ensures_bind]
    refine (hserve a x s ha hs).mono (fun _ => id) ?_
    rintro ⟨x', later⟩ t ⟨ht, rfl, hx'⟩
    simp only [Activity.ensures_bind]
    refine (ih ht).mono (fun _ => id) ?_
    rintro ⟨xs', later⟩ u ⟨hu, rfl, hrest'⟩
    exact ⟨hu, rfl, .cons hx' hrest'⟩

end Responder
