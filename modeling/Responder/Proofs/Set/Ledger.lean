import Responder.Proofs.Set.Blame
import Responder.Proofs.Store

/-! The ledger of a store: what a request that writes has committed to each variable of it, what the items have
    recorded of that, and what the variable holds for it. Undoing goes through the items in the order in which
    they were committed, so the last record is the one that is left in the end: that of the value written last
    but one (`lastButOne?`). -/

namespace Responder.Set

/-- What was committed to a variable of an object, the first value first. -/
def writesTo (h : List Step) (id : ObjectId) (o : Oid) : List Value :=
  h.filterMap fun st =>
    if st.callback = .commit ∧ st.object = some id ∧ st.before.oid = o then some st.before.value else none

/-- The value that was written last but one. -/
def lastButOne? (ws : List Value) : Option Value := ws.dropLast.getLast?

theorem lastButOne?_eq_none {ws : List Value} (h : ws.length ≤ 1) : lastButOne? ws = none := by
  have hnil : ws.dropLast = [] := List.eq_nil_of_length_eq_zero (by rw [List.length_dropLast]; omega)
  rw [lastButOne?, hnil, List.getLast?_nil]

/-! ### Lines -/

/-- What an item has recorded of a variable of an object, and what it has written to it. -/
def line? (id : ObjectId) (o : Oid) (x : Item) : Option (Value × Value) :=
  if x.target = some id ∧ x.oid = o then x.undoValue.map fun u => (u, x.value) else none

/-- The lines of a list of items, the first item first. -/
def lines (id : ObjectId) (o : Oid) (items : List Item) : List (Value × Value) := items.filterMap (line? id o)

/-- Each line records what the variable held before it, from the first content to the last one. -/
def Follows : Option Value → List (Value × Value) → Option Value → Prop
  | x, [], y => y = x
  | x, (u, v) :: rest, y => u = x.getD .null ∧ Follows (some v) rest y

/-- What the variable holds after all lines are undone, the first one first. -/
def settled (b : Store) (rest : List (Value × Value)) (y : Option Value) : Option Value :=
  match rest.getLast? with
  | some line => b.restored line.1
  | none => y

section Lines
variable {id : ObjectId} {o : Oid} {b : Store} {x y : Option Value} {ls : List (Value × Value)} {u v : Value}

theorem Follows.snoc : ∀ {x : Option Value} {ls : List (Value × Value)}, Follows x ls y →
    Follows x (ls ++ [(y.getD .null, v)]) (some v)
  | _, [], h => ⟨by rw [show y = _ from h], rfl⟩
  | _, (_, _) :: _, h => ⟨h.1, h.2.snoc⟩

/-- The variable holds what was written last, and at first what it held before. -/
theorem Follows.last : ∀ {x : Option Value} {ls : List (Value × Value)}, Follows x ls y →
    y = (ls.map Prod.snd).getLast?.or x
  | _, [], h => h
  | _, (_, v) :: ls, h => by
    rw [h.2.last, List.map_cons, List.getLast?_cons]
    cases (ls.map Prod.snd).getLast? <;> rfl

/-- The last line records what was written last but one, and at first what the variable held before. -/
theorem Follows.recorded : ∀ {x : Option Value} {ls : List (Value × Value)} {line : Value × Value},
    Follows x ls y → ls.getLast? = some line → line.1 = ((lastButOne? (ls.map Prod.snd)).or x).getD .null
  | _, [], _, _, hlast => by cases hlast
  | _, [(u, v)], _, h, hlast => by
    cases hlast
    simpa [lastButOne?] using h.1
  | _, (u, v) :: (u', v') :: ls, line, h, hlast => by
    have hlast : ((u', v') :: ls).getLast? = some line := by simpa using hlast
    have ih := h.2.recorded hlast
    have hbut : lastButOne? (v :: v' :: ls.map Prod.snd) = some ((lastButOne? (v' :: ls.map Prod.snd)).getD v) := by
      simp only [lastButOne?, List.dropLast_cons_cons, List.getLast?_cons]
    rw [ih]
    simp only [List.map_cons, hbut]
    cases lastButOne? (v' :: ls.map Prod.snd) <;> rfl

theorem settled_nil : settled b [] y = y := rfl

/-- Undoing the first line leaves to the later ones what they would come to anyway. -/
theorem settled_cons : settled b ((u, v) :: ls) y = settled b ls (b.restored u) := by
  unfold settled
  rw [List.getLast?_cons]
  cases ls.getLast? <;> rfl

/-- Where the lines follow each other, undoing them leaves the value written last but one. -/
theorem Follows.settled (h : Follows x ls y) (hx : ls ≠ [] → b.restored (x.getD .null) = x)
    (hkeeps : ∀ line ∈ ls, b.keeps line.2 = true) :
    Set.settled b ls y = (lastButOne? (ls.map Prod.snd)).or x := by
  unfold Set.settled
  cases hlast : ls.getLast? with
  | none =>
    rw [List.getLast?_eq_none_iff] at hlast
    subst hlast
    exact h
  | some line =>
    have hne : ls ≠ [] := by
      rintro rfl
      cases hlast
    simp only
    rw [h.recorded hlast]
    cases hbut : lastButOne? (ls.map Prod.snd) with
    | none => simpa using hx hne
    | some w =>
      have hmem : w ∈ ls.map Prod.snd := List.dropLast_subset _ (List.mem_of_getLast? hbut)
      obtain ⟨line, hline, rfl⟩ := List.mem_map.mp hmem
      exact Store.restored_of_keeps (hkeeps line hline)

theorem lines_replace (done rest : List Item) (item : Item) :
    lines id o (done ++ item :: rest) = lines id o done ++ ((line? id o item).toList ++ lines id o rest) := by
  rw [lines, List.filterMap_append, List.filterMap_cons]
  cases line? id o item <;> rfl

theorem lines_eq_nil {items : List Item} (h : ∀ x ∈ items, x.target = some id → x.undoValue = none) :
    lines id o items = [] := by
  rw [lines, List.filterMap_eq_nil_iff]
  intro x hx
  unfold line?
  split
  · next hown => rw [h x hx hown.1, Option.map_none]
  · rfl

theorem line?_of_target {x : Item} (h : x.target ≠ some id) : line? id o x = none := if_neg fun hown => h hown.1

theorem line?_of_oid {x : Item} (h : x.oid ≠ o) : line? id o x = none := if_neg fun hown => h hown.2

end Lines

section Writes
variable {h : List Step} {st : Step} {id : ObjectId} {o : Oid}

theorem writesTo_append : writesTo (h ++ [st]) id o = writesTo h id o ++
    if st.callback = .commit ∧ st.object = some id ∧ st.before.oid = o then [st.before.value] else [] := by
  rw [writesTo, List.filterMap_append, List.filterMap_cons, List.filterMap_nil]
  by_cases hown : st.callback = .commit ∧ st.object = some id ∧ st.before.oid = o
  · rw [if_pos hown, if_pos hown]
    rfl
  · rw [if_neg hown, if_neg hown]
    rfl

theorem writesTo_append_of_ne (hne : st.callback ≠ .commit ∨ st.object ≠ some id) :
    writesTo (h ++ [st]) id o = writesTo h id o := by
  rw [writesTo_append, if_neg, List.append_nil]
  rintro ⟨hc, hobject, -⟩
  exact hne.elim (· hc) (· hobject)

end Writes

/-! ### The ledger -/

/-- What the ledger of a store is about: the store as it was at first, the entries among which a context sees it,
and what is to be written. -/
structure Book where
  id : ObjectId
  store : Store
  context : ContextName
  entries : List Entry
  bindings : List Binding

namespace Book
variable (B : Book)

/-- The object that answers for an identifier. -/
def owner? (o : Oid) : Option ObjectId := Registry.answering? B.entries B.context o

/-- What is to be written to a variable of the store, the first value first. -/
def asked (o : Oid) : List Value :=
  B.bindings.filterMap fun a => if a.oid = o ∧ B.owner? o = some B.id then some a.value else none

/-- Where no variable is named twice, at most one value is to be written to each. -/
theorem length_asked_le {B : Book} (h : (B.bindings.map (·.oid)).Nodup) (o : Oid) : (B.asked o).length ≤ 1 := by
  have hcount := List.nodup_iff_count_le_one.mp h o
  rw [List.count_eq_countP, List.countP_map] at hcount
  rw [asked, List.length_filterMap_eq_countP]
  refine (List.countP_mono_left fun a _ ha => ?_).trans hcount
  split at ha
  · next hown => simp [hown.1]
  · cases ha

/-- The store is well-formed, and registered under its own region only. -/
structure Sound : Prop where
  store : B.store.WellFormed
  entries : Registry.Ordered B.entries
  region : ∀ e ∈ B.entries, e.object = B.id → e.region.toRange = (ManagedObject.region B.store).toRange

variable {B}

theorem Sound.owner (h : B.Sound) {e : Entry} {o : Oid} (he : e ∈ B.entries)
    (hover : ((Region.point o).inContext (some B.context)).overlaps e.region = true) :
    B.owner? o = some e.object := h.entries.answering?_eq he hover

theorem Sound.contains (h : B.Sound) {o : Oid} (ho : B.owner? o = some B.id) :
    (ManagedObject.region B.store).contains o = true := by
  obtain ⟨e, he, hid, hcontains⟩ := Registry.exists_of_answering? ho
  rwa [h.region e he hid] at hcontains

end Book

/-- An item as the ledger has it, for what was asked. One that was never called is as it was at first; one that the
store was called for has been changed by the store only; any other one does not matter. -/
structure Filed (B : Book) (phase : Phase) (a : Binding) (x : Item) : Prop where
  region : x.region = (Region.point a.oid).inContext (some B.context)
  owner : ∀ j, x.target = some j → B.owner? a.oid = some j
  binding : x.target = none ∨ x.target = some B.id → x.binding = a
  aimed : x.prepared = true → x.target ≠ none
  objected : x.target = some B.id → x.prepared = false → x.hasError = true
  fits : x.target = some B.id → x.prepared = true → B.store.Fits x.binding
  blank : x.target = none ∨ x.target = some B.id ∧ (phase = .start ∨ phase = .prepare ∨ x.prepared = false) →
    x.undoValue = none
  waiting : phase = .commit → x.target = some B.id → x.complete = false → x.undoValue = none
  undone : phase = .undo → x.target = some B.id → x.complete = true → x.undoValue = none

/-- What a variable of the store holds, by what the items have recorded and what was written. -/
def Account (B : Book) (phase : Phase) (items : List Item) (h : List Step) (o : Oid) (y : Option Value) : Prop :=
  match phase with
  | .start | .process | .prepare => writesTo h B.id o = [] ∧ y = B.store.value? o
  | .commit => writesTo h B.id o = (lines B.id o items).map Prod.snd ∧ Follows (B.store.value? o) (lines B.id o items) y
  | .undo => settled B.store (lines B.id o items) y = (lastButOne? (writesTo h B.id o)).or (B.store.value? o)
  | .cleanup =>
    (Broken h → y = (lastButOne? (writesTo h B.id o)).or (B.store.value? o)) ∧
      (¬Broken h → y = (B.asked o).getLast?.or (B.store.value? o))

/-- The ledger of a store, and what the store holds by it. -/
structure Ledger (B : Book) (r : Request) (h : List Step) (holds : Oid → Option Value) : Prop where
  filed : r.phase ≠ .cleanup → List.Forall₂ (Filed B r.phase) B.bindings r.items
  /-- What was written is what was asked, as far as the commits have come. -/
  asked : ∀ o, (writesTo h B.id o).Sublist (B.asked o)
  found : r.phase = .prepare → r.hasError = false → ∀ x ∈ r.items, x.complete = true → x.target ≠ none
  aimed : r.phase = .commit → ∀ x ∈ r.items, x.target ≠ none
  /-- The items are committed in their order. -/
  order : r.phase = .commit → r.items.Pairwise fun x y => y.target = some B.id → y.undoValue ≠ none → x.complete = true
  written : r.phase = .commit → r.hasError = false → ∀ x ∈ r.items, x.target = some B.id → x.complete = true →
    x.undoValue ≠ none
  account : ∀ o, Account B r.phase r.items h o (holds o)

theorem Filed.prepared_of_clear {B : Book} {phase : Phase} {a : Binding} {x : Item} (hx : Filed B phase a x)
    (hown : x.target = some B.id) (hclear : x.hasError = false) : x.prepared = true := by
  rw [← Bool.not_eq_false]
  intro hn
  cases hclear.symm.trans (hx.objected hown hn)

section Steps
variable {B : Book} {r : Request} {h h' : List Step} {holds holds' : Oid → Option Value} {done rest : List Item}
  {item item' : Item}

theorem Ledger.of_mem (L : Ledger B r h holds) (hphase : r.phase ≠ .cleanup) {x : Item} (hx : x ∈ r.items) :
    ∃ a, Filed B r.phase a x := exists_of_mem (L.filed hphase) hx

theorem Ledger.prepare (L : Ledger B r h holds) (hphase : r.phase = .prepare) (hitems : r.items = done ++ item :: rest)
    (hclear : r.hasError = false) (hfiled : ∀ a, Filed B .prepare a item → Filed B .prepare a item')
    (hfound : item'.hasError = false → item'.complete = true → item'.target ≠ none)
    (hwrites : ∀ o, writesTo h' B.id o = writesTo h B.id o) :
    Ledger B { r with items := done ++ item' :: rest } h' holds where
  filed hp := forall₂_replace (hitems ▸ L.filed hp) (hphase ▸ hfiled)
  asked o := hwrites o ▸ L.asked o
  found _ herror := by
    rw [hasError_replace hitems hclear] at herror
    exact forall_replace (hitems ▸ L.found hphase hclear) (hfound herror)
  aimed := by simp [hphase]
  order := by simp [hphase]
  written := by simp [hphase]
  account o := by
    have haccount := L.account o
    simp only [hphase, Account] at haccount ⊢
    rw [hwrites]
    exact haccount

/-- Each line of the store is for something that was asked of it, in the same order. -/
theorem asked_of_filed {phase : Phase} (o : Oid) {as : List Binding} {items : List Item}
    (hall : List.Forall₂ (Filed B phase) as items) : ((lines B.id o items).map Prod.snd).Sublist
      (as.filterMap fun a => if a.oid = o ∧ B.owner? o = some B.id then some a.value else none) := by
  induction hall with
  | nil => exact .slnil
  | @cons a x as items ha hrest ih =>
    rw [lines, List.filterMap_cons, List.filterMap_cons]
    cases hline : line? B.id o x with
    | none =>
      dsimp only
      split
      · exact ih
      · exact ih.cons _
    | some line =>
      unfold line? at hline
      rw [Option.ite_none_right_eq_some, Option.map_eq_some_iff] at hline
      obtain ⟨⟨hown, rfl⟩, u, -, rfl⟩ := hline
      obtain rfl := ha.binding (Or.inr hown)
      rw [if_pos ⟨rfl, ha.owner _ hown⟩]
      exact ih.cons_cons _

/-- Where every item of the store has its line, everything that was asked has one. -/
theorem asked_eq_of_filed {phase : Phase} (o : Oid) {as : List Binding} {items : List Item}
    (hall : List.Forall₂ (Filed B phase) as items) (htargets : ∀ x ∈ items, x.target ≠ none)
    (hwritten : ∀ x ∈ items, x.target = some B.id → x.undoValue ≠ none) : (lines B.id o items).map Prod.snd =
      as.filterMap fun a => if a.oid = o ∧ B.owner? o = some B.id then some a.value else none := by
  induction hall with
  | nil => rfl
  | @cons a x as items ha hrest ih =>
    rw [List.forall_mem_cons] at htargets hwritten
    have ih := ih htargets.2 hwritten.2
    obtain ⟨j, hj⟩ := Option.ne_none_iff_exists'.mp htargets.1
    rw [lines, List.filterMap_cons, List.filterMap_cons]
    by_cases hown : a.oid = o ∧ B.owner? o = some B.id
    · obtain ⟨rfl, howner⟩ := hown
      have hid : x.target = some B.id := hj.trans ((ha.owner j hj).symm.trans howner)
      obtain ⟨u, hu⟩ := Option.ne_none_iff_exists'.mp (hwritten.1 hid)
      obtain rfl := ha.binding (Or.inr hid)
      have hline : line? B.id x.binding.oid x = some (u, x.value) := by
        simp [line?, hid, hu, Item.oid]
      rw [hline, if_pos ⟨rfl, howner⟩]
      exact congrArg (_ :: ·) ih
    · have hline : line? B.id o x = none := by
        refine if_neg fun hx => hown ?_
        obtain ⟨hid, rfl⟩ := hx
        obtain rfl := ha.binding (Or.inr hid)
        exact ⟨rfl, ha.owner _ hid⟩
      rw [hline, if_neg hown]
      exact ih

/-- A commit writes its value behind all lines that there are. -/
theorem Ledger.commit (L : Ledger B r h holds) (hphase : r.phase = .commit) (hitems : r.items = done ++ item :: rest)
    (hdone : ∀ x ∈ done, x.complete = true) (hopen : item.complete = false) (hclear : r.hasError = false)
    (hown : item.target = some B.id) {u : Value} (hu : u = (holds item.oid).getD .null)
    (hitem' : item' = { item with undoValue := some u, complete := true, deferred := false })
    (hwrites : ∀ o, writesTo h' B.id o = writesTo h B.id o ++ if item.oid = o then [item.value] else []) :
    Ledger B { r with items := done ++ item' :: rest } h'
      fun o => if o = item.oid then some item.value else holds o := by
  have hmem : item ∈ r.items := hitems ▸ List.mem_append_right _ List.mem_cons_self
  obtain ⟨a, hfiled⟩ := L.of_mem (by simp [hphase]) hmem
  have hprepared := hfiled.prepared_of_clear hown (hasError_of_mem hclear hmem)
  have hfiled' (a : Binding) (hfiled : Filed B r.phase a item) : Filed B r.phase a item' := by
    subst hitem'
    refine ⟨hfiled.region, hfiled.owner, hfiled.binding, hfiled.aimed, hfiled.objected, hfiled.fits, ?_,
      fun _ _ hc => (by cases hc), fun hp => ?_⟩
    · rintro (hnone | ⟨-, hp | hp | hn⟩)
      · cases hown.symm.trans hnone
      · cases hphase.symm.trans hp
      · cases hphase.symm.trans hp
      · cases hprepared.symm.trans hn
    · cases hphase.symm.trans hp
  have haccount' (o : Oid) : Account B .commit (done ++ item' :: rest) h' o
      (if o = item.oid then some item.value else holds o) := by
    have haccount := L.account o
    have horder := L.order hphase
    rw [hitems, List.pairwise_append, List.pairwise_cons] at horder
    -- What stands behind the item has not been committed yet, as the item has not.
    have hrest : lines B.id o rest = [] := by
      refine lines_eq_nil fun y hy htarget => Classical.byContradiction fun hne => ?_
      rw [horder.2.1.1 y hy htarget hne] at hopen
      cases hopen
    have hline : line? B.id o item = none := by
      have hblank := hfiled.waiting hphase hown hopen
      simp [line?, hblank]
    simp only [hphase, Account, hitems, lines_replace, hrest, hline, hwrites, Option.toList_none, List.append_nil]
      at haccount ⊢
    by_cases ho : item.oid = o
    · have hline' : line? B.id o item' = some (u, item.value) := by
        subst hitem'
        exact if_pos ⟨hown, ho⟩
      rw [hline', if_pos ho, if_pos ho.symm, hu, ho, haccount.1, Option.toList_some, List.map_append]
      exact ⟨rfl, haccount.2.snoc⟩
    · have hline' : line? B.id o item' = none := by
        refine line?_of_oid ?_
        rw [hitem']
        exact ho
      rw [hline', if_neg ho, if_neg fun heq => ho heq.symm]
      simpa using haccount
  have hall := forall₂_replace (hitems ▸ L.filed (by simp [hphase])) hfiled'
  refine ⟨fun _ => hall, fun o => ?_, by simp [hphase],
    fun hp => forall_replace (hitems ▸ L.aimed hp) (by simp [hitem', hown]), fun hp => ?_, fun hp _ => ?_, fun o => ?_⟩
  · rw [(haccount' o).1]
    exact asked_of_filed o hall
  · refine pairwise_replace (hitems ▸ L.order hp) (fun x hx _ _ _ => hdone x hx) fun y _ _ _ _ => ?_
    rw [hitem']
  · refine forall_replace (hitems ▸ L.written hp hclear) fun _ _ => ?_
    rw [hitem']
    simp
  · rw [hphase]
    exact haccount' o

theorem Filed.foreign {phase : Phase} {a : Binding} {x : Item} {j : ObjectId}
    (hregion : x.region = (Region.point a.oid).inContext (some B.context)) (howner : B.owner? a.oid = some j)
    (htarget : x.target = some j) (hne : j ≠ B.id) : Filed B phase a x := by
  have hnot : x.target ≠ some B.id := by
    rw [htarget]
    exact fun heq => hne (Option.some.inj heq)
  have hsome : x.target ≠ none := by simp [htarget]
  refine ⟨hregion, fun k hk => ?_, fun hor => (hor.elim hsome hnot).elim, fun _ => hsome, fun hown => absurd hown hnot,
    fun hown => absurd hown hnot, fun hor => ?_, fun _ hown => absurd hown hnot, fun _ hown => absurd hown hnot⟩
  · rw [htarget] at hk
    exact Option.some.inj hk ▸ howner
  · exact (hor.elim hsome fun hown => hnot hown.1).elim

theorem Ledger.foreign (L : Ledger B r h holds) (hphase : r.phase = .commit ∨ r.phase = .undo)
    (hitems : r.items = done ++ item :: rest) (hdone : ∀ x ∈ done, x.complete = true) (hopen : item.complete = false)
    (hclear : r.phase = .commit → r.hasError = false) {j : ObjectId} (hj : item.target = some j) (hne : j ≠ B.id)
    (htarget : item'.target = item.target) (hregion : item'.region = item.region)
    (hwrites : ∀ o, writesTo h' B.id o = writesTo h B.id o) :
    Ledger B { r with items := done ++ item' :: rest } h' holds := by
  have hmem : item ∈ r.items := hitems ▸ List.mem_append_right _ List.mem_cons_self
  have hcleanup : r.phase ≠ .cleanup := by rcases hphase with hp | hp <;> simp [hp]
  have hnot : item.target ≠ some B.id := by
    rw [hj]
    exact fun heq => hne (Option.some.inj heq)
  have hnot' : item'.target ≠ some B.id := htarget ▸ hnot
  have hsome : item'.target ≠ none := by simp [htarget, hj]
  have hfiled' (a : Binding) (hfiled : Filed B r.phase a item) : Filed B r.phase a item' :=
    .foreign (hregion.trans hfiled.region) (hfiled.owner j hj) (htarget.trans hj) hne
  refine ⟨fun hp => forall₂_replace (hitems ▸ L.filed hp) hfiled', fun o => hwrites o ▸ L.asked o, fun hp => ?_,
    fun hp => forall_replace (hitems ▸ L.aimed hp) hsome, fun hp => ?_, fun hp _ => ?_, fun o => ?_⟩
  · rcases hphase with h | h <;> cases h.symm.trans hp
  · refine pairwise_replace (hitems ▸ L.order hp) (fun x hx _ _ _ => hdone x hx) fun y _ hy htarget hundo => ?_
    rw [hy htarget hundo] at hopen
    cases hopen
  · exact forall_replace (hitems ▸ L.written hp (hclear hp)) fun hown => absurd hown hnot'
  · have haccount := L.account o
    have hlines : lines B.id o (done ++ item' :: rest) = lines B.id o r.items := by
      rw [hitems, lines_replace, lines_replace, line?_of_target hnot, line?_of_target hnot']
    rcases hphase with hp | hp
    · simp only [hp, Account, hlines, hwrites] at haccount ⊢
      exact haccount
    · simp only [hp, Account, hlines, hwrites] at haccount ⊢
      exact haccount

/-- An item of the store that is undone is off the ledger. -/
theorem Ledger.undo (L : Ledger B r h holds) (hphase : r.phase = .undo) (hitems : r.items = done ++ item :: rest)
    (hdone : ∀ x ∈ done, x.complete = true) (hown : item.target = none ∨ item.target = some B.id)
    (hitem' : item' = { item with undoValue := none, complete := true, deferred := false })
    (hheld : ∀ o, holds' o = match item.undoValue with
      | some u => if o = item.oid then B.store.restored u else holds o
      | none => holds o)
    (hwrites : ∀ o, writesTo h' B.id o = writesTo h B.id o) :
    Ledger B { r with items := done ++ item' :: rest } h' holds' := by
  have hmem : item ∈ r.items := hitems ▸ List.mem_append_right _ List.mem_cons_self
  obtain ⟨a, hfiled⟩ := L.of_mem (by simp [hphase]) hmem
  have hfiled' (a : Binding) (hfiled : Filed B r.phase a item) : Filed B r.phase a item' := by
    subst hitem'
    exact ⟨hfiled.region, hfiled.owner, hfiled.binding, hfiled.aimed, hfiled.objected, hfiled.fits, fun _ => rfl,
      fun _ _ _ => rfl, fun _ _ _ => rfl⟩
  refine ⟨fun hp => forall₂_replace (hitems ▸ L.filed hp) hfiled', fun o => hwrites o ▸ L.asked o,
    by simp [hphase],
    by simp [hphase], by simp [hphase],
    by simp [hphase], fun o => ?_⟩
  have haccount := L.account o
  -- What stands before the item has been undone.
  have hbefore : lines B.id o done = [] := by
    refine lines_eq_nil fun x hx htarget => ?_
    obtain ⟨a, hfiled⟩ := L.of_mem (by simp [hphase]) (hitems ▸ List.mem_append_left _ hx)
    exact hfiled.undone hphase htarget (hdone x hx)
  have hline' : line? B.id o item' = none := by simp [line?, hitem']
  simp only [hphase, Account, hitems, lines_replace, hbefore, hline', hwrites, hheld, Option.toList_none,
    List.nil_append] at haccount ⊢
  cases hundo : item.undoValue with
  | none =>
    have hline : line? B.id o item = none := by simp [line?, hundo]
    simpa only [hline, Option.toList_none, List.nil_append] using haccount
  | some u =>
    have hid : item.target = some B.id := by
      refine hown.resolve_left fun hnone => ?_
      rw [hfiled.blank (Or.inl hnone)] at hundo
      cases hundo
    by_cases ho : o = item.oid
    · have hline : line? B.id o item = some (u, item.value) := by simp [line?, hid, ho, hundo]
      rw [hline, Option.toList_some, List.singleton_append, settled_cons] at haccount
      simp only [if_pos ho]
      exact haccount
    · have hline : line? B.id o item = none := line?_of_oid fun heq => ho heq.symm
      simp only [if_neg ho]
      simpa only [hline, Option.toList_none, List.nil_append] using haccount

theorem Ledger.cleanup (L : Ledger B r h holds) (hphase : r.phase = .cleanup) {items : List Item}
    (hwrites : ∀ o, writesTo h' B.id o = writesTo h B.id o) (hbroken : Broken h' ↔ Broken h) :
    Ledger B { r with items } h' holds where
  filed hp := absurd hphase hp
  asked o := hwrites o ▸ L.asked o
  found := by simp [hphase]
  aimed := by simp [hphase]
  order := by simp [hphase]
  written := by simp [hphase]
  account o := by
    have haccount := L.account o
    simp only [hphase, Account] at haccount ⊢
    rw [hwrites, hbroken]
    exact haccount

/-- The ledger does not depend on whether items are deferred. -/
theorem Ledger.retry (L : Ledger B r h holds) : Ledger B r.retry h holds := by
  have hlines (o : Oid) : lines B.id o r.retry.items = lines B.id o r.items := by
    rw [lines, lines, Request.retry, List.filterMap_map]
    rfl
  refine ⟨fun hp => ?_, L.asked, fun hp he => List.forall_mem_map.mpr (L.found hp (hasError_retry r ▸ he)),
    fun hp => List.forall_mem_map.mpr (L.aimed hp), fun hp => ?_,
    fun hp he => List.forall_mem_map.mpr (L.written hp (hasError_retry r ▸ he)), fun o => ?_⟩
  · refine List.forall₂_map_right_iff.mpr ((L.filed hp).imp fun a x hx => ?_)
    exact ⟨hx.region, hx.owner, hx.binding, hx.aimed, hx.objected, hx.fits, hx.blank, hx.waiting, hx.undone⟩
  · exact List.pairwise_map.mpr (L.order hp)
  · have haccount := L.account o
    show Account B r.phase r.retry.items h o (holds o)
    cases hp : r.phase <;> simp only [hp, Account, hlines] at haccount ⊢ <;> exact haccount

/-- A request that gives its phase up only has its open items completed. -/
theorem Ledger.giveUp (L : Ledger B r h holds) (hgive : GivesUp r) : Ledger B r.finishAll h holds := by
  have hlines (o : Oid) : lines B.id o r.finishAll.items = lines B.id o r.items := by
    rw [lines, lines, Request.finishAll, List.filterMap_map]
    refine List.filterMap_congr fun x _ => ?_
    dsimp only [Function.comp_apply]
    split <;> rfl
  have hcomplete (x : Item) : (if x.complete then x else x.finish).complete = true := by
    split
    · assumption
    · rfl
  have herror : r.finishAll.hasError ≠ false := by
    rw [hasError_finishAll, hgive.2]
    exact Bool.true_eq_false_eq_False
  have hundo : r.phase ≠ .undo := by rcases hgive.1 with hp | hp <;> simp [hp]
  refine ⟨fun hp => ?_, L.asked, fun _ he => absurd he herror, fun hp => List.forall_mem_map.mpr fun x hx => ?_,
    fun _ => ?_, fun _ he => absurd he herror, fun o => ?_⟩
  · refine List.forall₂_map_right_iff.mpr ((L.filed hp).imp fun a x hx => ?_)
    split
    · exact hx
    · exact ⟨hx.region, hx.owner, hx.binding, hx.aimed, hx.objected, hx.fits, hx.blank, fun _ _ hc => (by cases hc),
        fun hp => absurd hp hundo⟩
  · split <;> exact L.aimed hp x hx
  · refine List.pairwise_map.mpr (List.pairwise_of_forall fun x y _ _ => hcomplete x)
  · have haccount := L.account o
    show Account B r.phase r.finishAll.items h o (holds o)
    cases hp : r.phase <;> simp only [hp, Account, hlines] at haccount ⊢ <;> exact haccount

theorem Filed.restart {old phase : Phase} {a : Binding} {x : Item} (hx : Filed B old a x)
    (hprepare : phase = .prepare → old = .start) (hcommit : phase = .commit → old = .prepare)
    (hstart : phase ≠ .start) : Filed B phase a x.restart where
  region := hx.region
  owner := hx.owner
  binding := hx.binding
  aimed := hx.aimed
  objected := hx.objected
  fits := hx.fits
  blank := by
    rintro (hnone | ⟨hown, hp | hp | hn⟩)
    · exact hx.blank (Or.inl hnone)
    · exact absurd hp hstart
    · exact hx.blank (Or.inr ⟨hown, Or.inl (hprepare hp)⟩)
    · exact hx.blank (Or.inr ⟨hown, Or.inr (Or.inr hn)⟩)
  waiting hp hown _ := hx.blank (Or.inr ⟨hown, Or.inr (Or.inl (hcommit hp))⟩)
  undone _ _ hc := by cases hc

theorem Ledger.enter (L : Ledger B r h holds) {phase : Phase} (hold : r.phase ≠ .cleanup) (hstart : phase ≠ .start)
    (hprepare : phase = .prepare → r.phase = .start) (hcommit : phase = .commit → r.phase = .prepare)
    (htargets : phase = .commit → ∀ x ∈ r.items, x.target ≠ none)
    (haccount : ∀ o, Account B phase r.items h o (holds o)) :
    Ledger B { r with phase, items := r.items.map Item.restart } h holds := by
  have hlines (o : Oid) : lines B.id o (r.items.map Item.restart) = lines B.id o r.items := by
    rw [lines, lines, List.filterMap_map]
    rfl
  refine ⟨fun _ => ?_, L.asked, fun _ _ => List.forall_mem_map.mpr fun _ _ hc => (by cases hc),
    fun hp => List.forall_mem_map.mpr (htargets hp), fun hp => ?_,
    fun _ _ => List.forall_mem_map.mpr fun _ _ _ hc => (by cases hc), fun o => ?_⟩
  · exact List.forall₂_map_right_iff.mpr ((L.filed hold).imp fun a x hx => hx.restart hprepare hcommit hstart)
  · -- Nothing has been committed yet.
    refine List.pairwise_map.mpr (List.pairwise_of_forall_mem_list fun x hx y hy hown hundo => ?_)
    obtain ⟨a, hfiled⟩ := L.of_mem hold hy
    exact absurd (hfiled.blank (Or.inr ⟨hown, Or.inr (Or.inl (hcommit hp))⟩)) hundo
  · have haccount := haccount o
    show Account B phase (r.items.map Item.restart) h o (holds o)
    cases phase <;> simp only [Account, hlines] at haccount ⊢ <;> exact haccount

/-- Each line of a store is that of an item that fits it. -/
theorem Ledger.fits (L : Ledger B r h holds) (hphase : r.phase ≠ .cleanup) {o : Oid} {line : Value × Value}
    (hline : line ∈ lines B.id o r.items) :
    ∃ x ∈ r.items, x.target = some B.id ∧ x.oid = o ∧ x.value = line.2 ∧ B.store.Fits x.binding := by
  obtain ⟨x, hx, hxline⟩ := List.mem_filterMap.mp hline
  unfold line? at hxline
  rw [Option.ite_none_right_eq_some, Option.map_eq_some_iff] at hxline
  obtain ⟨⟨hown, ho⟩, u, hundo, rfl⟩ := hxline
  obtain ⟨a, hfiled⟩ := L.of_mem hphase hx
  refine ⟨x, hx, hown, ho, rfl, hfiled.fits hown ?_⟩
  rw [← Bool.not_eq_false]
  intro hn
  rw [hfiled.blank (Or.inr ⟨hown, Or.inr (Or.inr hn)⟩)] at hundo
  cases hundo

/-- Undoing takes a variable back to the value written last but one, if there is one. -/
theorem Ledger.settled (L : Ledger B r h holds) (hphase : r.phase = .commit) (o : Oid) :
    Set.settled B.store (lines B.id o r.items) (holds o) =
      (lastButOne? (writesTo h B.id o)).or (B.store.value? o) := by
  have haccount := L.account o
  simp only [hphase, Account] at haccount
  rw [haccount.1]
  refine haccount.2.settled (fun hne => ?_) fun line hline => ?_
  · obtain ⟨line, hline⟩ := List.exists_mem_of_ne_nil _ hne
    obtain ⟨x, -, -, rfl, -, hfits⟩ := L.fits (by simp [hphase]) hline
    exact Store.restored_record hfits.holds hfits.recorded
  · obtain ⟨x, -, -, -, hvalue, hfits⟩ := L.fits (by simp [hphase]) hline
    exact hvalue ▸ hfits.keeps

theorem Ledger.advance {Obj : Type} {S : Scene Obj} {r' : Request} (L : Ledger B r h holds)
    (hblamed : Blamed r h) (w : Writes S r) (hover : r.phase = .start ∨ r.isPhaseComplete = true)
    (hr : r.advance? = some r') : Ledger B r' h holds := by
  obtain ⟨phase, hnext, rfl⟩ := advance?_eq hr
  have hall := w.all_complete hover
  have haccount := L.account
  have hempty (hphase : r.phase = .prepare) (o : Oid) : lastButOne? (writesTo h B.id o) = none := by
    simp only [hphase, Account] at haccount
    rw [(haccount o).1]
    rfl
  have hnil (hphase : r.phase = .prepare ∨ r.phase = .undo) (o : Oid) : lines B.id o r.items = [] := by
    refine lines_eq_nil fun x hx hown => ?_
    rcases hphase with hphase | hphase <;> obtain ⟨a, hfiled⟩ := L.of_mem (by simp [hphase]) hx
    · exact hfiled.blank (Or.inr ⟨hown, Or.inr (Or.inl hphase)⟩)
    · exact hfiled.undone hphase hown (hall (by simp [hphase]) x hx)
  cases w.onward hnext with
  | begin hphase =>
    simp only [hphase, Account] at haccount
    exact L.enter (by simp [hphase]) (by simp) (fun _ => hphase) (by simp) (by simp) haccount
  | commit hphase hclear =>
    simp only [hphase, Account] at haccount
    refine L.enter (by simp [hphase]) (by simp) (by simp) (fun _ => hphase)
      (fun _ x hx => L.found hphase hclear x hx (hall (by simp [hphase]) x hx)) fun o => ?_
    simp only [Account, hnil (Or.inl hphase)]
    exact haccount o
  | rollBack hphase hfailed =>
    have hempty := hempty hphase
    simp only [hphase, Account] at haccount
    refine L.enter (by simp [hphase]) (by simp) (by simp) (by simp) (by simp) fun o => ?_
    simp only [Account, hnil (Or.inl hphase), settled_nil, hempty, Option.none_or]
    exact (haccount o).2
  | drop hphase hfailed hnone =>
    have hempty := hempty hphase
    have hbroken : Broken h := (hblamed.error (by simp [hphase]) (by simp [hphase])).mp hfailed
    simp only [hphase, Account] at haccount
    refine L.enter (by simp [hphase]) (by simp) (by simp) (by simp) (by simp)
      fun o => ⟨fun _ => ?_, fun hn => absurd hbroken hn⟩
    rw [hempty, Option.none_or]
    exact (haccount o).2
  | conclude hphase hclear =>
    have hnot : ¬Broken h := by
      rw [← hblamed.error (by simp [hphase]) (by simp [hphase]), hclear]
      exact Bool.false_ne_true
    simp only [hphase, Account] at haccount
    refine L.enter (by simp [hphase]) (by simp) (by simp) (by simp) (by simp)
      fun o => ⟨fun hb => absurd hb hnot, fun _ => ?_⟩
    -- Every item has been committed, and each of the store has its line.
    have hlines := asked_eq_of_filed o (L.filed (by simp [hphase])) (L.aimed hphase) fun x hx hown =>
      L.written hphase hclear x hx hown (hall (by simp [hphase]) x hx)
    rw [Book.asked, ← hlines]
    exact (haccount o).2.last
  | takeBack hphase => exact L.enter (by simp [hphase]) (by simp) (by simp) (by simp) (by simp) (L.settled hphase)
  | wind hphase =>
    simp only [hphase, Account] at haccount
    refine L.enter (by simp [hphase]) (by simp) (by simp) (by simp) (by simp)
      fun o => ⟨fun _ => ?_, fun hn => absurd (hblamed.undo hphase) hn⟩
    have hsettled := haccount o
    rwa [hnil (Or.inr hphase), settled_nil] at hsettled

theorem ledger_start {pdu : Pdu} (hkind : pdu.kind = .set) {who : Requester} (maxSize : Nat) (created : Instant)
    (hcontext : B.context = who.context) (hbindings : B.bindings = pdu.bindings) :
    Ledger B (.start who pdu maxSize created) [] B.store.value? := by
  have hphase : (Request.start who pdu maxSize created).phase = .start := rfl
  refine ⟨fun _ => ?_, fun o => List.nil_sublist _, by simp [hphase], by simp [hphase], by simp [hphase],
    by simp [hphase], fun o => ⟨rfl, rfl⟩⟩
  refine hbindings ▸ forall₂_start (not_bulk_of_set hkind) fun index a => ?_
  exact ⟨by rw [hcontext, regionOf_point (by simp [hkind, Pdu.Kind.isSearch])], by simp, fun _ => rfl, by simp, by simp,
    by simp, fun _ => rfl, fun _ _ _ => rfl, fun _ _ _ => rfl⟩

end Steps
end Responder.Set
