import Responder.Proofs.Bulk.Filling

/-! Where a search in bulk stops, if every single search has an answer and nothing is waited for. It goes on row by
    row (`Going`) up to the last row, unless the response is full before: then it stops with the rows before, or with a
    row too many, if the last column of that row was only taken over (`Stops`). A first row that does not fit is lost
    altogether (`Leaves`). -/

namespace Responder.Bulk

variable {T : Sheet} {maxSize k j : Nat}

/-- The first row fitted, and the last of the rows fits, or would but for its last column, which was taken over. -/
structure Fits (T : Sheet) (maxSize k : Nat) : Prop where
  first : ∀ i ≤ T.shape.columns, 0 < i → T.size (T.shown 0 i) ≤ maxSize
  inside : k < T.height
  tight : T.size (T.rows (k + 1)) ≤ maxSize ∨ ∃ i, k = i + 1 ∧ T.endsInMarker i = true ∧
    T.size (T.filled k (T.shape.columns - 1)) < maxSize

/-- A column of a further row fits, or was taken over when there was still room. -/
def Took (T : Sheet) (maxSize k j : Nat) : Prop :=
  T.size (T.filled (k + 1) (j + 1)) ≤ maxSize ∨
    (∃ b, (T.row k)[j]? = some b ∧ b.value.isException = true) ∧ T.size (T.filled (k + 1) j) < maxSize

/-- How far the response has come. -/
inductive Going (T : Sheet) (maxSize : Nat) : Nat → Nat → Prop
  | first {j : Nat} (h : ∀ i ≤ j, 0 < i → T.size (T.shown 0 i) ≤ maxSize) : Going T maxSize 0 j
  | next {k : Nat} (h : Fits T maxSize k) : Going T maxSize (k + 1) 0
  | further {k j : Nat} (h : Fits T maxSize k) (hmore : k + 1 < T.height) (htook : Took T maxSize k j) :
    Going T maxSize (k + 1) (j + 1)

/-- There is no row after these ones, or no room for its last column but one, or none for the answer in its last
column. -/
structure Stops (T : Sheet) (maxSize k : Nat) : Prop extends Fits T maxSize k where
  full : k + 1 = T.height ∨ k + 1 < T.height ∧ (maxSize ≤ T.size (T.filled (k + 1) (T.shape.columns - 1)) ∨
    T.endsInMarker k = false ∧ maxSize < T.size (T.rows (k + 2)))

/-- What is left of the answers. -/
inductive Leaves (T : Sheet) (maxSize : Nat) : List Binding → Prop
  | bare (h : T.shape.columns = 0 ∨ T.shape.repetitions = 0) : Leaves T maxSize T.head
  | broken {j : Nat} (hrepeats : 0 < T.shape.repetitions) (hj : j < T.shape.columns)
    (h : maxSize < T.size (T.shown 0 (j + 1))) : Leaves T maxSize T.head
  | rows {k : Nat} (hcolumns : 0 < T.shape.columns) (h : Stops T maxSize k) : Leaves T maxSize (T.rows (k + 1))

theorem Sheet.shown_columns : T.shown 0 T.shape.columns = T.rows 1 := by
  have hpending : T.pending 0 T.shape.columns = [] := by
    rw [← List.length_eq_zero_iff, T.length_pending, Nat.sub_self]
  rw [Sheet.shown, T.filled_columns, hpending, List.append_nil]

theorem Going.turn (hcolumns : 0 < T.shape.columns) (hrepeats : 0 < T.shape.repetitions)
    (h : Going T maxSize k T.shape.columns) : Going T maxSize (k + 1) 0 := by
  obtain ⟨last, hlast⟩ : ∃ last, T.shape.columns = last + 1 := Nat.exists_eq_succ_of_ne_zero hcolumns.ne'
  cases k with
  | zero =>
    cases h with
    | first h =>
      refine .next ⟨h, T.lt_height_iff.mpr ⟨hrepeats, fun i hi => absurd hi (Nat.not_lt_zero i)⟩, Or.inl ?_⟩
      exact T.shown_columns ▸ h _ le_rfl hcolumns
  | succ k =>
    rw [hlast] at h
    cases h with
    | further h hmore htook =>
      refine .next ⟨h.first, hmore, ?_⟩
      rw [Took, ← hlast, T.filled_columns] at htook
      refine htook.imp_right ?_
      rintro ⟨⟨b, hb, hmarker⟩, hroom⟩
      refine ⟨k, rfl, ?_, ?_⟩
      · rwa [T.endsInMarker_eq hlast.symm hb]
      · rwa [hlast, Nat.add_sub_cancel]

theorem Going.fits (h : Going T maxSize (k + 1) j) : Fits T maxSize k := by
  cases h with
  | next h => exact h
  | further h => exact h

theorem Stops.of_full (h : Fits T maxSize k) (hmore : k + 1 < T.height) (hj : j < T.shape.columns)
    (hfull : maxSize ≤ T.size (T.filled (k + 1) j)) : Stops T maxSize k :=
  ⟨h, Or.inr ⟨hmore, Or.inl (hfull.trans (T.size_filled_le (Nat.le_sub_one_of_lt hj)))⟩⟩

theorem Stops.of_large (h : Fits T maxSize k) (hmore : k + 1 < T.height) (hj : j < T.shape.columns) {b : Binding}
    (hb : (T.row k)[j]? = some b) (hvalue : b.value.isException = false)
    (hlarge : maxSize < T.size (T.filled (k + 1) (j + 1))) : Stops T maxSize k := by
  rcases Nat.lt_or_eq_of_le (Nat.succ_le_of_lt hj) with hbefore | hlast
  · exact .of_full h hmore hbefore hlarge.le
  · refine ⟨h, Or.inr ⟨hmore, Or.inr ⟨?_, ?_⟩⟩⟩
    · rwa [T.endsInMarker_eq hlast hb]
    · rwa [← T.filled_columns, ← hlast]

theorem Going.place_le (hrepeats : 0 < T.shape.repetitions) (hj : j ≤ T.shape.columns) (h : Going T maxSize k j) :
    T.place k j ≤ T.shape.capacity := by
  have hrow {k j : Nat} (hk : k < T.height) (hj : j ≤ T.shape.columns) : T.place k j ≤ T.shape.capacity := by
    have hle : (k + 1) * T.shape.columns ≤ T.shape.repetitions * T.shape.columns :=
      Nat.mul_le_mul_right _ (T.lt_height_iff.mp hk).1
    rw [Nat.succ_mul] at hle
    rw [Sheet.place, BulkShape.capacity]
    omega
  cases h with
  | first h => exact hrow (T.lt_height_iff.mpr ⟨hrepeats, fun i hi => absurd hi (Nat.not_lt_zero i)⟩) hj
  | next h => exact (T.place_columns _).symm.trans_le (hrow h.inside le_rfl)
  | further h hmore htook => exact hrow hmore hj

section Loop
variable {Obj : Type} [ManagedObject Obj] {p : Policy} {registry steps cursor index : Nat} {who : Requester}
  {P : State Obj → Prop} {r r' : Request} {s : State Obj} {b : Binding} {x : Item}
  {ends : Request × Option Error → State Obj → Prop}

/-- An item that is answered is passed over. -/
theorem repeatFrom_settled (hstep : Repetition.step cursor r = .item index r') (hx : r'.items[index]? = some x)
    (hclosed : x.complete = true) :
    (repeatFrom p registry (steps + 1) cursor r : Doing Obj _) = repeatFrom p registry steps (cursor + 1) r' := by
  simp only [repeatFrom, hstep, hx, hclosed, if_true]

/-- An item that still has to be served is answered. Then the response is full, or the repetition goes on. -/
theorem repeatFrom_open (hanswers : Answers p registry who P T.answer)
    (hstep : Repetition.step cursor r = .item index r') (hx : r'.items[index]? = some x)
    (hopen : Open who.context b x) (hwho : r'.requester = who) (hs : P s)
    (hfull : ∀ x' t, P t → Settled who.context (T.answer b.oid) x' →
      r'.maxSize < (r'.setItem index x').responseSize →
        ends (finish (Repetition.dropRow (r'.setItem index x') index).2, none) t)
    (hnext : ∀ x' t, P t → Settled who.context (T.answer b.oid) x' →
      (r'.setItem index x').responseSize ≤ r'.maxSize →
        (repeatFrom p registry steps (cursor + 1) (r'.setItem index x')).Ensures (fun _ _ => False) (fun _ => False) t
          ends) :
    (repeatFrom p registry (steps + 1) cursor r).Ensures (fun _ _ => False) (fun _ => False) s ends := by
  simp only [repeatFrom, hstep, hx, hopen.fresh, Bool.false_eq_true, if_false, Activity.ensures_bind]
  subst hwho
  refine (hanswers b x s hopen hs).mono (fun _ => id) ?_
  rintro ⟨x', error⟩ t ⟨ht, rfl, hx'⟩
  dsimp only
  split
  · next hleft =>
    rw [hx'.closed] at hleft
    cases hleft
  · split
    · next hlarge => exact hfull x' t ht hx' hlarge
    · next hsmall => exact hnext x' t ht hx' (Nat.le_of_not_lt hsmall)

/-- From a column of a row on, the repetition comes to its end. -/
def Ends (p : Policy) (registry : Nat) (who : Requester) (P : State Obj → Prop) (T : Sheet) (maxSize steps k j : Nat) :
    Prop :=
  ∀ r s, T.shape.capacity < steps + T.place k j → Going T maxSize k j →
    Holds T.pdu who maxSize (T.filled k j) (T.pending k j) r → P s →
      (repeatFrom p registry steps (T.place k j) r).Ensures (fun _ _ => False) (fun _ => False) s fun out t =>
        P t ∧ ∃ bs r', out = (finish r', none) ∧ Holds T.pdu who maxSize bs [] r' ∧ Leaves T maxSize bs

theorem Ends.turn (hcolumns : 0 < T.shape.columns) (hrepeats : 0 < T.shape.repetitions)
    (h : Ends p registry who P T maxSize steps (k + 1) 0) :
    Ends p registry who P T maxSize steps k T.shape.columns := by
  intro r s hsteps hgoing hr hs
  rw [T.place_columns] at hsteps ⊢
  refine h r s hsteps (hgoing.turn hcolumns hrepeats) ?_ hs
  have hpending : T.pending k T.shape.columns = [] := by
    cases k with
    | zero => rw [← List.length_eq_zero_iff, T.length_pending, Nat.sub_self]
    | succ k => rfl
  rw [T.filled_columns, hpending] at hr
  rw [T.filled_zero]
  exact hr

theorem Ends.first (hanswers : Answers p registry who P T.answer) (hkind : T.pdu.kind = .getBulk)
    (hrepeats : 0 < T.shape.repetitions) (hj : j < T.shape.columns)
    (h : Ends p registry who P T maxSize steps 0 (j + 1)) : Ends p registry who P T maxSize (steps + 1) 0 j := by
  intro r s hsteps hgoing hr hs
  obtain ⟨c, hpending, hb⟩ := T.pending_eq_cons hj
  have hstep := step_first hkind hr hj hrepeats
  rw [hpending] at hr
  obtain ⟨x, hx, hopen⟩ := hr.next
  rw [T.length_filled hj.le] at hx
  have hset (x' : Item) (hx' : Settled who.context (T.answer c.oid) x') :
      Holds T.pdu who maxSize (T.filled 0 (j + 1)) (T.pending 0 (j + 1)) (r.setItem (T.place 0 j) x') := by
    rw [T.filled_succ hb, ← T.length_filled hj.le]
    exact hr.set hx'
  refine repeatFrom_open hanswers hstep hx hopen hr.requester hs (fun x' t ht hx' hfull => ?_)
    fun x' t ht hx' hfits => ?_
  · have hr' := hset x' hx'
    rw [hr.maxSize, hr'.responseSize] at hfull
    have hdropped := hr'.dropRow hkind hj
    rw [T.rows_zero] at hdropped
    exact ⟨ht, _, _, rfl, hdropped, .broken hrepeats hj hfull⟩
  · have hr' := hset x' hx'
    rw [hr.maxSize, hr'.responseSize] at hfits
    refine h _ t (by rw [Sheet.place] at hsteps ⊢; omega) ?_ hr' ht
    cases hgoing with
    | first hbefore =>
      refine .first fun i hi hpos => ?_
      rcases Nat.lt_or_eq_of_le hi with hi | rfl
      · exact hbefore i (Nat.le_of_lt_succ hi) hpos
      · exact hfits

theorem Ends.further (hanswers : Answers p registry who P T.answer) (hkind : T.pdu.kind = .getBulk)
    (hj : j < T.shape.columns) (hafter : Ends p registry who P T maxSize steps (k + 1) (j + 1)) :
    Ends p registry who P T maxSize (steps + 1) (k + 1) j := by
  intro r s hsteps hgoing hr hs
  have hfits := hgoing.fits
  by_cases hmore : k + 1 < T.height
  · obtain ⟨b, hb⟩ := T.exists_getElem?_row k hj
    obtain ⟨x, hx, hsettled⟩ := hr.settled ((T.getElem?_filled_succ hj).trans hb)
    have hstep := step_further hkind hr hj hmore hx
    have hcell := T.getElem?_row_succ k hb
    split at hstep
    · next hfull =>
      simp only [repeatFrom, hstep]
      exact ⟨hs, _, _, rfl, hr.truncate_place hj.le, .rows (by omega) (.of_full hfits hmore hj hfull)⟩
    · next hroom =>
      have happended : (r.items ++ [x.repetition (T.place (k + 1) j)])[T.place (k + 1) j]? =
          some (x.repetition (T.place (k + 1) j)) := by
        have hplace : r.items.length = T.place (k + 1) j := hr.size_eq.trans (T.length_filled hj.le)
        rw [List.getElem?_append_right hplace.le, hplace, Nat.sub_self, List.getElem?_cons_zero]
      have hsteps' : T.shape.capacity < steps + T.place (k + 1) (j + 1) := by
        rw [Sheet.place] at hsteps ⊢
        omega
      cases hmarker : b.value.isException with
      | true =>
        -- The marker is taken over, and whether it fits is not asked before the next column.
        have htaken := hsettled.repetition_of_marker hmarker (T.place (k + 1) j)
        rw [repeatFrom_settled hstep happended htaken.closed]
        have htook : Took T maxSize k j := Or.inr ⟨⟨b, hb, hmarker⟩, Nat.lt_of_not_le hroom⟩
        refine hafter _ s hsteps' (.further hfits hmore htook) ?_ hs
        rw [T.again_of_marker hmarker] at hcell
        exact T.filled_succ hcell ▸ hr.append_settled htaken
      | false =>
        have hopen := hsettled.repetition_of_value hmarker (T.place (k + 1) j)
        rw [T.again_of_value hmarker] at hcell
        have happend := hr.append_open hopen
        have hset (x' : Item) (hx' : Settled who.context (T.answer b.oid) x') := happend.set hx'
        simp only [← T.filled_succ hcell, T.length_filled hj.le] at hset
        refine repeatFrom_open hanswers hstep happended hopen happend.requester hs (fun x' t ht hx' hfull => ?_)
          fun x' t ht hx' hsmall => ?_
        · have hr' := hset x' hx'
          rw [hr'.responseSize, happend.maxSize, List.append_nil] at hfull
          exact ⟨ht, _, _, rfl, hr'.dropRow hkind hj, .rows (by omega) (.of_large hfits hmore hj hb hmarker hfull)⟩
        · have hr' := hset x' hx'
          rw [hr'.responseSize, happend.maxSize, List.append_nil] at hsmall
          exact hafter _ t hsteps' (.further hfits hmore (Or.inl hsmall)) hr' ht
  · cases hgoing with
    | further _ hmore' => exact absurd hmore' hmore
    | next =>
      have hinside := hfits.inside
      rw [T.filled_zero] at hr
      simp only [repeatFrom, step_over hkind hr (by omega) hinside hmore]
      exact ⟨hs, _, _, rfl, hr, .rows hj ⟨hfits, Or.inl (by omega)⟩⟩

/-- The repetition, from a column of a row on. -/
theorem repeatFrom_leaves (hanswers : Answers p registry who P T.answer) (hkind : T.pdu.kind = .getBulk)
    (hcolumns : 0 < T.shape.columns) (hrepeats : 0 < T.shape.repetitions) (steps k j : Nat) (hj : j ≤ T.shape.columns) :
    Ends p registry who P T maxSize steps k j := by
  induction steps generalizing k j with
  | zero =>
    -- There are steps left until behind the last place, and no place lies beyond that.
    intro r s hsteps hgoing
    have hplace := hgoing.place_le hrepeats hj
    omega
  | succ steps ih =>
    have hinner (k j : Nat) (hj : j < T.shape.columns) : Ends p registry who P T maxSize (steps + 1) k j := by
      cases k with
      | zero => exact .first hanswers hkind hrepeats hj (ih 0 (j + 1) hj)
      | succ k => exact .further hanswers hkind hj (ih (k + 1) (j + 1) hj)
    rcases Nat.lt_or_eq_of_le hj with hj | rfl
    · exact hinner k j hj
    · exact .turn hcolumns hrepeats (hinner (k + 1) 0 hcolumns)

/-- A request at its start holds what is asked for, without the repeated variables if there are no repetitions. -/
theorem holds_start (hkind : T.pdu.kind = .getBulk) (who : Requester) (maxSize : Nat) (created : Instant) :
    Holds T.pdu who maxSize [] (T.pdu.bindings.take (Request.startCount T.pdu))
      (Request.start who T.pdu maxSize created).begin := by
  rw [begin_of_start (r := .start who T.pdu maxSize created) (by simp [Request.start, hkind]) rfl]
  refine ⟨rfl, rfl, rfl, rfl, rfl, [], _, rfl, .nil, ?_⟩
  refine List.forall₂_map_right_iff.mpr (List.forall₂_iff_get.mpr ⟨by simp [Request.start], fun i hi hi' => ?_⟩)
  simp only [Request.start, List.get_eq_getElem, List.getElem_mapIdx]
  exact ⟨rfl, regionOf_search (by rw [hkind]; rfl) _, rfl, rfl, rfl⟩

/-- Serving what is asked for once answers that, and leaves the rest. -/
theorem Holds.serveOpen (hanswers : Answers p registry who P T.answer) {cs : List Binding}
    (hr : Holds T.pdu who maxSize [] (T.pdu.bindings.take T.shape.single ++ cs) r) (hs : P s) :
    (Responder.serveOpen (Next.search p registry r.requester) (r.items.take T.shape.single)).Ensures
      (fun _ _ => False) (fun _ => False) s fun out t => P t ∧ out.2 = none ∧
        Holds T.pdu who maxSize T.head cs { r with items := out.1 ++ r.items.drop T.shape.single } := by
  obtain rfl := hr.requester
  obtain ⟨done, items, hitems, hdone, hall⟩ := hr.items
  cases hdone
  rw [List.nil_append] at hitems
  have hlength : (T.pdu.bindings.take T.shape.single).length = T.shape.single := by
    have hhead := T.length_head
    rwa [Sheet.head, List.length_map] at hhead
  have htake := List.forall₂_take T.shape.single hall
  have hdrop := List.forall₂_drop T.shape.single hall
  rw [List.take_left' hlength] at htake
  rw [List.drop_left' hlength] at hdrop
  rw [hitems]
  refine (serveOpen_ensures (fun a x hx => hx.fresh) (fun a x s => hanswers a x s) htake hs).mono (fun _ => id) ?_
  rintro ⟨served, error⟩ t ⟨ht, rfl, hserved⟩
  exact ⟨ht, rfl, rfl, hr.pdu, hr.phase, hr.status, hr.maxSize, served, _, rfl,
    List.forall₂_map_left_iff.mpr hserved, hdrop⟩

theorem take_startCount (hkind : T.pdu.kind = .getBulk) : T.pdu.bindings.take (Request.startCount T.pdu) =
    T.pdu.bindings.take T.shape.single ++
      if T.shape.repetitions = 0 then [] else T.pdu.bindings.drop T.shape.single := by
  have hshape : Request.shapeOf? T.pdu = some T.shape := if_pos hkind
  simp only [Request.startCount, hshape]
  split
  · rw [List.append_nil]
  · rw [List.take_length, List.take_append_drop]

/-- The repetition, from its start. -/
theorem repeatFrom_start (hanswers : Answers p registry who P T.answer) (hkind : T.pdu.kind = .getBulk)
    (hr : Holds T.pdu who maxSize T.head
      (if T.shape.repetitions = 0 then [] else T.pdu.bindings.drop T.shape.single) r) (hs : P s) :
    (repeatFrom p registry (capacity r + 1 - T.shape.single) T.shape.single r).Ensures (fun _ _ => False)
      (fun _ => False) s fun out t =>
        P t ∧ ∃ bs r', out = (finish r', none) ∧ Holds T.pdu who maxSize bs [] r' ∧ Leaves T maxSize bs := by
  have hsteps : capacity r + 1 - T.shape.single = T.shape.repetitions * T.shape.columns + 1 := by
    rw [capacity, hr.shape hkind, Option.map_some, Option.getD_some, BulkShape.capacity]
    omega
  rw [hsteps]
  by_cases hbare : T.shape.columns = 0 ∨ T.shape.repetitions = 0
  · have hrest : (if T.shape.repetitions = 0 then [] else T.pdu.bindings.drop T.shape.single) = [] := by
      rw [ite_eq_left_iff]
      intro hrepeats
      rw [List.drop_eq_nil_iff, ← T.single_add_columns]
      omega
    rw [hrest] at hr
    simp only [repeatFrom, step_bare hkind hr hbare]
    exact ⟨hs, _, _, rfl, hr, .bare hbare⟩
  · have hcolumns : 0 < T.shape.columns := by omega
    have hrepeats : 0 < T.shape.repetitions := by omega
    have hplace : T.place 0 0 = T.shape.single := by
      rw [Sheet.place, Nat.zero_mul]
      rfl
    rw [if_neg hrepeats.ne'] at hr
    have hends : Ends p registry who P T maxSize (T.shape.repetitions * T.shape.columns + 1) 0 0 :=
      repeatFrom_leaves hanswers hkind hcolumns hrepeats _ 0 0 (Nat.zero_le _)
    unfold Ends at hends
    rw [hplace, T.filled_zero, T.rows_zero, BulkShape.capacity] at hends
    exact hends r s (by omega) (.first fun i hi hpos => by omega) hr hs

/-- A search in bulk is done at once. -/
theorem run_leaves (hanswers : Answers p registry who P T.answer) (hkind : T.pdu.kind = .getBulk) (hs : P s)
    (maxSize : Nat) (created : Instant) : ∃ bs r t,
    run p registry (.start who T.pdu maxSize created) s = .done (r, none) t ∧ P t ∧
      r.pdu = T.pdu ∧ r.isComplete = true ∧ r.toResponse = T.pdu.answer bs ∧ Leaves T maxSize bs := by
  have hstart := take_startCount hkind ▸ holds_start hkind who maxSize created
  have hrun : (run p registry (.start who T.pdu maxSize created)).Ensures (fun _ _ => False) (fun _ => False) s
      fun out t => P t ∧ ∃ bs r, out = (finish r, none) ∧ Holds T.pdu who maxSize bs [] r ∧ Leaves T maxSize bs := by
    have hsingle : Repetition.start (Request.start who T.pdu maxSize created).begin = T.shape.single := by
      rw [Repetition.start, hstart.shape hkind]
      rfl
    simp only [run, Activity.ensures_bind, hsingle]
    refine (hstart.serveOpen hanswers hs).mono (fun _ => id) ?_
    rintro ⟨served, error⟩ t ⟨ht, rfl, hr⟩
    exact repeatFrom_start hanswers hkind hr ht
  obtain ⟨_, t, hdone, ht, bs, r, rfl, hr, hleaves⟩ := Progress.Ensures.done hrun
  refine ⟨bs, finish r, t, hdone, ht, hr.pdu, hr.isComplete hkind, ?_, hleaves⟩
  have hclear : (finish r).hasError = false := hr.clear
  rw [toResponse_of_clear hclear]
  show { r.pdu.toResponse with bindings := r.items.map Item.binding } = _
  rw [hr.bindings, hr.pdu, List.append_nil]
  rfl

end Loop
end Responder.Bulk
