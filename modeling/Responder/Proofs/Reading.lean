import Responder.Proofs.Items
import Responder.Proofs.Lookup
import Responder.Service.Bulk
import Responder.Service.Get

/-! Requests that read. Whatever serving one item keeps of the state and of every item (`Tends`), the services keep
    that read (`Get.run_ensures`, `Next.run_ensures`, `Bulk.run_ensures`), in any number of passes over a request
    (`Passes.underway`). -/

namespace Responder

variable {Obj : Type} {rely : State Obj → State Obj → Prop} {I : State Obj → Prop} {Q : Item → State Obj → Prop}

/-- Releasing changes nothing but locks, and gives none to anybody. -/
theorem Finding.release_ensures {here : State Obj → Prop} (f : Finding) (registry : Nat) (who : Requester)
    (object : ObjectId) (s : State Obj) :
    (f.release registry who object : Doing Obj Unit).Ensures rely here s fun _ t => t.bare = s.bare ∧
      ((s.registry registry).locks.OwnedBy who.transaction → (t.registry registry).locks.OwnedBy who.transaction) := by
  unfold Finding.release
  split
  · exact ⟨s.bare_unlock _ _ _, State.ownedBy_unlock⟩
  · exact ⟨rfl, id⟩

/-! ### Items -/

/-- Something holds of the state, and something of every item of a list in that state. -/
structure Fit (I : State Obj → Prop) (Q : Item → State Obj → Prop) (items : List Item) (s : State Obj) : Prop where
  state : I s
  items : ∀ x ∈ items, Q x s

theorem Fit.subset {xs ys : List Item} {s : State Obj} (h : Fit I Q xs s) (hsub : ∀ y ∈ ys, y ∈ xs) : Fit I Q ys s :=
  ⟨h.state, fun y hy => h.items y (hsub y hy)⟩

theorem Fit.cons {xs : List Item} {x : Item} {s : State Obj} (h : Fit I Q xs s) (hx : Q x s) : Fit I Q (x :: xs) s :=
  ⟨h.state, List.forall_mem_cons.mpr ⟨hx, h.items⟩⟩

theorem Fit.tail {xs : List Item} {x : Item} {s : State Obj} (h : Fit I Q (x :: xs) s) : Fit I Q xs s :=
  h.subset fun _ => List.mem_cons_of_mem x

/-- Serving an open item leaves it fit, and whatever other items there are. -/
def Tends (rely : State Obj → State Obj → Prop) (I : State Obj → Prop) (Q : Item → State Obj → Prop)
    (serve : Item → Doing Obj (Item × Option Error)) : Prop :=
  ∀ x xs s, x.complete = false → Fit I Q (x :: xs) s →
    (serve x).Ensures rely I s fun out t => Fit I Q (out.1 :: xs) t

theorem serveOpen_fit {serve : Item → Doing Obj (Item × Option Error)} (hserve : Tends rely I Q serve) :
    ∀ (xs ys : List Item) (s : State Obj), Fit I Q (xs ++ ys) s →
      (serveOpen serve xs).Ensures rely I s fun out t => Fit I Q (out.1 ++ ys) t
  | [], ys, s, h => h
  | x :: xs, ys, s, h => by
    -- The item that is served joins the items behind the list.
    have hnext (x' : Item) (t : State Obj) (h : Fit I Q (x' :: (xs ++ ys)) t) :
        (serveOpen serve xs).Ensures rely I t fun out u => Fit I Q (x' :: out.1 ++ ys) u := by
      have hmoved : Fit I Q (xs ++ x' :: ys) t := h.subset fun y => List.perm_middle.mem_iff.mp
      refine (serveOpen_fit hserve xs (x' :: ys) t hmoved).mono (fun _ => id) fun out u hu => ?_
      exact hu.subset fun y => List.perm_middle.mem_iff.mpr
    simp only [serveOpen]
    split
    · simp only [Activity.ensures_bind]
      exact hnext x s h
    · next hopen =>
      simp only [Activity.ensures_bind]
      refine (hserve x (xs ++ ys) s (Bool.not_eq_true _ ▸ hopen) h).mono (fun _ => id) ?_
      rintro ⟨x', _ | error⟩ t ht
      · simp only [Activity.ensures_bind]
        exact hnext x' t ht
      · exact ht

/-! ### Requests -/

/-- What reading makes of a request: its items are fit, and nothing else has changed but whether its repetition is
over. -/
structure Read (I : State Obj → Prop) (Q : Item → State Obj → Prop) (r r' : Request) (s : State Obj) : Prop where
  same : ∃ items bulkDone, r' = { r with items, bulkDone }
  fit : Fit I Q r'.items s

section Requests
variable {r r' r'' : Request} {s t : State Obj}

theorem Read.trans (h : Read I Q r r' s) (h' : Read I Q r' r'' t) :
    Read I Q r r'' t := by
  obtain ⟨items, bulkDone, rfl⟩ := h.same
  obtain ⟨items', bulkDone', rfl⟩ := h'.same
  exact ⟨⟨items', bulkDone', rfl⟩, h'.fit⟩

theorem Read.finish (h : Read I Q r r' s) : Read I Q r (Bulk.finish r') s := by
  obtain ⟨items, bulkDone, rfl⟩ := h.same
  exact ⟨⟨items, true, rfl⟩, h.fit⟩

end Requests

namespace Bulk

/-- What holds of the request that a step of the cursor leads to, if it leads to one. -/
def Leads (P : Request → Prop) : Repetition.Step → Prop
  | .over r => P r
  | .item _ r => P r
  | .adrift => True

/-- Some of the items of a request, and maybe the repetition of one of them. -/
def Repeats (r r' : Request) : Prop :=
  ∃ items, r' = { r with items } ∧ ∀ x ∈ items, x ∈ r.items ∨ ∃ y ∈ r.items, ∃ index, x = y.repetition index

theorem repeats_refl (r : Request) : Repeats r r := ⟨r.items, rfl, fun _ => Or.inl⟩

theorem repeats_truncate (r : Request) (count : Nat) : Repeats r (r.truncate count) :=
  ⟨_, rfl, fun _ hx => Or.inl (List.mem_of_mem_take hx)⟩

theorem repeats_dropRow (r : Request) (index : Nat) : Repeats r (Repetition.dropRow r index).2 := by
  unfold Repetition.dropRow
  split
  · exact repeats_refl r
  · split
    · exact repeats_refl r
    · exact repeats_truncate r _

theorem leads_append (shape : BulkShape) (cursor : Nat) (r : Request) :
    Leads (Repeats r) (Repetition.append shape cursor r) := by
  unfold Repetition.append
  split
  · split
    · exact repeats_dropRow r cursor
    · exact repeats_refl r
  · split
    · trivial
    · split
      · trivial
      · next above habove =>
        refine ⟨_, rfl, fun x hx => ?_⟩
        rcases List.mem_append.mp hx with hx | hx
        · exact Or.inl hx
        · exact Or.inr ⟨above, List.mem_of_getElem? habove, cursor, List.mem_singleton.mp hx⟩

theorem leads_step (cursor : Nat) (r : Request) : Leads (Repeats r) (Repetition.step cursor r) := by
  unfold Repetition.step
  split
  · exact repeats_refl r
  · split
    · exact repeats_refl r
    · split
      · trivial
      · split
        · exact repeats_truncate r cursor
        · split
          · exact leads_append _ cursor r
          · exact repeats_refl r

/-- A request that a step leads to is read as far as the one before. -/
theorem Repeats.read {r r' : Request} {s : State Obj} (h : Repeats r r')
    (hrepeat : ∀ x index, Q x s → Q (x.repetition index) s) (hr : Fit I Q r.items s) :
    Read I Q r r' s := by
  obtain ⟨items, rfl, hitems⟩ := h
  refine ⟨⟨items, _, rfl⟩, hr.state, fun x hx => ?_⟩
  rcases hitems x hx with hx | ⟨y, hy, index, rfl⟩
  · exact hr.items x hx
  · exact hrepeat y index (hr.items y hy)

end Bulk

variable {p : Policy} {registry : Nat} {r : Request} {s : State Obj}

section Services
variable [ManagedObject Obj]

theorem Get.run_ensures (hserve : Tends rely I Q (Get.serve p registry r.begin.requester))
    (h : Fit I Q r.begin.items s) :
    (Get.run p registry r).Ensures rely I s fun out t => Read I Q r.begin out.1 t := by
  simp only [Get.run, Activity.ensures_bind]
  refine (serveOpen_fit hserve r.begin.items [] s (by rwa [List.append_nil])).mono (fun _ => id) fun out t ht => ?_
  exact ⟨⟨out.1, _, rfl⟩, by rwa [List.append_nil] at ht⟩

/-- What any number of laps keeps, a search does. -/
theorem Tends.search {who : Requester} (hserve : ∀ laps, Tends rely I Q (Next.serve p registry who laps)) :
    Tends rely I Q (Next.search p registry who) := fun x xs s => hserve _ x xs s

theorem Next.run_ensures (hserve : Tends rely I Q (Next.search p registry r.begin.requester))
    (h : Fit I Q r.begin.items s) :
    (Next.run p registry r).Ensures rely I s fun out t => Read I Q r.begin out.1 t := by
  simp only [Next.run, Activity.ensures_bind]
  refine (serveOpen_fit hserve r.begin.items [] s (by rwa [List.append_nil])).mono (fun _ => id) fun out t ht => ?_
  exact ⟨⟨out.1, _, rfl⟩, by rwa [List.append_nil] at ht⟩

namespace Bulk

theorem repeatFrom_ensures (hserve : Tends rely I Q (Next.search p registry r.requester))
    (hrepeat : ∀ x index s, Q x s → Q (x.repetition index) s) : ∀ (steps cursor : Nat) (r' : Request) (s : State Obj),
      Read I Q r r' s → (repeatFrom p registry steps cursor r').Ensures rely I s fun out t => Read I Q r out.1 t
  | 0, cursor, r', s, h => Read.finish h
  | steps + 1, cursor, r', s, h => by
    have hstep := leads_step cursor r'
    simp only [repeatFrom]
    split
    · next r'' heq =>
      rw [heq] at hstep
      exact (h.trans (hstep.read (hrepeat · · s) h.fit)).finish
    · exact h.finish
    · next index r'' heq =>
      rw [heq] at hstep
      have h := h.trans (hstep.read (hrepeat · · s) h.fit)
      obtain ⟨items, bulkDone, rfl⟩ := h.same
      split
      · exact h.finish
      · next item hitem =>
        split
        · exact repeatFrom_ensures hserve hrepeat steps (cursor + 1) _ s h
        · next hopen =>
          simp only [Activity.ensures_bind]
          have hfit := h.fit.cons (h.fit.items item (List.mem_of_getElem? hitem))
          refine (hserve item items s (Bool.not_eq_true _ ▸ hopen) hfit).mono (fun _ => id) ?_
          rintro ⟨item', error⟩ t ht
          have hset : Read I Q r (Request.setItem { r with items, bulkDone } index item') t := by
            refine ⟨⟨items.set index item', bulkDone, rfl⟩, ht.subset fun y hy => ?_⟩
            exact List.mem_cons.mpr ((List.mem_or_eq_of_mem_set hy).symm)
          cases error with
          | some error => exact hset
          | none =>
            dsimp only
            split
            · exact hset
            · split
              · exact (hset.trans ((repeats_dropRow _ index).read (hrepeat · · t) hset.fit)).finish
              · exact repeatFrom_ensures hserve hrepeat steps (cursor + 1) _ t hset

theorem run_ensures (hserve : Tends rely I Q (Next.search p registry r.begin.requester))
    (hrepeat : ∀ x index s, Q x s → Q (x.repetition index) s) (h : Fit I Q r.begin.items s) :
    (run p registry r).Ensures rely I s fun out t => Read I Q r.begin out.1 t := by
  have hsplit := List.take_append_drop (Repetition.start r.begin) r.begin.items
  simp only [run, Activity.ensures_bind]
  refine (serveOpen_fit hserve _ _ s (hsplit.symm ▸ h)).mono (fun _ => id) ?_
  rintro ⟨items, _ | error⟩ t ht
  · exact repeatFrom_ensures hserve hrepeat _ _ _ t ⟨⟨_, _, rfl⟩, ht⟩
  · exact ⟨⟨_, _, rfl⟩, ht⟩

end Bulk
/-- Where counters of 64 bits can be carried, a reading is over once it is answered. -/
theorem Get.conclude_eq {who : Requester} (hversion : who.version ≠ .v1) (x : Item) :
    conclude who x = if x.deferred then x else x.finish := by
  simp only [conclude, hversion, false_and, if_false]

end Services

/-! ### Passes -/

/-- The progress that a service has made on a request: in its first pass, and whenever the request was taken up
again. -/
inductive Passes (run : Request → Doing Obj (Request × Option Error)) (rely : State Obj → State Obj → Prop)
    (r₀ : Request) (s₀ : State Obj) : Progress (State Obj) (Request × Option Error) → Prop
  | first : Passes run rely r₀ s₀ (run r₀ s₀)
  | wake {wait : Wait} {s t : State Obj} {wakeup : Wakeup}
      {resume : Wakeup → State Obj → Progress (State Obj) (Request × Option Error)}
      (before : Passes run rely r₀ s₀ (.waiting wait s resume)) (h : rely s t) : Passes run rely r₀ s₀ (resume wakeup t)
  | again {r : Request} {s t : State Obj} (before : Passes run rely r₀ s₀ (.done (r, none) s))
      (hr : r.isComplete = false) (h : rely s t) : Passes run rely r₀ s₀ (run r.retry t)

/-- A request that is read on somebody's behalf, with items that are fit. -/
structure Underway (who : Requester) (pdu : Pdu) (I : State Obj → Prop) (Q : Item → State Obj → Prop) (r : Request)
    (s : State Obj) : Prop where
  phase : r.phase = .process
  requester : r.requester = who
  pdu : r.pdu = pdu
  status : r.status = .noError
  fit : Fit I Q r.items s

section Underway
variable {who : Requester} {pdu : Pdu} {r' : Request} {t : State Obj}

theorem begin_of_process (hphase : r.phase = .process) : r.begin = r := if_neg (by simp [hphase])

theorem begin_of_start (hkind : r.pdu.kind ≠ .set) (hphase : r.phase = .start) :
    r.begin = { r with phase := .process, items := r.items.map Item.restart } := by
  simp [Request.begin, Request.advance?, Request.following?, Request.isTwoPhase, hphase, hkind]

/-- A request whose items are each read to the end, and without an error, is complete, and its response holds what they
do. -/
theorem exists_read {asked answered : Binding → Item → Prop} {serve : Item → Doing Obj (Item × Option Error)}
    (hkind : pdu.kind = .get ∨ pdu.kind = .getNext)
    (hasked : ∀ index a,
      asked a (Item.restart { index, binding := a, region := Request.regionOf pdu who.context a.oid }))
    (hopen : ∀ a x, asked a x → x.complete = false)
    (hserve : ∀ a x s, asked a x → I s →
      (serve x).Ensures (fun _ _ => False) (fun _ => False) s fun out t => I t ∧ out.2 = none ∧ answered a out.1)
    (hanswered : ∀ a x, answered a x → x.complete = true ∧ x.hasError = false) (hs : I s) (maxSize : Nat)
    (created : Instant) : ∃ items t,
      serveOpen serve (Request.start who pdu maxSize created).begin.items s = .done (items, none) t ∧ I t ∧
        List.Forall₂ answered pdu.bindings items ∧
        ({ (Request.start who pdu maxSize created).begin with items } : Request).isComplete = true ∧
        ({ (Request.start who pdu maxSize created).begin with items } : Request).toResponse =
          { pdu.toResponse with bindings := items.map Item.binding } := by
  have hset : pdu.kind ≠ .set := by rcases hkind with hkind | hkind <;> simp [hkind]
  have hbulk : pdu.kind ≠ .getBulk := by rcases hkind with hkind | hkind <;> simp [hkind]
  rw [begin_of_start (r := .start who pdu maxSize created) hset rfl]
  have hall : List.Forall₂ asked pdu.bindings ((Request.start who pdu maxSize created).items.map Item.restart) :=
    List.forall₂_map_right_iff.mpr (forall₂_start hbulk hasked)
  obtain ⟨⟨items, later⟩, t, hdone, ht, hlater, hall⟩ :=
    Progress.Ensures.done (serveOpen_ensures hopen hserve hall hs)
  obtain rfl : later = none := hlater
  refine ⟨items, t, hdone, ht, hall, ?_, ?_⟩
  · have hover : items.all Item.complete = true := by
      refine List.all_eq_true.mpr fun x hx => ?_
      obtain ⟨a, hx⟩ := exists_of_mem hall hx
      exact (hanswered a x hx).1
    simp [Request.isComplete, Request.isTwoPhase, Request.isPhaseComplete, Request.shape?, Request.shapeOf?,
      Request.start, Status.isError, hset, hbulk, hover]
  · refine toResponse_of_clear ?_
    rw [Request.hasError, Bool.or_eq_false_iff]
    refine ⟨rfl, List.any_eq_false.mpr fun x hx => ?_⟩
    obtain ⟨a, hx⟩ := exists_of_mem hall hx
    exact Bool.not_eq_true _ ▸ (hanswered a x hx).2

theorem Request.begin_same (r : Request) : r.begin.requester = r.requester ∧ r.begin.status = r.status ∧
    ∀ x ∈ r.begin.items, ∃ y ∈ r.items, x.status = y.status ∧ x.value = y.value := by
  unfold begin
  split
  · cases hr : r.advance? with
    | none => exact ⟨rfl, rfl, fun x hx => ⟨x, hx, rfl, rfl⟩⟩
    | some r' =>
      obtain ⟨phase, -, rfl⟩ := Option.map_eq_some_iff.mp hr
      refine ⟨rfl, rfl, fun x hx => ?_⟩
      obtain ⟨y, hy, rfl⟩ := List.mem_map.mp hx
      exact ⟨y, hy, rfl, rfl⟩
  · exact ⟨rfl, rfl, fun x hx => ⟨x, hx, rfl, rfl⟩⟩

theorem underway_start (hkind : pdu.kind ≠ .set) {maxSize : Nat} {created : Instant} (hI : I s)
    (hQ : ∀ index, ∀ b ∈ pdu.bindings, Q { index, binding := b, region := Request.regionOf pdu who.context b.oid } s) :
    Underway who pdu I Q (Request.start who pdu maxSize created).begin s := by
  rw [begin_of_start (r := .start who pdu maxSize created) hkind rfl]
  refine ⟨rfl, rfl, rfl, rfl, hI, fun x hx => ?_⟩
  obtain ⟨y, hy, rfl⟩ := List.mem_map.mp hx
  obtain ⟨index, hindex, rfl⟩ := List.mem_mapIdx.mp hy
  exact hQ index _ (List.mem_of_mem_take (List.getElem_mem hindex))

theorem Read.underway (hread : Read I Q r r' t) (h : Underway who pdu I Q r s) : Underway who pdu I Q r' t := by
  obtain ⟨⟨items, bulkDone, rfl⟩, hfit⟩ := hread
  exact ⟨h.phase, h.requester, h.pdu, h.status, hfit⟩

theorem Underway.retry (h : Underway who pdu I Q r s) (hI : I s → I t)
    (hrest : ∀ x, Q x s → Q { x with deferred := false } t) : Underway who pdu I Q r.retry t := by
  refine ⟨h.phase, h.requester, h.pdu, h.status, hI h.fit.state, fun x hx => ?_⟩
  obtain ⟨y, hy, rfl⟩ := List.mem_map.mp hx
  exact hrest y (h.fit.items y hy)

/-- A request is complete only when all its items are. -/
theorem Underway.complete (h : Underway who pdu I Q r s) (hc : r.isComplete = true) :
    ∀ x ∈ r.items, x.complete = true := by
  rw [Request.isComplete, Bool.and_eq_true] at hc
  have hover := hc.2
  rw [Request.isPhaseComplete, h.status, show Status.noError.isError = false from rfl, Bool.false_or,
    Bool.and_eq_true] at hover
  exact List.all_eq_true.mp hover.1

/-- What a service that reads makes of the first pass over a request, and of every later one. -/
theorem Passes.underway {run : Request → Doing Obj (Request × Option Error)} (hkind : pdu.kind ≠ .set)
    (hrun : ∀ r s, r.begin.requester = who → Fit I Q r.begin.items s →
      (run r).Ensures rely I s fun out t => Read I Q r.begin out.1 t)
    (hI : ∀ s t, rely s t → I s → I t) (hrest : ∀ x s t, rely s t → Q x s → Q { x with deferred := false } t)
    {maxSize : Nat} {created : Instant} (hs : I s)
    (hQ : ∀ index, ∀ b ∈ pdu.bindings, Q { index, binding := b, region := Request.regionOf pdu who.context b.oid } s)
    {q : Progress (State Obj) (Request × Option Error)}
    (h : Passes run rely (.start who pdu maxSize created) s q) :
    q.Ensures rely I fun out t => Underway who pdu I Q out.1 t := by
  have hpass (r : Request) (s : State Obj) (hr : Underway who pdu I Q r.begin s) :
      (run r).Ensures rely I s fun out t => Underway who pdu I Q out.1 t :=
    (hrun r s hr.requester hr.fit).mono (fun _ => id) fun out t hread => hread.underway hr
  induction h with
  | first => exact hpass _ s (underway_start hkind hs hQ)
  | wake before hrely ih => exact ih.2 _ _ hrely
  | @again r t u before hr hrely ih =>
    have hretry : Underway who pdu I Q r.retry u := ih.retry (hI t u hrely) (hrest · t u hrely)
    exact hpass _ u ((begin_of_process hretry.phase).symm ▸ hretry)

end Underway
end Responder
