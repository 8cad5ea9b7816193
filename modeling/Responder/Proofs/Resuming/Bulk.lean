import Responder.Proofs.Bulk.Cursor
import Responder.Proofs.Resuming.Reading

/-! Requests in bulk, alone under way. A pass ends at the first repeated item that is left open, so at most one such
    item owes a call. Up to there the cursor finds in the next pass what it has found before (`Bulk.Walked`), so the
    call is made again as soon as the variables that are asked for once have been served (`Solo.bulk_leaves`). -/

namespace Responder

open Repetition (step start dropRow isRowStart rowBefore)

/-! ### Where the cursor has been -/

namespace Bulk

variable {r r' r₁ : Request} {cursor index i : Nat} {f : Item → Item} {shape : BulkShape} {x : Item}

/-- Up to the cursor, the repetition goes over complete items that are there already. -/
structure Walked (cursor : Nat) (r : Request) : Prop where
  start : start r ≤ cursor
  passed : ∀ i, Repetition.start r ≤ i → i < cursor →
    step i r = .item i r ∧ ∃ x, r.items[i]? = some x ∧ x.complete = true

theorem rowBefore_map (hcolumns : shape.columns ≤ cursor)
    (hitems : ∀ j, cursor - shape.columns ≤ j → j < cursor → r'.items[j]? = (r.items[j]?).map f) :
    rowBefore shape cursor r' = (rowBefore shape cursor r).map f := by
  apply List.ext_getElem?
  intro j
  simp only [rowBefore, List.getElem?_map, List.getElem?_take, List.getElem?_drop]
  split
  · next hj => exact hitems _ (by omega) (by omega)
  · rfl

/-- Where there is an item, a step of the cursor depends on the row before alone, and there on values alone. -/
theorem step_congr (hf : ∀ x, (f x).value = x.value) (hpdu : r'.pdu = r.pdu)
    (hitems : ∀ j, start r ≤ j → j < cursor → r'.items[j]? = (r.items[j]?).map f)
    (hstep : step cursor r = .item index r₁) (hinside : cursor < r'.size) : step cursor r' = .item cursor r' := by
  have hshape : r'.shape? = r.shape? := by rw [Request.shape?, Request.shape?, hpdu]
  unfold step at hstep ⊢
  rw [hshape]
  cases hshaped : r.shape? with
  | none => simp [hshaped] at hstep
  | some shape =>
    simp only [hshaped] at hstep ⊢
    have hsingle : start r = shape.single := by simp [start, hshaped]
    have hrow (hstarts : isRowStart shape cursor = true) :
        ((rowBefore shape cursor r').all fun i => i.value.isEndOfView) =
          (rowBefore shape cursor r).all fun i => i.value.isEndOfView := by
      have hle := le_of_isRowStart hstarts
      rw [rowBefore_map (f := f) (by omega) fun j hj hlt => hitems j (by omega) hlt, List.all_map]
      simp only [Function.comp_def, hf]
    split at hstep
    · cases hstep
    · next hmore =>
      rw [if_neg hmore, if_neg (by omega)]
      split at hstep
      · cases hstep
      · split at hstep
        · cases hstep
        · next hgoes =>
          have hgoes' : ¬(isRowStart shape cursor = true ∧
              ((rowBefore shape cursor r').all fun i => i.value.isEndOfView) = true) :=
            fun h => hgoes ⟨h.1, hrow h.1 ▸ h.2⟩
          rw [if_neg hgoes', if_neg (Nat.not_le_of_lt hinside)]

/-- A step that leads to an item leads to the one at the cursor, and adds nothing before it. -/
theorem step_item (hstep : step cursor r = .item index r₁) :
    index = cursor ∧ ∃ more, r₁ = { r with items := r.items ++ more } ∧ (more = [] ∨ r.size ≤ cursor) := by
  unfold step at hstep
  split at hstep
  · cases hstep
  · split at hstep
    · cases hstep
    · split at hstep
      · cases hstep
      · split at hstep
        · cases hstep
        · split at hstep
          · next hend =>
            unfold Repetition.append at hstep
            split at hstep
            · split at hstep <;> cases hstep
            · split at hstep
              · cases hstep
              · split at hstep
                · cases hstep
                · cases hstep
                  exact ⟨rfl, _, rfl, Or.inr hend⟩
          · cases hstep
            exact ⟨rfl, [], by simp, Or.inl rfl⟩

theorem dropRow_kept (r : Request) (index : Nat) :
    ∃ items, (dropRow r index).2 = { r with items } ∧ items.take (start r) = r.items.take (start r) := by
  unfold dropRow
  cases hshape : r.shape? with
  | none => exact ⟨r.items, rfl, rfl⟩
  | some shape =>
    have hsingle : start r = shape.single := by simp [start, hshape]
    dsimp only
    split
    · exact ⟨r.items, rfl, rfl⟩
    · refine ⟨_, rfl, ?_⟩
      rw [List.take_take, hsingle, Nat.min_eq_left (Nat.le_add_right _ _)]

/-- Where the repetition is over, what is asked for once is still there. -/
theorem kept_of_over (hstart : start r ≤ cursor) (hstep : step cursor r = .over r₁) :
    ∃ items, r₁ = { r with items } ∧ items.take (start r) = r.items.take (start r) := by
  unfold step at hstep
  split at hstep
  · cases hstep
    exact ⟨r.items, rfl, rfl⟩
  · split at hstep
    · cases hstep
      exact ⟨r.items, rfl, rfl⟩
    · split at hstep
      · cases hstep
      · split at hstep
        · cases hstep
          exact ⟨_, rfl, by rw [List.take_take, Nat.min_eq_left hstart]⟩
        · split at hstep
          · unfold Repetition.append at hstep
            split at hstep
            · split at hstep
              · cases hstep
                exact dropRow_kept r cursor
              · cases hstep
                exact ⟨r.items, rfl, rfl⟩
            · split at hstep
              · cases hstep
              · split at hstep <;> cases hstep
          · cases hstep

theorem Walked.congr (h : Walked cursor r) (hf : ∀ x, (f x).value = x.value ∧ (f x).complete = x.complete)
    (hpdu : r'.pdu = r.pdu) (hitems : ∀ j, Repetition.start r ≤ j → j < cursor → r'.items[j]? = (r.items[j]?).map f) :
    Walked cursor r' := by
  have hfirst := start_congr hpdu
  refine ⟨hfirst ▸ h.start, fun i hi hlt => ?_⟩
  rw [hfirst] at hi
  obtain ⟨hstep, x, hx, hcomplete⟩ := h.passed i hi hlt
  have hx' : r'.items[i]? = some (f x) := by rw [hitems i hi hlt, hx, Option.map_some]
  refine ⟨?_, f x, hx', (hf x).2.trans hcomplete⟩
  exact step_congr (fun x => (hf x).1) hpdu (fun j hj hjlt => hitems j hj (by omega)) hstep
    (List.getElem?_eq_some_iff.mp hx').1

theorem getElem?_retry (r : Request) (i : Nat) :
    r.retry.items[i]? = (r.items[i]?).map fun x => { x with deferred := false } := List.getElem?_map ..

/-- Taken up again, a request is gone over as before. -/
theorem Walked.retry (h : Walked cursor r) : Walked cursor r.retry :=
  h.congr (f := fun x => { x with deferred := false }) (fun _ => ⟨rfl, rfl⟩) rfl fun j _ _ => getElem?_retry r j

theorem step_retry (hstep : step cursor r = .item cursor r) (hx : r.items[cursor]? = some x) :
    step cursor r.retry = .item cursor r.retry ∧ r.retry.items[cursor]? = some { x with deferred := false } := by
  have hx' := (getElem?_retry r cursor).trans (congrArg (Option.map _) hx)
  exact ⟨step_congr (r := r) (f := fun x => { x with deferred := false }) (fun _ => rfl) rfl
    (fun j _ _ => getElem?_retry r j) hstep (List.getElem?_eq_some_iff.mp hx').1, hx'⟩

/-- The cursor goes past a complete item. -/
theorem Walked.next (h : Walked cursor r) (hstep : step cursor r = .item cursor r) (hx : r.items[cursor]? = some x)
    (hcomplete : x.complete = true) : Walked (cursor + 1) r := by
  refine ⟨Nat.le_succ_of_le h.start, fun i hi hlt => ?_⟩
  rcases Nat.lt_succ_iff_lt_or_eq.mp hlt with hlt | rfl
  · exact h.passed i hi hlt
  · exact ⟨hstep, x, hx, hcomplete⟩

/-- A step to an item leaves what the cursor has gone over as it was, and so does serving that item. -/
theorem Walked.at_item (h : Walked cursor r) (hstep : step cursor r = .item index r₁) (hx : r₁.items[index]? = some x)
    (y : Item) : Walked cursor (r₁.setItem index y) ∧
      step cursor (r₁.setItem index y) = .item cursor (r₁.setItem index y) ∧
      (r₁.setItem index y).items[cursor]? = some y ∧ (r₁.setItem index y).pdu = r.pdu ∧
      (r₁.setItem index y).requester = r.requester := by
  obtain ⟨rfl, more, rfl, hmore⟩ := step_item hstep
  have hinside : index < (r.items ++ more).length := (List.getElem?_eq_some_iff.mp hx).1
  have hsame (j : Nat) (hj : Repetition.start r ≤ j) (hlt : j < index) :
      ((r.items ++ more).set index y)[j]? = (r.items[j]?).map id := by
    obtain ⟨-, z, hz, -⟩ := h.passed j hj hlt
    rw [List.getElem?_set_ne (by omega), List.getElem?_append_left (List.getElem?_eq_some_iff.mp hz).1, Option.map_id,
      id_eq]
  have hsize : index < ((r.items ++ more).set index y).length := by rwa [List.length_set]
  refine ⟨h.congr (f := id) (fun _ => ⟨rfl, rfl⟩) rfl hsame,
    step_congr (r := r) (f := id) (fun _ => rfl) rfl hsame hstep hsize, ?_, rfl, rfl⟩
  exact List.getElem?_set_self hinside

/-- Behind an item that was left complete, the cursor has gone over that item, too. -/
theorem Walked.behind (h : Walked cursor r) (hstep : step cursor r = .item index r₁) (hx : r₁.items[index]? = some x)
    (hsize : Repetition.start r ≤ r.size) {y : Item} (hcomplete : y.complete = true) :
    Walked (cursor + 1) (r₁.setItem index y) ∧
      Repetition.start (r₁.setItem index y) ≤ (r₁.setItem index y).size := by
  obtain ⟨hwalked, hstep', hy, hpdu, -⟩ := h.at_item hstep hx y
  obtain ⟨-, more, hmore, -⟩ := step_item hstep
  refine ⟨hwalked.next hstep' hy hcomplete, ?_⟩
  rw [start_congr hpdu, size_setItem, hmore, Request.size, List.length_append]
  exact Nat.le_add_right_of_le hsize

end Bulk

/-! ### The repetition -/

namespace Solo

variable {Obj : Type} [ManagedObject Obj] {S : Solo} {s t u : State Obj} {r r' r₁ : Request} {cursor limit : Nat}
  {x y : Item} {st : Step} {out : Request × Option Error}

/-- What comes of the repetition. Where an object has put off a call, the cursor stands at the item that owes it. -/
structure Repeated (S : Solo) (limit : Nat) (r : Request) (s : State Obj) (out : Request × Option Error)
    (t : State Obj) : Prop where
  holds : S.Holds t
  same : ∃ items bulkDone, out.1 = { r with items, bulkDone } ∧ items.take (start r) = r.items.take (start r)
  fault : out.2.isSome = true → S.policy.forwardFaults = true
  steps : ∃ steps, t.journal = s.journal ++ steps ∧ ∀ st ∈ steps, st.PutOff → out.2 = none →
    ∃ i x, i < limit ∧ Bulk.Walked i out.1 ∧ step i out.1 = .item i out.1 ∧ out.1.items[i]? = some x ∧
      S.Owes .next st x

theorem Repeated.grows (h : S.Repeated limit r s out t) : s.journal <+: t.journal := by
  obtain ⟨steps, hsteps, -⟩ := h.steps
  exact hsteps ▸ List.prefix_append _ _

/-- The repetition ends without another call. -/
theorem Repeated.ended (hs : S.Holds s) {items : List Item} (hitems : items.take (start r) = r.items.take (start r))
    (bulkDone : Bool) : S.Repeated limit r s ({ r with items, bulkDone }, none) s :=
  ⟨hs, ⟨items, bulkDone, rfl, hitems⟩, by simp, [], by simp, by simp⟩

/-- The repetition goes on behind an item that was left complete. -/
theorem Repeated.behind (h : S.Repeated limit r' t out u) (hgrows : ∃ steps, t.journal = s.journal ++ steps ∧
    ∀ st ∈ steps, ¬st.PutOff) (hsame : ∃ items, r' = { r with items } ∧ items.take (start r) = r.items.take (start r)) :
    S.Repeated limit r s out u := by
  obtain ⟨items, rfl, hitems⟩ := hsame
  obtain ⟨items', bulkDone, hout, hitems'⟩ := h.same
  obtain ⟨steps, hsteps, hnone⟩ := hgrows
  obtain ⟨more, hmore, howes⟩ := h.steps
  refine ⟨h.holds, ⟨items', bulkDone, hout, hitems'.trans hitems⟩, h.fault, steps ++ more,
    by rw [hmore, hsteps, List.append_assoc], fun st hst hoff => ?_⟩
  rcases List.mem_append.mp hst with hst | hst
  · exact absurd hoff (hnone st hst)
  · exact howes st hst hoff

omit [ManagedObject Obj] in
/-- A step to an item, and serving it, changes nothing that is asked for once. -/
theorem same_of_step (hstart : start r ≤ cursor) (hsize : start r ≤ r.size) {index : Nat}
    (hstep : step cursor r = .item index r₁) (y : Item) :
    ∃ items, r₁.setItem index y = { r with items } ∧ items.take (start r) = r.items.take (start r) := by
  obtain ⟨rfl, more, rfl, -⟩ := Bulk.step_item hstep
  refine ⟨_, rfl, ?_⟩
  rw [List.take_set_of_le hstart, List.take_append_of_le_length hsize]

section Repetition
variable (hversion : S.who.version ≠ .v1) (hkind : S.who.kind.isSearch = true) (hkeeps : KeepsFinds Obj)
include hversion hkind hkeeps

theorem repeatFrom_owes : ∀ (steps cursor : Nat) (r : Request) (s : State Obj), S.Holds s → r.requester = S.who →
    Bulk.Walked cursor r → start r ≤ r.size →
      (Bulk.repeatFrom S.policy S.registry steps cursor r).Gives s (S.Repeated (cursor + steps) r s)
  | 0, cursor, r, s, hs, _, _, _ => .ended hs rfl true
  | steps + 1, cursor, r, s, hs, hwho, hwalked, hsize => by
    rw [Bulk.repeatFrom]
    cases hstep : step cursor r with
    | «over» r₁ =>
      obtain ⟨items, rfl, hitems⟩ := Bulk.kept_of_over hwalked.start hstep
      exact .ended hs hitems true
    | adrift => exact .ended hs rfl true
    | item index r₁ =>
      obtain ⟨rfl, more, hmore, -⟩ := Bulk.step_item hstep
      dsimp only
      cases hx : r₁.items[index]? with
      | none =>
        subst hmore
        exact .ended hs (List.take_append_of_le_length hsize) true
      | some x =>
        have hset := hwalked.at_item hstep hx
        have hsame := same_of_step hwalked.start hsize hstep
        have hnext (y : Item) (hcomplete : y.complete = true) (t : State Obj) (ht : S.Holds t) :
            (Bulk.repeatFrom S.policy S.registry steps (index + 1) (r₁.setItem index y)).Gives t
              (S.Repeated (index + (steps + 1)) (r₁.setItem index y) t) := by
          obtain ⟨-, -, -, -, hrequester⟩ := hset y
          obtain ⟨hbehind, hsize'⟩ := hwalked.behind hstep hx hsize hcomplete
          have ih := repeatFrom_owes steps (index + 1) (r₁.setItem index y) t ht (hrequester.trans hwho) hbehind hsize'
          rwa [Nat.add_assoc, Nat.add_comm 1 steps] at ih
        dsimp only
        split
        · next hcomplete =>
          have hself : r₁.setItem index x = r₁ := by
            obtain ⟨hlt, hget⟩ := List.getElem?_eq_some_iff.mp hx
            rw [Request.setItem, ← hget, List.set_getElem_self]
          have hon := hnext x hcomplete s hs
          have hkept := hsame x
          rw [hself] at hon hkept
          exact hon.mono (fun _ => id) fun out t ht => ht.behind ⟨[], by simp, by simp⟩ hkept
        · rw [show r₁.requester = S.who by rw [hmore]; exact hwho, Activity.gives_bind]
          refine (next_serves hversion hs hkind hkeeps _).mono (fun _ => id) ?_
          rintro ⟨y, _ | error⟩ t ht
          · dsimp only
            split
            · next hopen =>
              obtain ⟨hwalked', hstep', hy, -, -⟩ := hset y
              obtain ⟨steps', hsteps', howes⟩ := ht.steps
              obtain ⟨items, hitems, htake⟩ := hsame y
              refine ⟨ht.holds, ⟨items, r.bulkDone, hitems, htake⟩, by simp, steps', hsteps', fun st hst hoff _ => ?_⟩
              exact ⟨index, y, by omega, hwalked', hstep', hy, howes st hst hoff⟩
            · next hclosed =>
              have hcomplete : y.complete = true := by simpa using hclosed
              have hcalm : ∃ steps', t.journal = s.journal ++ steps' ∧ ∀ st ∈ steps', ¬st.PutOff := by
                obtain ⟨steps', hsteps', howes⟩ := ht.steps
                refine ⟨steps', hsteps', fun st hst hoff => ?_⟩
                cases hcomplete.symm.trans (howes st hst hoff).unfinished
              split
              · refine Repeated.behind (t := t) ?_ hcalm (hsame y)
                obtain ⟨items, hitems, htake⟩ := Bulk.dropRow_kept (r₁.setItem index y) index
                rw [hitems]
                exact .ended ht.holds htake true
              · exact (hnext y hcomplete t ht.holds).mono (fun _ => id) fun out u hu => hu.behind hcalm (hsame y)
          · obtain ⟨items, hitems, htake⟩ := hsame y
            obtain ⟨steps', hsteps', -⟩ := ht.steps
            exact ⟨ht.holds, ⟨items, r.bulkDone, hitems, htake⟩, ht.fault, steps', hsteps', by simp⟩

/-- The cursor comes to the item that owes a call, which is made again. -/
theorem repeatFrom_recalls {i : Nat} : ∀ (steps cursor : Nat) (r : Request)
    (s : State Obj), S.Holds s → r.requester = S.who → Bulk.Walked i r → start r ≤ r.size → start r ≤ cursor →
      cursor ≤ i → i < cursor + steps → step i r = .item i r → r.items[i]? = some x → S.Owes .next st x →
        (Bulk.repeatFrom S.policy S.registry steps cursor r).Gives s fun _ t => st.Recalled s t
  | 0, cursor, r, s, _, _, _, _, _, hle, hlt, _, _, _ => absurd hlt (by omega)
  | steps + 1, cursor, r, s, hs, hwho, hwalked, hsize, hstart, hle, hlt, hstep, hx, howes => by
    rw [Bulk.repeatFrom]
    rcases Nat.lt_or_eq_of_le hle with hbefore | rfl
    · obtain ⟨hstep', z, hz, hcomplete⟩ := hwalked.passed cursor hstart hbefore
      simp only [hstep', hz, hcomplete, if_true]
      exact repeatFrom_recalls steps (cursor + 1) r s hs hwho hwalked hsize (by omega) hbefore (by omega)
        hstep hx howes
    · simp only [hstep, hx, howes.unfinished, Bool.false_eq_true, if_false, hwho]
      rw [Activity.gives_bind]
      refine ((search_serves hversion hs hkind hkeeps).and
        (search_recalls hversion hs hkind hkeeps howes)).mono (fun _ => id) ?_
      rintro ⟨y, _ | error⟩ t ⟨ht, hrecalled⟩
      · dsimp only
        split
        · exact hrecalled
        · next hclosed =>
          split
          · exact hrecalled
          · obtain ⟨-, -, -, -, hrequester⟩ := hwalked.at_item hstep hx y
            have hcomplete : y.complete = true := by simpa using hclosed
            obtain ⟨hbehind, hsize'⟩ := hwalked.behind hstep hx hsize hcomplete
            exact (repeatFrom_owes hversion hkind hkeeps steps (cursor + 1) _ t ht.holds (hrequester.trans hwho) hbehind
              hsize').mono (fun _ => id) fun out u hu => hrecalled.later hu.grows
      · exact hrecalled

end Repetition

/-! ### Requests -/

/-- What follows when the variables that are asked for once have been served. -/
def carryOn (S : Solo) (r : Request) (once : List Item × Option Error) : Doing Obj (Request × Option Error) :=
  let r' := { r with items := once.1 ++ r.items.drop (start r) }
  match once.2 with
  | some error => return (r', some error)
  | none => Bulk.repeatFrom S.policy S.registry (Bulk.capacity r' + 1 - start r) (start r) r'

theorem bulk_run_eq (hr : S.Ready r) : (Bulk.run S.policy S.registry r : Doing Obj _) =
    serveOpen (Next.search S.policy S.registry S.who) (r.begin.items.take (start r.begin)) >>=
      carryOn S r.begin := by
  rw [← hr.requester, ← (begin_kept r).1]
  rfl

section Requests
variable (hversion : S.who.version ≠ .v1) (hkind : S.who.kind = .getBulk) (hkeeps : KeepsFinds Obj)
include hversion hkind hkeeps

omit [ManagedObject Obj] hversion hkind hkeeps in
theorem walked_start (r : Request) : Bulk.Walked (start r) r :=
  ⟨le_rfl, fun i hi hlt => absurd hlt (by omega)⟩

/-- What is asked for once is served. -/
theorem once_serves {items : List Item} (hs : S.Holds s) :
    (serveOpen (Next.search S.policy S.registry S.who) items).Gives s (S.ServesAll .next items s) := by
  have hsearch : S.who.kind.isSearch = true := by rw [hkind]; rfl
  exact serveOpen_serves (fun _ _ hs _ _ => search_serves hversion hs hsearch hkeeps) items s hs
    fun _ _ => Or.inr hsearch

section Once
variable {items items' : List Item} {n : Nat} (hlength : items'.length = (items.take n).length) (hn : n ≤ items.length)

omit [ManagedObject Obj] hversion hkind hkeeps in
include hlength hn in
theorem length_once : items'.length = n := by rw [hlength, List.length_take, Nat.min_eq_left hn]

omit [ManagedObject Obj] hversion hkind hkeeps in
include hlength hn in
theorem take_once : (items' ++ items.drop n).take n = items' := List.take_left' (length_once hlength hn)

omit [ManagedObject Obj] hversion hkind hkeeps in
include hlength hn in
theorem le_length_once : n ≤ (items' ++ items.drop n).length := by
  rw [List.length_append, length_once hlength hn]
  exact Nat.le_add_right _ _

end Once

section Again
variable (hr : S.Ready r) (hphase : r.phase ≠ .start) (howes : S.Owes .next st x)
include hr hphase howes

/-- A call that is owed for a variable that is asked for once is made again first of all. -/
theorem once_recalls (hx : x ∈ r.items.take (start r)) (hs : S.Holds s) :
    (Bulk.run S.policy S.registry r).Gives s fun out t => out.2 = none → st.Recalled s t := by
  have hsearch : S.who.kind.isSearch = true := by rw [hkind]; rfl
  have hserve (x : Item) (s : State Obj) (hs : S.Holds s) (_ : S.Suits x) (_ : x.complete = false) :=
    search_serves (x := x) hversion hs hsearch hkeeps
  have hrecalls (s : State Obj) (hs : S.Holds s) := search_recalls hversion hs hsearch hkeeps howes
  rw [bulk_run_eq hr, begin_of_phase hphase, Activity.gives_bind]
  refine ((once_serves hversion hkind hkeeps hs).and (serveOpen_recalls hserve howes.unfinished hrecalls _ s hx hs
    fun _ _ => Or.inr hsearch)).mono (fun _ => id) ?_
  rintro ⟨items, _ | error⟩ t ⟨ht, hrecalled⟩
  · let r₂ : Request := { r with items := items ++ r.items.drop (start r) }
    have hgrows := repeatFrom_owes hversion hsearch hkeeps (Bulk.capacity r₂ + 1 - start r) (start r) r₂ t ht.holds
      hr.requester (walked_start r₂) (le_length_once ht.length hr.sized)
    exact hgrows.mono (fun _ => id) fun out u hu _ => (hrecalled rfl).later hu.grows
  · exact fun hnone => (Option.some_ne_none error hnone).elim

/-- A call that is owed for a repeated item is made again when the cursor comes to it. -/
theorem row_recalls {i : Nat} (hwalked : Bulk.Walked i r) (hstep : step i r = .item i r) (hx : r.items[i]? = some x)
    (hlimit : i < start r + (Bulk.capacity r + 1 - start r)) (hs : S.Holds s) :
    (Bulk.run S.policy S.registry r).Gives s fun out t => out.2 = none → st.Recalled s t := by
  have hsearch : S.who.kind.isSearch = true := by rw [hkind]; rfl
  rw [bulk_run_eq hr, begin_of_phase hphase, Activity.gives_bind]
  refine (once_serves hversion hkind hkeeps hs).mono (fun _ => id) ?_
  rintro ⟨items, _ | error⟩ t ht
  · have hlength : items.length = start r := length_once ht.length hr.sized
    -- What is asked for once is served anew, and the rows are as they were.
    let r₂ : Request := { r with items := items ++ r.items.drop (start r) }
    have hsame (j : Nat) (hj : start r ≤ j) : r₂.items[j]? = (r.items[j]?).map id := by
      rw [Option.map_id, id_eq, List.getElem?_append_right (hlength ▸ hj), List.getElem?_drop, hlength,
        Nat.add_sub_cancel' hj]
    have hx₂ : r₂.items[i]? = some x := by rw [hsame i hwalked.start, hx, Option.map_id, id_eq]
    have hwalked₂ : Bulk.Walked i r₂ := hwalked.congr (f := id) (fun _ => ⟨rfl, rfl⟩) rfl fun j hj _ => hsame j hj
    have hstep₂ : step i r₂ = .item i r₂ := Bulk.step_congr (r := r) (f := id) (fun _ => rfl) rfl
      (fun j hj _ => hsame j hj) hstep (List.getElem?_eq_some_iff.mp hx₂).1
    have hrecalls := repeatFrom_recalls hversion hsearch hkeeps (Bulk.capacity r₂ + 1 - start r) (start r) r₂
      t ht.holds hr.requester hwalked₂ (le_length_once ht.length hr.sized) le_rfl hwalked.start hlimit hstep₂ hx₂ howes
    exact hrecalls.mono (fun _ => id) fun out u hrecalled _ => hrecalled.earlier ht.grows
  · exact fun hnone => (Option.some_ne_none _ hnone).elim

end Again

theorem bulk_leaves (hs : S.Holds s) (hr : S.Ready r) :
    (Bulk.run S.policy S.registry r).Gives s (S.Leaves (Bulk.run S.policy S.registry) s) := by
  have hsearch : S.who.kind.isSearch = true := by rw [hkind]; rfl
  have hset : S.who.kind ≠ .set := by simp [hkind]
  obtain ⟨hrequester, hpdu, hkept⟩ := begin_kept r
  have hstatus : r.begin.status.isError = false := (congrArg Status.isError hkept).trans hr.status
  have hwho := hrequester.trans hr.requester
  have hfirst := Bulk.start_congr hpdu
  have hsized : start r ≤ r.begin.items.length := (length_begin r).symm ▸ hr.sized
  rw [bulk_run_eq hr, hfirst, Activity.gives_bind]
  refine (once_serves hversion hkind hkeeps hs).mono (fun _ => id) ?_
  rintro ⟨items, _ | error⟩ t ht
  · let r₁ : Request := { r.begin with items := items ++ r.begin.items.drop (start r) }
    have hfirst₁ : start r₁ = start r := Bulk.start_congr hpdu
    have hsize₁ : start r₁ ≤ r₁.size := hfirst₁ ▸ le_length_once ht.length hsized
    have hrepeats := repeatFrom_owes hversion hsearch hkeeps (Bulk.capacity r₁ + 1 - start r) (start r) r₁ t ht.holds
      hwho (hfirst₁ ▸ walked_start r₁) hsize₁
    simp only [carryOn, hfirst]
    refine hrepeats.mono (fun _ => id) ?_
    rintro ⟨r', error⟩ u hu
    obtain ⟨items', bulkDone, rfl, htake⟩ := hu.same
    -- What is asked for once has been served, and is kept.
    have hkept : items'.take (start r) = items := by
      rw [← hfirst₁, htake, hfirst₁]
      exact take_once ht.length hsized
    have hready : S.Ready { r.begin with items := items', bulkDone }.retry := by
      refine hr.read hset bulkDone (fun x _ => Or.inr hsearch) ?_
      have hle := congrArg List.length hkept
      rw [List.length_take, length_once ht.length hsized] at hle
      omega
    have hphase : ({ r.begin with items := items', bulkDone } : Request).retry.phase ≠ .start := phase_begin r
    have hfirst' : start ({ r.begin with items := items', bulkDone } : Request).retry = start r := Bulk.start_congr hpdu
    obtain ⟨steps, hsteps, howes⟩ := ht.steps
    obtain ⟨more, hmore, hrows⟩ := hu.steps
    refine ⟨hu.holds, hready, hu.fault, steps ++ more, by rw [hmore, hsteps, List.append_assoc],
      fun st hst hoff _ hnone => ?_⟩
    rcases List.mem_append.mp hst with hst | hst
    · obtain ⟨x, hx, howes⟩ := howes st hst hoff rfl
      rw [← hkept] at hx
      refine ⟨isComplete_of_open hstatus (List.mem_of_mem_take hx) howes.unfinished, fun s' hs' => ?_⟩
      refine once_recalls hversion hkind hkeeps hready hphase howes.retry ?_ hs'
      rw [hfirst', Request.retry, ← List.map_take]
      exact List.mem_map_of_mem (f := fun i : Item => { i with deferred := false }) hx
    · obtain ⟨i, x, hlimit, hwalked, hstep, hx, howes⟩ := hrows st hst hoff hnone
      refine ⟨isComplete_of_open hstatus (List.mem_of_getElem? hx) howes.unfinished, fun s' hs' => ?_⟩
      obtain ⟨hstep', hx'⟩ := Bulk.step_retry hstep hx
      refine row_recalls hversion hkind hkeeps hready hphase howes.retry hwalked.retry hstep' hx' ?_ hs'
      rw [hfirst']
      exact hlimit
  · simp only [carryOn, hfirst]
    obtain ⟨steps, hsteps, -⟩ := ht.steps
    exact ⟨ht.holds, hr.read hset r.begin.bulkDone (fun x _ => Or.inr hsearch) (le_length_once ht.length hsized),
      ht.fault, steps, hsteps, by simp⟩

end Requests
end Solo
end Responder
