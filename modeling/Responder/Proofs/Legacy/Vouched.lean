import Responder.Proofs.Reading
import Responder.Proofs.Set.Blame

/-! What an item holds that the first version of the protocol has no place for. A status without a meaning comes from
    an object that reported it, and a counter of 64 bits from an object that raised a fault after it had left the
    counter with the item, or that was written (`Vouched`). Whatever the services do for a requester of the first
    version keeps this of every item. -/

namespace Responder

/-- The object reported the status: it left it with the item, or hinted at it with a fault. -/
def Step.Reports (st : Step) (status : Status) : Prop :=
  st.after.status = status ∨ ∃ fault, st.result = .error fault ∧ fault.hint = some status

/-- The history vouches for an item of a request of some kind. -/
structure Item.Vouched (kind : Pdu.Kind) (h : List Step) (x : Item) : Prop where
  status : ∀ code, x.status = .unknown code → ∃ st ∈ h, st.Reports (.unknown code)
  counter : x.value.isCounter64 = true → ∃ st ∈ h, st.after.value = x.value ∧ (kind = .set ∨ st.faulted = true)

namespace Item.Vouched

variable {kind : Pdu.Kind} {h h' : List Step} {x y : Item} {st : Step}

theorem mono (hx : x.Vouched kind h) (hsub : h ⊆ h') : x.Vouched kind h' where
  status code hcode := by
    obtain ⟨st, hst, hreports⟩ := hx.status code hcode
    exact ⟨st, hsub hst, hreports⟩
  counter hcounter := by
    obtain ⟨st, hst, hleft⟩ := hx.counter hcounter
    exact ⟨st, hsub hst, hleft⟩

theorem of_same (hx : x.Vouched kind h) (hstatus : y.status = x.status) (hvalue : y.value = x.value) :
    y.Vouched kind h where
  status := hstatus ▸ hx.status
  counter := hvalue ▸ hx.counter

theorem finish (hx : x.Vouched kind h) : x.finish.Vouched kind h := hx.of_same rfl rfl

theorem setValue (hx : x.Vouched kind h) {value : Value} (hvalue : value.isCounter64 = false) :
    (x.setValue value).Vouched kind h where
  status := hx.status
  counter hcounter := nomatch hvalue.symm.trans hcounter

theorem setError (hx : x.Vouched kind h) {status : Status} (hknown : ∀ code, status ≠ .unknown code) :
    (x.setError status).Vouched kind h := by
  rw [setError_eq]
  refine ⟨fun code hcode => ?_, hx.counter⟩
  dsimp only at hcode
  split at hcode
  · exact hx.status code hcode
  · exact absurd hcode (hknown code)

/-- What an object has left of an item. -/
theorem of_called (hst : st ∈ h) (hcounter : st.after.value.isCounter64 = true → kind = .set ∨ st.faulted = true) :
    st.after.Vouched kind h where
  status _ hcode := ⟨st, hst, Or.inl hcode⟩
  counter hvalue := ⟨st, hst, rfl, hcounter hvalue⟩

/-- An item whose object has raised a fault. -/
theorem of_fault (hst : st ∈ h) {fault : Fault} (hfault : st.result = .error fault) (p : Policy) {status : Status}
    (hknown : ∀ code, status ≠ .unknown code) : (p.report st.after status fault).1.Vouched kind h := by
  have hfaulted : st.faulted = true := by simp [Step.faulted, hfault]
  have hafter : st.after.Vouched kind h := of_called hst fun _ => Or.inr hfaulted
  refine finish ?_
  by_cases hhint : ∃ hint, fault.hint = some hint ∧ hint.isError = true
  · obtain ⟨hint, hhint, herror⟩ := hhint
    have hstatus : fault.statusOr status = hint := by simp [Fault.statusOr, hhint, herror]
    rw [hstatus, setError_eq]
    refine ⟨fun code hcode => ?_, hafter.counter⟩
    dsimp only at hcode
    split at hcode
    · exact hafter.status code hcode
    · exact ⟨st, hst, Or.inr ⟨fault, hfault, hcode ▸ hhint⟩⟩
  · have hstatus : fault.statusOr status = status := by
      unfold Fault.statusOr
      split
      · next hint hsome => exact if_neg fun herror => hhint ⟨hint, hsome, herror⟩
      · rfl
    rw [hstatus]
    exact hafter.setError hknown

end Item.Vouched

open Item (Vouched)

variable {Obj : Type} [ManagedObject Obj] {who : Requester} {kind : Pdu.Kind}

/-! ### Reading -/

/-- The items, as the history in a state vouches for them. -/
abbrev Trusts (kind : Pdu.Kind) (tx : TransactionId) : List Item → State Obj → Prop :=
  Fit (fun _ => True) fun x s => x.Vouched kind (s.history tx)

section Reading
variable {tx : TransactionId} {x : Item} {xs : List Item} {s t : State Obj}

omit [ManagedObject Obj] in
theorem Trusts.congr (h : Trusts kind tx xs s) (hsame : t.history tx = s.history tx) : Trusts kind tx xs t :=
  ⟨trivial, fun y hy => hsame.symm ▸ h.items y hy⟩

omit [ManagedObject Obj] in
theorem Trusts.replace (h : Trusts kind tx (x :: xs) s) {y : Item} (hy : y.Vouched kind (s.history tx)) :
    Trusts kind tx (y :: xs) s := h.tail.cons hy

omit [ManagedObject Obj] in
theorem steady_trusts {number : Nat} : Steady (Aside tx) number fun s : State Obj => Trusts kind tx xs s where
  locks hlocks h := h.congr (State.history_eq_of_bare tx hlocks.bare)
  others haside h := h.congr haside

/-- A look-up, and what the items are after it. -/
theorem Trusts.lookUp (h : Trusts kind who.transaction xs s) (p : Policy) (registry : Nat) (query : Query) :
    (p.lookUp registry who query).Ensures (Aside who.transaction) (fun _ => True) s
      fun _ t => Trusts kind who.transaction xs t := by
  have hlook := Lookup.run_ensures (E := fun _ => True) (l := ⟨registry, query, some (p.terms who)⟩) steady_trusts
    (fun _ _ _ _ _ => trivial) p.patience h
  exact hlook.mono (fun _ _ => trivial) fun _ _ ht => ht.1

/-- The call of an object leaves the other items as they are, and its step in the history. -/
theorem Trusts.call (h : Trusts kind who.transaction (x :: xs) s) (callback : Callback) (object : ObjectId) :
    ∃ st ∈ (s.call callback who object x).2.history who.transaction, st.after = (s.call callback who object x).1.1 ∧
      st.result = (s.call callback who object x).1.2 ∧
      ∀ y, y.Vouched kind ((s.call callback who object x).2.history who.transaction) →
        Trusts kind who.transaction (y :: xs) (s.call callback who object x).2 := by
  have hhistory := s.history_call callback who object x
  refine ⟨_, hhistory ▸ List.mem_append_right _ (List.mem_singleton_self _), rfl, rfl, fun y hy => ⟨trivial, ?_⟩⟩
  refine List.forall_mem_cons.mpr ⟨hy, fun z hz => ?_⟩
  rw [hhistory]
  exact (h.tail.items z hz).mono (List.subset_append_left _ _)

omit [ManagedObject Obj] in
theorem Item.Vouched.conclude (hversion : who.version = .v1) {st : Step} {h : List Step} (hst : st ∈ h) :
    (Get.conclude who st.after).Vouched kind h := by
  have hclose {y : Item} (hy : y.Vouched kind h) : (if y.deferred = true then y else y.finish).Vouched kind h := by
    split
    · exact hy
    · exact hy.finish
  refine hclose ?_
  split
  · exact ⟨fun _ hcode => ⟨st, hst, Or.inl hcode⟩, nofun⟩
  · next hcounter => exact of_called hst fun h => absurd ⟨hversion, h⟩ hcounter

/-- Reading a variable for a requester of the first version. -/
theorem Get.serve_tends (hversion : who.version = .v1) (p : Policy) (registry : Nat) :
    Tends (Aside who.transaction : State Obj → State Obj → Prop) (fun _ => True)
      (fun x s => x.Vouched kind (s.history who.transaction)) (Get.serve p registry who) := by
  intro x xs s _ hs
  simp only [Get.serve, Activity.ensures_bind]
  refine (Trusts.lookUp hs p registry _).mono (fun _ => id) fun f t ht => ?_
  have hx := ht.items x List.mem_cons_self
  split
  · split
    · exact ht.replace (hx.of_same rfl rfl)
    · exact ht.replace (hx.setValue rfl).finish
  · next e _ =>
    obtain ⟨st, hst, hafter, hresult, htrusts⟩ := Trusts.call ht .get e.object
    simp only [callObject, Activity.ensures_bind, Activity.ensures_modifyGet]
    refine (f.release_ensures registry who e.object _).mono (fun _ => id) fun _ u hu => ?_
    have hsame := State.history_eq_of_bare who.transaction hu.1
    split
    · exact (htrusts _ (hafter ▸ .conclude hversion hst)).congr hsame
    · next fault hfault =>
      refine (htrusts _ ?_).congr hsame
      rw [← hafter]
      exact Vouched.of_fault hst (hresult.trans hfault) p (by simp)

/-- Searching for the variable that follows, for a requester of the first version. -/
theorem Next.serve_trusts (hversion : who.version = .v1) (p : Policy) (registry : Nat) :
    ∀ (patience : Nat) (x : Item) (xs : List Item) (s : State Obj), Trusts kind who.transaction (x :: xs) s →
      (Next.serve p registry who patience x).Ensures (Aside who.transaction) (fun _ => True) s
        fun out t => Trusts kind who.transaction (out.1 :: xs) t
  | 0, _, _, _, hs => hs
  | patience + 1, x, xs, s, hs => by
    simp only [Next.serve, Activity.ensures_bind]
    refine (Trusts.lookUp hs p registry _).mono (fun _ => id) fun f t ht => ?_
    have hx := ht.items x List.mem_cons_self
    split
    · simp only [Activity.ensures_pure]
      split
      · exact ht.replace (hx.of_same rfl rfl)
      · exact ht.replace (hx.setValue rfl).finish
    · next e _ =>
      obtain ⟨st, hst, hafter, hresult, htrusts⟩ := Trusts.call ht .next e.object
      simp only [callObject, Activity.ensures_bind, Activity.ensures_modifyGet]
      refine (f.release_ensures registry who e.object _).mono (fun _ => id) fun _ u hu => ?_
      have hsame := State.history_eq_of_bare who.transaction hu.1
      -- Whatever is left of the item without its value goes on.
      have hblank {y : Item} (hstatus : y.status = (t.call .next who e.object x).1.1.status)
          (hnone : y.value.isCounter64 = false) : Trusts kind who.transaction (y :: xs) u := by
        refine (htrusts y ⟨fun code hcode => ⟨st, hst, Or.inl ?_⟩, fun hcounter => ?_⟩).congr hsame
        · rw [hafter, ← hstatus]
          exact hcode
        · cases hnone.symm.trans hcounter
      split
      · next fault hfault =>
        refine (htrusts _ ?_).congr hsame
        rw [← hafter]
        exact Vouched.of_fault hst (hresult.trans hfault) p (by simp)
      · split
        · exact Next.serve_trusts hversion p registry patience _ xs u (hblank rfl rfl)
        · next hcounter =>
          have hnone : (t.call .next who e.object x).1.1.value.isCounter64 = false :=
            Bool.eq_false_iff.mpr fun h => hcounter ⟨hversion, h⟩
          simp only [Activity.ensures_pure]
          split <;> exact hblank rfl hnone
      · split
        · exact hblank rfl rfl
        · exact Next.serve_trusts hversion p registry patience _ xs u (hblank rfl rfl)

end Reading

/-! ### Writing -/

namespace Set

variable {S : Scene Obj} {phase : Phase} {item item' : Item} {later : Option Error} {s t : State Obj}
  {m m' : Moment Obj}

theorem settle_vouched {h : List Step} {st : Step} (hst : st ∈ h) (p : Policy) {status : Status}
    (hknown : ∀ code, status ≠ .unknown code) {close : Item → Item}
    (hclose : ∀ y, (close y).status = y.status ∧ (close y).value = y.value) :
    (settle p status close (st.after, st.result)).1.Vouched .set h := by
  have hafter : st.after.Vouched .set h := .of_called hst fun _ => Or.inl rfl
  unfold settle
  split
  · dsimp only
    split
    · exact hafter
    · exact hafter.of_same (hclose _).1 (hclose _).2
  · next fault hfault => exact .of_fault hst hfault p hknown

/-- Serving an item adds to its history what vouches for it. -/
theorem Served.vouched (hS : Discreet S) (h : Served S phase item s (item', later) t)
    (hitem : item.Vouched .set (s.history S.who.transaction)) :
    item'.Vouched .set (t.history S.who.transaction) ∧
      s.history S.who.transaction ⊆ t.history S.who.transaction := by
  generalize hx : (item', later) = x at h
  have hlook {u : State Obj} {f : Finding} (h : (S.look item).Yields S.rely s f u) :
      u.history S.who.transaction = s.history S.who.transaction :=
    (Activity.ensures_iff.mp (hS.look item s)).2 _ _ h
  have hrefuse {u : State Obj} (hu : u.history S.who.transaction = s.history S.who.transaction) (callback : Callback)
      {status : Status} (hknown : ∀ code, status ≠ .unknown code) :
      (u.refuse callback S.who item status).1.Vouched .set
          ((u.refuse callback S.who item status).2.history S.who.transaction) ∧
        s.history S.who.transaction ⊆ (u.refuse callback S.who item status).2.history S.who.transaction := by
    rw [State.history_refuse, hu]
    exact ⟨((hitem.mono (List.subset_append_left _ _)).setError hknown).finish, List.subset_append_left _ _⟩
  have hcall {u : State Obj} (hu : u.history S.who.transaction = s.history S.who.transaction) (callback : Callback)
      (object : ObjectId) (y : Item) : ∃ st ∈ (u.call callback S.who object y).2.history S.who.transaction,
        (u.call callback S.who object y).1 = (st.after, st.result) ∧
        s.history S.who.transaction ⊆ (u.call callback S.who object y).2.history S.who.transaction := by
    rw [State.history_call, hu]
    exact ⟨_, List.mem_append_right _ (List.mem_singleton_self _), rfl, List.subset_append_left _ _⟩
  cases h with
  | late hyields =>
    cases hx
    rw [hlook hyields]
    exact ⟨hitem.of_same rfl rfl, fun _ => id⟩
  | refused hyields =>
    cases hx
    refine hrefuse (hlook hyields) .prepare ?_
    unfold absence
    split <;> exact nofun
  | prepared hyields =>
    obtain ⟨st, hst, hcalled, hsub⟩ := hcall (hlook hyields) .prepare _ _
    obtain rfl : item' = _ := congrArg Prod.fst hx
    rw [hcalled]
    exact ⟨settle_vouched hst _ (by simp) fun y => by unfold ready; split <;> exact ⟨rfl, rfl⟩, hsub⟩
  | stranded hyields =>
    cases hx
    exact hrefuse (congrArg (fun u => State.history u _) (history_aim hyields).1) .commit nofun
  | committed hyields =>
    obtain ⟨st, hst, hcalled, hsub⟩ :=
      hcall (congrArg (fun u => State.history u _) (history_aim hyields).1) .commit _ item
    obtain rfl : item' = _ := congrArg Prod.fst hx
    rw [hcalled]
    exact ⟨settle_vouched hst _ (by simp) fun y => ⟨rfl, rfl⟩, hsub⟩
  | unprepared | untouched =>
    cases hx
    exact ⟨hitem.finish, fun _ => id⟩
  | kept hprepared hyields =>
    cases hx
    exact hrefuse (congrArg (fun u => State.history u _) (history_aim hyields).1) .undo nofun
  | undone hprepared hyields =>
    obtain ⟨st, hst, hcalled, hsub⟩ :=
      hcall (congrArg (fun u => State.history u _) (history_aim hyields).1) .undo _ item
    obtain rfl : item' = _ := congrArg Prod.fst hx
    rw [hcalled]
    exact ⟨settle_vouched hst _ (by simp) fun y => ⟨rfl, rfl⟩, hsub⟩
  | @cleaned _ _ object htarget =>
    have hunlocked := State.history_eq_of_bare S.who.transaction (s.bare_unlock S.registry S.who.transaction object)
    obtain ⟨st, hst, hcalled, hsub⟩ := hcall hunlocked .cleanup object { item with target := none }
    obtain rfl : item' = _ := congrArg Prod.fst hx
    rw [hcalled]
    exact ⟨(Vouched.of_called hst fun _ => Or.inl rfl).finish, hsub⟩

/-- A turn keeps what vouches for the items. -/
theorem Turn.vouched (hS : Discreet S) (hturn : Turn S m m')
    (h : ∀ x ∈ m.request.items, x.Vouched .set (m.past S)) : ∀ x ∈ m'.request.items, x.Vouched .set (m'.past S) := by
  unfold Moment.past at h ⊢
  cases hturn with
  | @serve r error later s t done rest item item' hpass hopen hclear hserved =>
    have hmem : item ∈ r.items := hpass.items ▸ List.mem_append_right _ List.mem_cons_self
    obtain ⟨hitem', hsub⟩ := hserved.vouched hS (h item hmem)
    refine forall_replace (x := item) (fun y hy => ?_) hitem'
    exact (h y (hpass.items.symm ▸ hy)).mono hsub
  | wait hphase hwait =>
    rw [(Activity.ensures_iff.mp (hS.look _ _)).1 _ hwait]
    exact h
  | giveUp =>
    intro x hx
    obtain ⟨y, hy, rfl⟩ := List.mem_map.mp hx
    split
    · exact h y hy
    · exact (h y hy).finish
  | advance hover hr =>
    obtain ⟨phase, -, rfl⟩ := advance?_eq hr
    intro x hx
    obtain ⟨y, hy, rfl⟩ := List.mem_map.mp hx
    exact (h y hy).of_same rfl rfl
  | retry hr hrely =>
    rw [hS _ _ hrely]
    intro x hx
    obtain ⟨y, hy, rfl⟩ := List.mem_map.mp hx
    exact (h y hy).of_same rfl rfl

theorem Turns.vouched (hS : Discreet S) (hturns : Turns S m m')
    (h : ∀ x ∈ m.request.items, x.Vouched .set (m.past S)) : ∀ x ∈ m'.request.items, x.Vouched .set (m'.past S) := by
  induction hturns with
  | refl => exact h
  | tail _ hturn ih => exact hturn.vouched hS ih

end Set
end Responder
