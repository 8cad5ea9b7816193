import Responder.Proofs.Mediation.Charter

/-! Requests that read call objects by licence only. A variable that is addressed is read only if it may be touched; a
    search calls objects for whatever they have, but only for somebody who is vouched for (`read_ensures`). -/

namespace Responder.Charter

variable {Obj : Type} {C : Charter Obj} {registry : Nat} {m : Inbound} {who : Requester} {s : State Obj}

/-- A call that reads changes no store. -/
theorem licenses_of_reading (hm : C.submitted m) (hvouched : C.agent.Vouches m who) {callback : Callback}
    (hreads : callback = .get ∨ callback = .next) {object : ObjectId} {x : Item}
    (hconceded : callback ≠ .next → C.agent.Concedes m who x) : C.Licenses who callback object x where
  vouched := ⟨m, hm, hvouched, hconceded⟩
  harmless hwrites := by rcases hreads with rfl | rfl <;> simp at hwrites

theorem asked_of_kept {x y : Item} (hx : Asked m.pdu who.context x) (hindex : y.index = x.index)
    (hregion : y.region = x.region) : Asked m.pdu who.context y := by
  rw [Asked, hindex, hregion]
  exact hx

variable [ManagedObject Obj]

/-- An item that addresses a variable is for it, and may be served if its look-up accepts an object. -/
theorem Asked.concedes {x : Item} (hx : Asked m.pdu who.context x) {writes : Bool} {object : Obj}
    (haccepts : (C.agent.policy.query who x.region writes).accepts object = true) :
    C.agent.Concedes m who x ∧ C.agent.policy.allows who x.region.lower = true := by
  obtain ⟨b, hb, hregion⟩ := hx
  have hlower : x.region.lower = b.oid := congrArg (fun r : Region => r.lower) hregion
  have hincluded : x.region.lowerIncluded = true := congrArg (fun r : Region => r.lowerIncluded) hregion
  rw [Query.accepts_point hincluded, Policy.allows_query] at haccepts
  have hallows : C.agent.policy.allows who x.region.lower = true := haccepts
  exact ⟨⟨b, hb, hlower ▸ hallows⟩, hallows⟩

variable [Store.Among Obj]

theorem call_keeps {callback : Callback} {object : ObjectId} {x : Item} (h : C.Licenses who callback object x) :
    Keeps C.Upheld (callObject callback who object x) := fun _ hs => hs.call h

theorem lookUp_keeps (q : Query) : Keeps C.Upheld (C.agent.policy.lookUp registry who q) := fun _ hs =>
  Progress.Ensures.mono (look_ensures hs q _ _) (fun _ => id) fun _ _ => And.left

theorem get_ensures (hm : C.submitted m) (hvouched : C.agent.Vouches m who) {x : Item}
    (hx : Asked m.pdu who.context x) (hs : C.Upheld s) :
    (Get.serve C.agent.policy registry who x).Ensures (fun _ => C.Upheld) C.Upheld s fun out t =>
      C.Upheld t ∧ Asked m.pdu who.context out.1 := by
  have hconclude (y : Item) (hy : Asked m.pdu who.context y) : Asked m.pdu who.context (Get.conclude who y) := by
    unfold Get.conclude
    dsimp only
    split <;> split <;> exact hy
  simp only [Get.serve, Activity.ensures_bind]
  refine (look_ensures hs _ _ _).mono (fun _ => id) ?_
  rintro f t ⟨ht, hfound⟩
  cases hentry : f.entry with
  | none =>
    dsimp only
    split
    · exact ⟨ht, hx⟩
    · exact ⟨ht, hx⟩
  | some e =>
    obtain ⟨-, haccepts⟩ := hfound e hentry
    have hlicensed : C.Licenses who .get e.object x :=
      licenses_of_reading hm hvouched (Or.inl rfl) fun _ => (hx.concedes haccepts).1
    simp only [Activity.ensures_bind, callObject, Activity.ensures_modifyGet]
    refine Activity.Ensures.mono (release_keeps f registry who e.object _ (ht.call hlicensed)) (fun _ => id) ?_
    intro _ u hu
    have hcalled : Asked m.pdu who.context (t.call .get who e.object x).1.1 :=
      asked_of_kept hx (x.editAll_index _) (x.editAll_region _)
    split
    · exact ⟨hu, hconclude _ hcalled⟩
    · exact ⟨hu, asked_of_kept hcalled (Item.setError_index _ _) (Item.setError_region _ _)⟩

theorem next_keeps (hm : C.submitted m) (hvouched : C.agent.Vouches m who) :
    ∀ (patience : Nat) (x : Item), Keeps C.Upheld (Next.serve C.agent.policy registry who patience x)
  | 0, _ => Keeps.pure _
  | patience + 1, x => by
    have hlicensed (object : ObjectId) : C.Licenses who .next object x :=
      licenses_of_reading hm hvouched (Or.inr rfl) (absurd rfl)
    simp only [Next.serve]
    refine Keeps.bind (lookUp_keeps _) fun f => ?_
    split
    · exact Keeps.pure _
    · next e _ =>
      refine Keeps.bind (call_keeps (hlicensed e.object)) fun called => Keeps.bind (release_keeps f registry who _) ?_
      intro _
      split
      · exact Keeps.pure _
      · split
        · exact next_keeps hm hvouched patience _
        · exact Keeps.pure _
      · split
        · exact Keeps.pure _
        · exact next_keeps hm hvouched patience _

theorem begin_of_reading {r : Request} (hkind : r.pdu.kind ≠ .set) (hphase : r.phase = .start ∨ r.phase = .process) :
    ∃ items, r.begin = { r with phase := .process, items } ∧
      ∀ x ∈ items, ∃ y ∈ r.items, x.index = y.index ∧ x.region = y.region := by
  rcases hphase with hphase | hphase
  · refine ⟨_, begin_of_start hkind hphase, fun x hx => ?_⟩
    obtain ⟨y, hy, rfl⟩ := List.mem_map.mp hx
    exact ⟨y, hy, rfl, rfl⟩
  · refine ⟨r.items, ?_, fun x hx => ⟨x, hx, rfl, rfl⟩⟩
    rw [begin_of_process hphase, ← hphase]

/-- One pass of a service that reads. -/
theorem read_ensures {service : Service Obj} (hservice : service ∈ [Get.service, Next.service, Bulk.service])
    {r : Request} (h : C.Serves registry m r) (hserves : service.serves m.pdu.kind = true) (hs : C.Upheld s) :
    (service.run C.agent.policy registry r).Ensures (fun _ => C.Upheld) C.Upheld s fun out t =>
      C.Upheld t ∧ C.Serves registry m out.1 := by
  have hkind : m.pdu.kind ≠ .set := by
    simp only [List.mem_cons, List.not_mem_nil, or_false] at hservice
    rcases hservice with rfl | rfl | rfl <;> rw [eq_of_beq hserves] <;> decide
  obtain ⟨items, hbegin, hitems⟩ := begin_of_reading (h.pdu ▸ hkind) (h.reading hkind)
  have hwho : r.begin.requester = r.requester := by rw [hbegin]
  -- Reading changes no more of the request than its items.
  have hread {Q : Item → State Obj → Prop} (hQ : ∀ x t, Q x t → m.pdu.kind = .get → Asked m.pdu r.requester.context x)
      {act : Doing Obj (Request × Option Error)}
      (hact : act.Ensures (fun _ => C.Upheld) C.Upheld s fun out t => Read C.Upheld Q r.begin out.1 t) :
      act.Ensures (fun _ => C.Upheld) C.Upheld s fun out t => C.Upheld t ∧ C.Serves registry m out.1 := by
    refine hact.mono (fun _ => id) fun out t ht => ⟨ht.fit.state, ?_⟩
    obtain ⟨items', bulkDone, hsame⟩ := ht.same
    have hfit := ht.fit.items
    rw [hsame, hbegin] at hfit ⊢
    exact ⟨h.submitted, h.vouched, h.pdu, fun _ => Or.inr rfl, fun hget x hx => hQ x t (hfit x hx) hget,
      fun hset => absurd hset hkind⟩
  have hnext : Tends (fun _ => C.Upheld) C.Upheld (fun _ _ => m.pdu.kind ≠ .get)
      (Next.search C.agent.policy registry r.begin.requester) := by
    refine .search fun laps x xs t _ ht => ?_
    have hvouched : C.agent.Vouches m r.begin.requester := hwho.symm ▸ h.vouched
    refine Activity.Ensures.mono (next_keeps h.submitted hvouched laps x t ht.state) (fun _ => id) ?_
    exact fun out u hu => ⟨hu, fun _ _ => ht.items x List.mem_cons_self⟩
  simp only [List.mem_cons, List.not_mem_nil, or_false] at hservice
  rcases hservice with rfl | rfl | rfl <;> have hserved := eq_of_beq hserves
  · refine hread (Q := fun x _ => Asked m.pdu r.requester.context x) (fun _ _ hx _ => hx) (Get.run_ensures ?_ ?_)
    · intro x xs t _ ht
      rw [hwho]
      refine (get_ensures h.submitted h.vouched (ht.items x List.mem_cons_self) ht.state).mono (fun _ => id) ?_
      rintro out u ⟨hu, hout⟩
      exact ⟨hu, List.forall_mem_cons.mpr ⟨hout, ht.tail.items⟩⟩
    · refine ⟨hs, fun x hx => ?_⟩
      rw [hbegin] at hx
      obtain ⟨y, hy, hindex, hregion⟩ := hitems x hx
      exact asked_of_kept (h.items hserved y hy) hindex hregion
  · have hother : m.pdu.kind ≠ .get := by simp [hserved]
    exact hread (fun _ _ h hget => absurd hget h) (Next.run_ensures hnext ⟨hs, fun _ _ => hother⟩)
  · have hother : m.pdu.kind ≠ .get := by simp [hserved]
    exact hread (fun _ _ h hget => absurd hget h)
      (Bulk.run_ensures hnext (fun _ _ _ => id) ⟨hs, fun _ _ => hother⟩)

end Responder.Charter
