import Mathlib.Data.List.Find
import Responder.Proofs.Agent
import Responder.Proofs.Next.Disclosure
import Responder.Proofs.Reading

/-! What a view keeps secret. Two states that differ in nothing but the values of variables outside the view
    (`Mirror`) cannot be told apart by a request that reads: every look-up finds the same entry in both, every
    object that is called answers alike, and so the same is sent (`secret_of_granted`). -/

namespace Responder

/-! ### Two activities -/

namespace Activity

variable {σ α β : Type} {rely : σ → σ → Prop} {s s' : σ}

/-- Two activities end without waiting, in results and states that correspond. -/
def Agree (act act' : Activity σ α) (s s' : σ) (R : α → σ → α → σ → Prop) : Prop :=
  ∃ a t a' t', act s = .done a t ∧ act' s' = .done a' t' ∧ R a t a' t'

/-- Two activities end in the same result, of which something holds, and in states that correspond. -/
def Match (M : σ → σ → Prop) (P : α → Prop) (act act' : Activity σ α) (s s' : σ) : Prop :=
  Agree act act' s s' fun a t a' t' => a' = a ∧ P a ∧ M t t'

variable {act act' : Activity σ α} {f f' : α → Activity σ β} {R : α → σ → α → σ → Prop} {M : σ → σ → Prop}
  {P : α → Prop}

theorem Agree.bind {R' : β → σ → β → σ → Prop} (h : Agree act act' s s' R)
    (hf : ∀ a t a' t', R a t a' t' → Agree (f a) (f' a') t t' R') : Agree (act >>= f) (act' >>= f') s s' R' := by
  obtain ⟨a, t, a', t', ha, ha', hr⟩ := h
  obtain ⟨b, u, b', u', hb, hb', hr'⟩ := hf a t a' t' hr
  exact ⟨b, u, b', u', (bind_of_done ha).trans hb, (bind_of_done ha').trans hb', hr'⟩

theorem Match.bind {P' : β → Prop} (h : Match M P act act' s s')
    (hf : ∀ a t t', P a → M t t' → Match M P' (f a) (f' a) t t') : Match M P' (act >>= f) (act' >>= f') s s' :=
  Agree.bind h fun a t _ t' hr => hr.1 ▸ hf a t t' hr.2.1 hr.2.2

theorem match_pure {a : α} (ha : P a) (h : M s s') : Match M P (pure a) (pure a) s s' :=
  ⟨a, s, a, s', rfl, rfl, rfl, ha, h⟩

theorem match_modifyGet {g g' : σ → α × σ} (hresult : (g' s').1 = (g s).1) (ha : P (g s).1)
    (h : M (g s).2 (g' s').2) : Match M P (modifyGet g) (modifyGet g') s s' :=
  ⟨_, _, _, _, rfl, rfl, hresult, ha, h⟩

theorem match_modify {g g' : σ → σ} (h : M (g s) (g' s')) :
    Match M (fun _ => True) (modify g) (modify g') s s' := ⟨_, _, _, _, rfl, rfl, rfl, trivial, h⟩

theorem agree_of_ensures {E E' : α → σ → Prop} (h : act.Ensures rely (fun _ => False) s E)
    (h' : act'.Ensures rely (fun _ => False) s' E') : Agree act act' s s' fun a t a' t' => E a t ∧ E' a' t' := by
  obtain ⟨a, t, ha, he⟩ := Progress.Ensures.done h
  obtain ⟨a', t', ha', he'⟩ := Progress.Ensures.done h'
  exact ⟨a, t, a', t', ha, ha', he, he'⟩

end Activity

open Activity

/-! ### Two states -/

/-- What can be told of the state apart from its objects and its locks. -/
def State.veil {Obj : Type} (s : State Obj) : State Unit := { s.bare with objects := fun _ => () }

/-- Two objects are stores of the same variables, and agree on those that the view allows. -/
def Alike {Obj : Type} [ManagedObject Obj] [Store.Among Obj] (allows : Oid → Bool) (x x' : Obj) : Prop :=
  ∃ b b' : Store, x = Store.Among.put b ∧ x' = Store.Among.put b' ∧ b.WellFormed ∧ b'.WellFormed ∧
    (∀ o, (b'.value? o).isSome = (b.value? o).isSome) ∧ ∀ o, allows o = true → b'.value? o = b.value? o

variable {Obj : Type}

section Veil
variable {s s' t : State Obj}

theorem State.veil_of_bare (h : t.bare = s.bare) : t.veil = s.veil := by
  rw [veil, veil, h]

theorem State.registry_of_veil (h : s'.veil = s.veil) (number : Nat) :
    (s'.registry number).bare = (s.registry number).bare := by
  have hregistry (s : State Obj) : s.veil.registry number = s.bare.registry number := rfl
  rw [← bare_registry, ← bare_registry, ← hregistry, ← hregistry, h]

end Veil

variable [ManagedObject Obj] [Store.Among Obj] {allows : Oid → Bool}

section Alike
variable {x x' : Obj}

/-- What an object finds does not depend on the values of its variables. -/
theorem Alike.find? (h : Alike allows x x') (r : Region) : ManagedObject.find? x' r = ManagedObject.find? x r := by
  obtain ⟨b, b', rfl, rfl, hb, hb', hpresent, -⟩ := h
  have hreads : Next.Reads (fun x : Obj => x = Store.Among.put b) _ _ := Next.reads_store hb
  have hreads' : Next.Reads (fun x : Obj => x = Store.Among.put b') _ _ := Next.reads_store hb'
  cases hfind : ManagedObject.find? (Store.Among.put b : Obj) r with
  | none =>
    cases hfind' : ManagedObject.find? (Store.Among.put b' : Obj) r with
    | none => rfl
    | some o =>
      have hfirst := hreads'.first _ _ o rfl hfind'
      have hout := hreads.nothing _ _ o rfl hfind (hpresent o ▸ hfirst.present)
      cases hout.symm.trans hfirst.inside
  | some o =>
    have hfirst := hreads.first _ _ o rfl hfind
    cases hfind' : ManagedObject.find? (Store.Among.put b' : Obj) r with
    | none =>
      have hout := hreads'.nothing _ _ o rfl hfind' ((hpresent o).trans hfirst.present)
      cases hout.symm.trans hfirst.inside
    | some o' =>
      have hfirst' := hreads'.first _ _ o' rfl hfind'
      have hsame : Next.First b.value? r.toRange o' :=
        ⟨hpresent o' ▸ hfirst'.present, hfirst'.inside, fun y hy => hfirst'.least y ((hpresent y).trans hy)⟩
      rw [hsame.eq hfirst]

theorem Alike.accepts (h : Alike allows x x') (q : Query) : q.accepts x' = q.accepts x := by
  rw [Query.accepts, Query.accepts, h.find?]

theorem Alike.get (h : Alike allows x x') (who : Requester) {item : Item} (hallows : allows item.oid = true) :
    ∃ edits, ManagedObject.call .get who item x = ⟨x, edits, .ok true⟩ ∧
      ManagedObject.call .get who item x' = ⟨x', edits, .ok true⟩ ∧ (item.editAll edits).oid = item.oid := by
  obtain ⟨b, b', rfl, rfl, -, -, -, hagree⟩ := h
  refine ⟨[.setValue ((b.value? item.oid).getD .noSuchInstance)], ?_, ?_, rfl⟩
  · rw [Store.Among.call_put, Store.call_get]
    rfl
  · rw [Store.Among.call_put, Store.call_get, hagree _ hallows]
    rfl

theorem Alike.next (h : Alike allows x x') (who : Requester) {item : Item} {o : Oid}
    (hfind : ManagedObject.find? x item.region = some o) (hallows : allows o = true) :
    ∃ edits, ManagedObject.call .next who item x = ⟨x, edits, .ok true⟩ ∧
      ManagedObject.call .next who item x' = ⟨x', edits, .ok true⟩ := by
  have hfind' := (h.find? item.region).trans hfind
  obtain ⟨b, b', rfl, rfl, hb, hb', -, hagree⟩ := h
  rw [Store.Among.find?_put] at hfind hfind'
  obtain ⟨v, hv, hcall⟩ := b.call_next who item hb hfind
  obtain ⟨v', hv', hcall'⟩ := b'.call_next who item hb' hfind'
  rw [hagree o hallows] at hv'
  obtain rfl : v = v' := Option.some.inj (hv.symm.trans hv')
  refine ⟨[.setBinding o v], ?_, ?_⟩
  · rw [Store.Among.call_put, hcall]
    rfl
  · rw [Store.Among.call_put, hcall']
    rfl

end Alike

/-- Two states that differ in nothing but locks, and in the values of variables that the view does not allow. In neither
of them anybody else holds a lock that a look-up could wait for. -/
structure Mirror (allows : Oid → Bool) (registry : Nat) (owner : TransactionId) (s s' : State Obj) : Prop where
  veil : s'.veil = s.veil
  objects : ∀ e ∈ (s.registry registry).entries, Alike allows (s.objects e.object) (s'.objects e.object)
  free : (s.registry registry).locks.OwnedBy owner
  free' : (s'.registry registry).locks.OwnedBy owner

section Mirror
variable {registry : Nat} {who : Requester} {s s' t t' : State Obj} {p : Policy} {q : Query}

theorem Mirror.bare (h : Mirror allows registry who.transaction s s') (ht : t.bare = s.bare) (ht' : t'.bare = s'.bare)
    (hfree : (t.registry registry).locks.OwnedBy who.transaction)
    (hfree' : (t'.registry registry).locks.OwnedBy who.transaction) :
    Mirror allows registry who.transaction t t' := by
  refine ⟨?_, fun e he => ?_, hfree, hfree'⟩
  · rw [State.veil_of_bare ht, State.veil_of_bare ht', h.veil]
  · rw [State.entries_eq_of_bare ht] at he
    rw [State.objects_eq_of_bare ht, State.objects_eq_of_bare ht']
    exact h.objects e he

theorem Mirror.candidates (h : Mirror allows registry who.transaction s s') (q : Query) :
    (s'.registry registry).candidates q = (s.registry registry).candidates q := by
  show (s'.registry registry).bare.candidates q = (s.registry registry).bare.candidates q
  rw [State.registry_of_veil h.veil]

/-- Both look-ups find the same entry, which the query accepts. -/
theorem Mirror.look (h : Mirror allows registry who.transaction s s') (q : Query) :
    Agree (p.lookUp registry who q) (p.lookUp registry who q) s s' fun f t f' t' =>
      (f'.entry = f.entry ∧ f.lock ≠ .timedOut ∧ f'.lock ≠ .timedOut) ∧ Mirror allows registry who.transaction t t' ∧
        ∀ e, f.entry = some e → e ∈ (t.registry registry).entries ∧ q.accepts (t.objects e.object) = true := by
  let l : Lookup := ⟨registry, q, some (p.terms who)⟩
  have hrun (s : State Obj) (hs : (s.registry registry).locks.OwnedBy who.transaction) :
      (l.run p.patience).Ensures (fun _ _ => False) (fun _ => False) s
        (l.Plain ((s.registry registry).candidates q) s) := Lookup.run_free _ (Lookup.free_of_ownedBy rfl hs)
  obtain ⟨f, t, f', t', hf, hf', hplain, hplain'⟩ := agree_of_ensures (hrun s h.free) (hrun s' h.free')
  have hmirror := h.bare hplain.bare hplain'.bare (hplain.ownedBy rfl h.free) (hplain'.ownedBy rfl h.free')
  have hfound : f'.entry = f.entry := by
    rw [hplain.entry, hplain'.entry, h.candidates q]
    refine List.find?_congr fun e he => ?_
    exact (h.objects e (Registry.mem_candidates_iff.mp he).1).accepts q
  refine ⟨f, t, f', t', hf, hf', ⟨hfound, hplain.lock, hplain'.lock⟩, hmirror, fun e he => ?_⟩
  rw [hplain.entry] at he
  rw [State.entries_eq_of_bare hplain.bare, State.objects_eq_of_bare hplain.bare]
  have haccepts := List.find?_some he
  exact ⟨(Registry.mem_candidates_iff.mp (List.mem_of_find?_eq_some he)).1, haccepts⟩

/-- A call that leaves both objects as they are, and to which both answer alike. -/
theorem Mirror.call (h : Mirror allows registry who.transaction s s') {e : Entry} {callback : Callback} {item : Item}
    {edits : List Edit} {result : Except Fault Bool}
    (hcall : ManagedObject.call callback who item (s.objects e.object) = ⟨s.objects e.object, edits, result⟩)
    (hcall' : ManagedObject.call callback who item (s'.objects e.object) = ⟨s'.objects e.object, edits, result⟩) :
    Match (Mirror allows registry who.transaction) (· = (item.editAll edits, result))
      (callObject callback who e.object item) (callObject callback who e.object item) s s' := by
  have hkept (s : State Obj) : (fun other => if other = e.object then s.objects e.object else s.objects other) =
      s.objects := by
    funext other
    split
    · next heq => rw [heq]
    · rfl
  refine match_modifyGet ?_ ?_ ⟨?_, ?_, h.free, h.free'⟩
  · simp only [State.call, hcall, hcall']
  · simp only [State.call, hcall]
  · have hveil (s : State Obj) (hcall : ManagedObject.call callback who item (s.objects e.object) =
        ⟨s.objects e.object, edits, result⟩) : (s.call callback who e.object item).2.veil =
          (s.veil.note (.call e.object callback item.index item.oid who)).enter
            ⟨who, callback, some e.object, item, item.editAll edits, result⟩ := by
      simp only [State.call, hcall]
      rfl
    rw [hveil s hcall, hveil s' hcall', h.veil]
  · simp only [State.call, State.setObject, hcall, hcall', State.enter, State.note, hkept]
    exact h.objects

theorem Mirror.release (h : Mirror allows registry who.transaction s s') (f f' : Finding) (object : ObjectId) :
    Match (Mirror allows registry who.transaction) (fun _ => True) (f.release registry who object)
      (f'.release registry who object) s s' := by
  have hrelease (f : Finding) (s : State Obj) : (f.release registry who object).Ensures (fun _ _ => False)
      (fun _ => False) s fun _ t => t.bare = s.bare ∧ ((s.registry registry).locks.OwnedBy who.transaction →
        (t.registry registry).locks.OwnedBy who.transaction) := f.release_ensures registry who object s
  obtain ⟨_, t, _, t', ht, ht', ⟨hbare, hown⟩, hbare', hown'⟩ := agree_of_ensures (hrelease f s) (hrelease f' s')
  exact ⟨_, t, _, t', ht, ht', rfl, trivial, h.bare hbare hbare' (hown h.free) (hown' h.free')⟩

end Mirror

/-! ### Serving -/

section Serve
variable {registry : Nat} {who : Requester} {s s' : State Obj} {p : Policy} {x : Item}

/-- The item is for the one variable that it names. -/
def Addresses (x : Item) : Prop := x.region.toRange = Range.point x.oid

/-- The item is for whatever lies past an identifier. -/
def Ahead (x : Item) : Prop := x.region.upper = none ∧ x.region.lowerIncluded = false

omit [ManagedObject Obj] [Store.Among Obj] in
theorem addresses_conclude (hx : Addresses x) (who : Requester) : Addresses (Get.conclude who x) := by
  unfold Get.conclude
  dsimp only
  split <;> split <;> exact hx

theorem Get.serve_match (hx : Addresses x) (h : Mirror (p.allows who) registry who.transaction s s') :
    Match (Mirror (p.allows who) registry who.transaction) (fun out => Addresses out.1) (Get.serve p registry who x)
      (Get.serve p registry who x) s s' := by
  refine Agree.bind (h.look (p.query who x.region false)) ?_
  rintro f t f' t' ⟨⟨hentry, hlock, hlock'⟩, h, haccepts⟩
  simp only [hentry]
  cases hfound : f.entry with
  | none =>
    simp only [hlock, hlock', if_false]
    exact match_pure hx h
  | some e =>
    obtain ⟨he, haccepts⟩ := haccepts e hfound
    have hallows : p.allows who x.oid = true := by
      have hlower : x.region.lower = x.oid := congrArg Range.lower hx
      rwa [Query.accepts_point (congrArg Range.lowerIncluded hx), Policy.allows_query,
        show (p.query who x.region false).region.lower = x.oid from hlower] at haccepts
    obtain ⟨edits, hcall, hcall', hoid⟩ := (h.objects e he).get who hallows
    refine Match.bind (h.call hcall hcall') ?_
    rintro _ u u' rfl h
    refine Match.bind (h.release f f' e.object) fun _ v v' _ h => ?_
    refine match_pure (addresses_conclude ?_ who) h
    rw [Addresses, Item.editAll_region, hoid]
    exact hx

theorem Next.serve_match : ∀ (patience : Nat) (x : Item) (s s' : State Obj), Ahead x →
    Mirror (p.allows who) registry who.transaction s s' →
      Match (Mirror (p.allows who) registry who.transaction) (fun out => Ahead out.1) (serve p registry who patience x)
        (serve p registry who patience x) s s'
  | 0, x, s, s', hx, h => match_pure hx h
  | patience + 1, x, s, s', hx, h => by
    refine Agree.bind (h.look (p.query who x.region false)) ?_
    rintro f t f' t' ⟨⟨hentry, hlock, hlock'⟩, h, haccepts⟩
    simp only [hentry]
    cases hfound : f.entry with
    | none =>
      simp only [hlock, hlock', if_false]
      exact match_pure hx h
    | some e =>
      obtain ⟨he, haccepts⟩ := haccepts e hfound
      rw [Query.accepts_search hx.1 hx.2, Option.any_eq_true, Policy.allows_query] at haccepts
      obtain ⟨o, hfind, hallows⟩ := haccepts
      obtain ⟨edits, hcall, hcall'⟩ := (h.objects e he).next who hfind hallows
      refine Match.bind (h.call hcall hcall') ?_
      rintro _ u u' rfl h
      refine Match.bind (h.release f f' e.object) fun _ v v' _ h => ?_
      have hahead : Ahead (x.editAll edits) := by
        rw [Ahead, Item.editAll_region]
        exact hx
      dsimp only
      split
      · exact serve_match patience _ v v' ⟨hahead.1, rfl⟩ h
      · refine match_pure ?_ h
        dsimp only
        split <;> exact hahead

/-- The candidates are as many in one state as in the other, so the searches may go on for as many laps. -/
theorem Next.search_match (hx : Ahead x) (h : Mirror (p.allows who) registry who.transaction s s') :
    Match (Mirror (p.allows who) registry who.transaction) (fun out => Ahead out.1) (search p registry who x)
      (search p registry who x) s s' := by
  have hbound : bound p registry who x s' = bound p registry who x s := by rw [bound, bound, h.candidates]
  have hlaps : search p registry who x s' = serve p registry who (bound p registry who x s) x s' := by
    rw [← hbound]
    rfl
  rw [Match, Agree, hlaps]
  exact serve_match _ x s s' hx h

end Serve

section Requests
variable {M : State Obj → State Obj → Prop} {Q : Item → Prop} {p : Policy} {registry : Nat}

omit [ManagedObject Obj] [Store.Among Obj] in
theorem serveOpen_match {serve : Item → Doing Obj (Item × Option Error)}
    (hserve : ∀ x s s', Q x → M s s' → Match M (fun out => Q out.1) (serve x) (serve x) s s') :
    ∀ (xs : List Item) (s s' : State Obj), (∀ x ∈ xs, Q x) → M s s' →
      Match M (fun out => ∀ x ∈ out.1, Q x) (serveOpen serve xs) (serveOpen serve xs) s s'
  | [], s, s', _, h => match_pure (by simp) h
  | x :: xs, s, s', hxs, h => by
    obtain ⟨hx, hrest⟩ := List.forall_mem_cons.mp hxs
    simp only [serveOpen]
    split
    · refine Match.bind (serveOpen_match hserve xs s s' hrest h) ?_
      rintro ⟨ys, error⟩ t t' hys h
      exact match_pure (List.forall_mem_cons.mpr ⟨hx, hys⟩) h
    · refine Match.bind (hserve x s s' hx h) ?_
      rintro ⟨y, _ | error⟩ t t' hy h
      · refine Match.bind (serveOpen_match hserve xs t t' hrest h) ?_
        rintro ⟨ys, error⟩ t t' hys h
        exact match_pure (List.forall_mem_cons.mpr ⟨hy, hys⟩) h
      · exact match_pure (List.forall_mem_cons.mpr ⟨hy, hrest⟩) h

omit [Store.Among Obj] in
theorem Bulk.repeatFrom_match (hrepeat : ∀ x index, Q x → Q (x.repetition index)) {who : Requester}
    (hserve : ∀ x s s', Q x → M s s' → Match M (fun out => Q out.1) (Next.search p registry who x)
      (Next.search p registry who x) s s') :
    ∀ (steps cursor : Nat) (r : Request) (s s' : State Obj), r.requester = who → (∀ x ∈ r.items, Q x) → M s s' →
      Match M (fun _ => True) (repeatFrom p registry steps cursor r) (repeatFrom p registry steps cursor r) s s'
  | 0, cursor, r, s, s', _, _, h => match_pure trivial h
  | steps + 1, cursor, r, s, s', hwho, hitems, h => by
    have hkept {r' : Request} (hr' : Repeats r r') : r'.requester = who ∧ ∀ x ∈ r'.items, Q x := by
      obtain ⟨items, rfl, hfrom⟩ := hr'
      refine ⟨hwho, fun x hx => ?_⟩
      rcases hfrom x hx with hx | ⟨y, hy, index, rfl⟩
      · exact hitems x hx
      · exact hrepeat y index (hitems y hy)
    have hstep := leads_step cursor r
    simp only [repeatFrom]
    split
    · exact match_pure trivial h
    · exact match_pure trivial h
    · next index r' heq =>
      rw [heq] at hstep
      obtain ⟨hwho', hitems'⟩ := hkept hstep
      split
      · exact match_pure trivial h
      · next item hitem =>
        split
        · exact repeatFrom_match hrepeat hserve steps _ r' s s' hwho' hitems' h
        · rw [hwho']
          refine Match.bind (hserve item s s' (hitems' item (List.mem_of_getElem? hitem)) h) ?_
          rintro ⟨y, _ | error⟩ t t' hy h
          · dsimp only
            split
            · exact match_pure trivial h
            · split
              · exact match_pure trivial h
              · refine repeatFrom_match hrepeat hserve steps _ _ t t' hwho' (fun x hx => ?_) h
                rcases List.mem_or_eq_of_mem_set hx with hx | rfl
                · exact hitems' x hx
                · exact hy
          · exact match_pure trivial h

omit [ManagedObject Obj] [Store.Among Obj] in
theorem ahead_repetition (x : Item) (index : Nat) : Ahead (x.repetition index) := by
  unfold Item.repetition
  dsimp only
  split <;> exact ⟨rfl, rfl⟩

/-- Every service that reads takes a request to the same end in both states. -/
theorem run_match {service : Service Obj} (hservice : service ∈ [Get.service, Next.service, Bulk.service]) {pdu : Pdu}
    (hserves : service.serves pdu.kind = true) {who : Requester} (maxSize : Nat) (created : Instant) {s s' : State Obj}
    (h : Mirror (p.allows who) registry who.transaction s s') :
    Match (Mirror (p.allows who) registry who.transaction) (fun _ => True)
      (service.run p registry (.start who pdu maxSize created))
      (service.run p registry (.start who pdu maxSize created)) s s' := by
  let r := Request.start who pdu maxSize created
  have hbegin (Q : Item → Prop) (hkind : pdu.kind ≠ .set)
      (hQ : ∀ index b, Q { index, binding := b, region := Request.regionOf pdu who.context b.oid }) :
      r.begin.requester = who ∧ ∀ x ∈ r.begin.items, Q x := by
    have hunder : Underway who pdu (fun _ => True) (fun x _ => Q x) r.begin s :=
      underway_start hkind trivial fun index b _ => hQ index b
    exact ⟨hunder.requester, hunder.fit.items⟩
  simp only [List.mem_cons, List.not_mem_nil, or_false] at hservice
  rcases hservice with rfl | rfl | rfl <;> have hkind := eq_of_beq hserves
  · obtain ⟨hwho, hitems⟩ := hbegin Addresses (by simp [hkind]) fun index b => by
      simp [Request.regionOf, hkind, Pdu.Kind.isSearch]
      rfl
    refine Match.bind (serveOpen_match (fun x s s' hx h => ?_) r.begin.items s s' hitems h) fun _ t t' _ h =>
      match_pure trivial h
    rw [hwho]
    exact Get.serve_match hx h
  · obtain ⟨hwho, hitems⟩ := hbegin Ahead (by simp [hkind]) fun index b => by
      rw [regionOf_search (by simp [hkind, Pdu.Kind.isSearch])]
      exact ⟨rfl, rfl⟩
    refine Match.bind (serveOpen_match (fun x s s' hx h => ?_) r.begin.items s s' hitems h) fun _ t t' _ h =>
      match_pure trivial h
    rw [hwho]
    exact Next.search_match hx h
  · obtain ⟨hwho, hitems⟩ := hbegin Ahead (by simp [hkind]) fun index b => by
      rw [regionOf_search (by simp [hkind, Pdu.Kind.isSearch])]
      exact ⟨rfl, rfl⟩
    have hserve (x : Item) (s s' : State Obj) (hx : Ahead x)
        (h : Mirror (p.allows who) registry who.transaction s s') := Next.search_match hx h
    refine Match.bind (serveOpen_match (hwho ▸ hserve) _ s s'
      (fun x hx => hitems x (List.mem_of_mem_take hx)) h) ?_
    rintro ⟨items, _ | error⟩ t t' hsingle h
    · refine Bulk.repeatFrom_match (fun x index _ => ahead_repetition x index) hserve _ _ _ t t' hwho (fun x hx => ?_) h
      rcases List.mem_append.mp hx with hx | hx
      · exact hsingle x hx
      · exact hitems x (List.mem_of_mem_drop hx)
    · exact match_pure trivial h

end Requests

/-! ### Answers -/

section Answers
variable {s s' t t' : State Obj}

omit [ManagedObject Obj] [Store.Among Obj]

/-- The states differ in nothing but objects and locks. -/
def Veiled (s s' : State Obj) : Prop := s'.veil = s.veil

theorem Veiled.congr {α : Type} (h : Veiled s s') (f : State Unit → α) : f s'.veil = f s.veil := congrArg f h

theorem Veiled.outstanding (h : Veiled s s') : s'.outstanding = s.outstanding := h.congr State.outstanding

theorem Veiled.sent (h : Veiled s s') : s'.sent = s.sent := h.congr State.sent

theorem Veiled.counters (h : Veiled s s') : s'.counters = s.counters := h.congr State.counters

theorem Veiled.bare (h : Veiled s s') (ht : t.bare = s.bare) (ht' : t'.bare = s'.bare) : Veiled t t' := by
  rw [Veiled, State.veil_of_bare ht, State.veil_of_bare ht', h]

theorem Veiled.track (h : Veiled s s') (outstanding : Outstanding Pending) :
    Veiled { s with outstanding } { s' with outstanding } :=
  h.congr fun s => ({ s with outstanding } : State Unit)

theorem Veiled.releaseLocks (h : Veiled s s') (number : Nat) (owner : TransactionId) :
    Veiled (s.releaseLocks number owner).2 (s'.releaseLocks number owner).2 :=
  h.bare (s.bare_releaseLocks number owner) (s'.bare_releaseLocks number owner)

theorem Veiled.drop (h : Veiled s s') (number : Nat) (owner : TransactionId) :
    Veiled (Agent.drop number owner s) (Agent.drop number owner s') := by
  have hreleased := h.releaseLocks number owner
  simp only [Agent.drop, hreleased.outstanding]
  exact hreleased.track _

theorem Veiled.park (h : Veiled s s') (p : Pending) : Veiled (Agent.park p s) (Agent.park p s') := by
  simp only [Agent.park, h.outstanding]
  split
  · exact h.track _
  · exact h.releaseLocks _ _

theorem Veiled.finish (h : Veiled s s') (a : Agent Obj) (r : Request) (m : Inbound) (registry : Option Nat) :
    (a.finish r m registry s').1 = (a.finish r m registry s).1 ∧
      Veiled (a.finish r m registry s).2 (a.finish r m registry s').2 := by
  have hsend {s s' : State Obj} (h : Veiled s s') (pdu : Pdu) (bulk : Bool) :
      (a.send m pdu bulk s').1 = (a.send m pdu bulk s).1 ∧
        Veiled (a.send m pdu bulk s).2 (a.send m pdu bulk s').2 := by
    unfold Agent.send
    split
    · exact ⟨rfl, h.congr fun s => (s.count .silentDrops).2⟩
    · next pdu _ =>
      split
      · exact ⟨rfl, h⟩
      · exact ⟨rfl, h.congr fun s => ({ s with sent := s.sent ++ [Outbound.replyTo m pdu] } : State Unit)⟩
  simp only [Agent.finish, h.outstanding]
  have hclosed := h.track (s.outstanding.remove r.transaction)
  cases registry with
  | none => exact hsend hclosed _ _
  | some number => exact hsend (hclosed.releaseLocks number r.transaction) _ _

end Answers

theorem drive_match {a : Agent Obj} {service : Service Obj}
    (hservice : service ∈ [Get.service, Next.service, Bulk.service]) {m : Inbound} {pdu : Pdu}
    (hserves : service.serves pdu.kind = true) (hfor : a.serviceFor? pdu.kind = some service) {who : Requester}
    {maxSize : Nat} {created : Instant} {registry : Nat} {s s' : State Obj}
    (h : Mirror (a.policy.allows who) registry who.transaction s s') :
    Match Veiled (fun _ => True) (a.drive ⟨.start who pdu maxSize created, m, registry⟩)
      (a.drive ⟨.start who pdu maxSize created, m, registry⟩) s s' := by
  obtain ⟨⟨r, error⟩, t, _, t', hrun, hrun', rfl, -, h⟩ := run_match hservice hserves maxSize created h
  simp only [Agent.drive, show (Request.start who pdu maxSize created).pdu.kind = pdu.kind from rfl, hfor]
  generalize a.expiry (.start who pdu maxSize created) = expiry
  have hbefore : Match Veiled (· = some (r, error))
      ((service.run a.policy registry (.start who pdu maxSize created)).before expiry)
      ((service.run a.policy registry (.start who pdu maxSize created)).before expiry) s s' :=
    ⟨_, _, _, _, before_of_done hrun expiry, before_of_done hrun' expiry, rfl, rfl, h.veil⟩
  refine Match.bind hbefore ?_
  rintro _ u u' rfl h
  cases error with
  | some error => exact Match.bind (match_modify (h.drop _ _)) fun _ _ _ _ h => match_pure trivial h
  | none =>
    dsimp only
    split
    · obtain ⟨hresult, h⟩ := h.finish a r m (some registry)
      exact match_modifyGet hresult trivial h
    · exact Match.bind (match_modify (h.park _)) fun _ _ _ _ h => match_pure trivial h

/-- A request that reads, served under a view while nobody else holds a lock, ends alike in two states that differ only
in objects: stores of the same variables, with the same values wherever the view allows them. In particular the same
is sent, or nothing in either state. -/
theorem secret_of_granted {a : Agent Obj} (hservices : a.services = Agent.standardServices) {tables : Vacm.Tables}
    {name : Octets} (haccess : a.access = some tables) {s : State Obj} {m₀ m : Inbound} {mapping : Option Mapping}
    (haccepts : a.Accepts m₀ m mapping)
    (hview : Agent.viewFor? tables (Agent.requester m mapping ⟨s.transactions⟩) = some name)
    (hkind : m.pdu.kind = .get ∨ m.pdu.kind = .getNext ∨ m.pdu.kind = .getBulk)
    (hfree : ∀ r ∈ s.registries, r.locks.OwnedBy ⟨s.transactions⟩) {objects : ObjectId → Obj}
    (halike : ∀ r ∈ s.registries, ∀ e ∈ r.entries,
      Alike (tables.allows name) (s.objects e.object) (objects e.object)) :
    ∃ result t t', a.process m₀ s = .done result t ∧ a.process m₀ { s with objects } = .done result t' ∧
      t'.sent = t.sent ∧ t'.counters = t.counters ∧ t'.outstanding = t.outstanding := by
  let who : Requester := { Agent.requester m mapping ⟨s.transactions⟩ with view := some name }
  obtain ⟨service, hservice, hserves, hfor⟩ : ∃ service ∈ [Get.service, Next.service, Bulk.service],
      service.serves m.pdu.kind = true ∧ a.serviceFor? m.pdu.kind = some service := by
    rw [Agent.serviceFor?, hservices]
    rcases hkind with hkind | hkind | hkind <;> rw [hkind]
    · exact ⟨Get.service, by simp, rfl, rfl⟩
    · exact ⟨Next.service, by simp, rfl, rfl⟩
    · exact ⟨Bulk.service, by simp, rfl, rfl⟩
  have hgranted : (a.access.map fun tables => Agent.viewFor? tables who) = who.view.map some := by
    rw [haccess]
    exact congrArg some hview
  have hprocess (s' : State Obj) (htransactions : s'.transactions = s.transactions) :=
    Agent.process_granted (s := s') haccepts (by rw [htransactions]) hgranted hfor
  have hopened : Veiled (Agent.opened s) (Agent.opened { s with objects }) := rfl
  have hmatch : Match Veiled (fun _ => True) (a.process m₀) (a.process m₀) s { s with objects } := by
    rw [Match, Agree, hprocess s rfl, hprocess { s with objects } rfl]
    dsimp only
    cases hregistry : s.registries.findIdx? fun r => r.serves who.context with
    | none =>
      obtain ⟨hresult, h⟩ := hopened.finish a ((Request.start who m.pdu m.maxSize s.now).fail .genErr) m none
      exact match_modifyGet hresult trivial h
    | some registry =>
      obtain ⟨hlt, -⟩ := List.findIdx?_eq_some_iff_getElem.mp hregistry
      have hmem : s.registry registry ∈ s.registries := by
        simp only [State.registry, List.getD_eq_getElem?_getD, List.getElem?_eq_getElem hlt, Option.getD_some,
          List.getElem_mem]
      have hmirror : Mirror (a.policy.allows who) registry who.transaction (Agent.opened s)
          (Agent.opened { s with objects }) := by
        rw [Policy.allows_of_view (p := a.policy) haccess rfl]
        exact ⟨hopened, halike _ hmem, hfree _ hmem, hfree _ hmem⟩
      exact drive_match hservice hserves hfor hmirror
  obtain ⟨result, t, _, t', ht, ht', rfl, -, h⟩ := hmatch
  exact ⟨_, t, t', ht, ht', h.sent, h.counters, h.outstanding⟩

/-- The cabinet with another value, of another type and size, where the view does not reach. -/
def recabinet : ObjectId → Instrument := fun _ =>
  Store.Among.put (Next.cabinetStore.write ⟨[1, 3, 1, 1]⟩ (.octetString [1, 2, 3]))

theorem alike_recabinet (id : ObjectId) :
    Alike (Next.screen.allows [118]) (Next.cabinet.objects id) (recabinet id) := by
  have hholds : Next.cabinetStore.holds ⟨[1, 3, 1, 1]⟩ = true := by decide
  have hvalue (o : Oid) : (Next.cabinetStore.write ⟨[1, 3, 1, 1]⟩ (.octetString [1, 2, 3])).value? o =
      if o = ⟨[1, 3, 1, 1]⟩ then some (.octetString [1, 2, 3]) else Next.cabinetStore.value? o :=
    Store.value?_write Next.cabinet_formed hholds
  refine ⟨Next.cabinetStore, _, rfl, rfl, Next.cabinet_formed, Next.cabinet_formed.write hholds, fun o => ?_,
    fun o hallows => ?_⟩
  · rw [hvalue o]
    split
    · next heq =>
      subst heq
      decide
    · rfl
  · rw [hvalue o, if_neg]
    rintro rfl
    exact absurd hallows (by decide)

/-- A search whose answer does not tell what it has passed over. -/
theorem secret_of_peeking : ∃ result t t',
    Next.screened.process (.ofCommunity .v2c [] Next.browser.peer Next.peeking) Next.cabinet = .done result t ∧
    Next.screened.process (.ofCommunity .v2c [] Next.browser.peer Next.peeking)
      { Next.cabinet with objects := recabinet } = .done result t' ∧ t'.sent = t.sent ∧ t.sent.length = 1 := by
  have haccepts : Next.screened.Accepts (.ofCommunity .v2c [] Next.browser.peer Next.peeking)
      (.ofCommunity .v2c [] Next.browser.peer Next.peeking) none := ⟨by decide, rfl, rfl, rfl⟩
  obtain ⟨result, t, t', ht, ht', hsent, -⟩ := secret_of_granted (s := Next.cabinet)
    rfl rfl haccepts (show Agent.viewFor? Next.screen _ = some [118] from rfl) (Or.inr (Or.inl rfl))
    (fun r hr => by
      obtain rfl := List.mem_singleton.mp hr
      exact fun _ hold => absurd hold List.not_mem_nil)
    fun _ _ e _ => alike_recabinet e.object
  have hone : (Next.screened.process (.ofCommunity .v2c [] Next.browser.peer Next.peeking) Next.cabinet).result?.any
      (fun x => x.2.sent.length = 1) = true := by decide +kernel
  rw [ht] at hone
  exact ⟨result, t, t', ht, ht', hsent, of_decide_eq_true hone⟩

end Responder
