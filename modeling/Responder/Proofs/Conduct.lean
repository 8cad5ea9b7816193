import Responder.Agent.Basic
import Responder.Proofs.Reading
import Responder.Proofs.Set.Passes

/-! The conduct of services. What a service does on somebody's behalf, one thing after the other, is to look for
    something in his context, after counting the candidates, to call an object that was found, to release a lock, and to
    refuse an item. Whatever can be said of each of these, and of one thing after another, can be said of every standard
    service as a whole (`Conduct.run`). -/

namespace Responder

/-- What objects are called for by requests of a kind. -/
def Pdu.Kind.callbacks : Pdu.Kind → List Callback
  | .get => [.get]
  | .getNext | .getBulk => [.next]
  | .set => [.prepare, .commit, .undo, .cleanup]
  | _ => []

variable {Obj : Type}

/-- An item is searched for in its requester's context, and was prepared, if at all, on an object that may be called. -/
structure Item.Fits (who : Requester) (callable : ObjectId → Prop) (x : Item) : Prop where
  context : x.region.context = some who.context
  target : ∀ object, x.target = some object → callable object

/-- A request is made by somebody, and its items are fit. -/
structure Request.Apt (who : Requester) (callable : ObjectId → Prop) (r : Request) : Prop where
  requester : r.requester = who
  kind : r.pdu.kind = who.kind
  items : ∀ x ∈ r.items, x.Fits who callable

/-- What can be said of all that a service does on somebody's behalf, and of the results. -/
structure Conduct [ManagedObject Obj] (p : Policy) (registry : Nat) (who : Requester) (callable : ObjectId → Prop)
    (Ok : ∀ {α : Type}, Doing Obj α → (α → Prop) → Prop) : Prop where
  pure : ∀ {α : Type} {post : α → Prop} {a : α}, post a → Ok (Pure.pure a) post
  bind : ∀ {α β : Type} {act : Doing Obj α} {f : α → Doing Obj β} {post : α → Prop} {after : β → Prop},
    Ok act post → (∀ a, post a → Ok (f a) after) → Ok (act >>= f) after
  look : ∀ (region : Region) (writes : Bool) (terms : Option LockTerms), region.context = some who.context →
    (∀ t, terms = some t → t.owner = who.transaction) →
      Ok (Lookup.run ⟨registry, p.query who region writes, terms⟩ p.patience)
        fun f => ∀ e, f.entry = some e → callable e.object
  call : ∀ callback ∈ who.kind.callbacks, ∀ object item, callable object →
    Ok (callObject callback who object item) fun out => out.1.region = item.region ∧ out.1.target = item.target
  unlock : ∀ object, Ok (modify fun s => (s.unlock registry who.transaction object).2) fun _ => True
  refuse : ∀ callback item status, Ok (modifyGet fun s => s.refuse callback who item status)
    fun x => x.region = item.region ∧ x.target = item.target
  count : ∀ {α : Type} {act : Nat → Doing Obj α} {post : α → Prop} (region : Region) (writes : Bool),
    region.context = some who.context → (∀ number, Ok (act number) post) →
      Ok (do act (((← get).registry registry).candidates (p.query who region writes)).length) post

/-! ### Items and requests -/

section Fits
variable {who : Requester} {callable : ObjectId → Prop} {x y : Item} {r r' : Request}

theorem Item.Fits.of_eq (h : x.Fits who callable) (hregion : y.region.context = x.region.context)
    (htarget : ∀ object, y.target = some object → x.target = some object) : y.Fits who callable :=
  ⟨hregion.trans h.context, fun object hobject => h.target object (htarget object hobject)⟩

theorem Item.Fits.finish (h : x.Fits who callable) : x.finish.Fits who callable := h.of_eq rfl fun _ => id

theorem Item.Fits.defer (h : x.Fits who callable) : x.defer.Fits who callable := h.of_eq rfl fun _ => id

theorem Item.Fits.setValue (h : x.Fits who callable) (value : Value) : (x.setValue value).Fits who callable :=
  h.of_eq rfl fun _ => id

theorem Item.Fits.report (h : x.Fits who callable) (p : Policy) (status : Status) (fault : Fault) :
    (p.report x status fault).1.Fits who callable := by
  refine Item.Fits.finish (h.of_eq (by rw [Item.setError_region]) fun object hobject => ?_)
  rwa [Item.setError_target] at hobject

theorem Item.Fits.conclude (h : x.Fits who callable) : (Get.conclude who x).Fits who callable := by
  have hfinish {x : Item} (h : x.Fits who callable) : (if x.deferred then x else x.finish).Fits who callable := by
    split
    · exact h
    · exact h.finish
  unfold Get.conclude
  dsimp only
  split
  · exact hfinish (h.setValue _)
  · exact hfinish h

theorem Item.Fits.ready (h : x.Fits who callable) : (Set.ready x).Fits who callable := by
  unfold Set.ready
  split
  · exact h.finish
  · exact Item.Fits.finish (h.of_eq rfl fun _ => id)

theorem Item.Fits.repetition (h : x.Fits who callable) (index : Nat) : (x.repetition index).Fits who callable := by
  unfold Item.repetition
  dsimp only
  split
  · exact ⟨h.context, fun _ hobject => by cases hobject⟩
  · exact ⟨h.context, fun _ hobject => by cases hobject⟩

theorem Request.Apt.start {pdu : Pdu} (hkind : pdu.kind = who.kind) (maxSize : Nat) (created : Instant) :
    (Request.start who pdu maxSize created).Apt who callable := by
  refine ⟨rfl, hkind, fun x hx => ?_⟩
  obtain ⟨index, hindex, rfl⟩ := List.mem_mapIdx.mp hx
  exact ⟨rfl, fun _ hobject => by cases hobject⟩

/-- What each item is replaced by without losing its place leaves a request apt. -/
theorem Request.Apt.map (h : r.Apt who callable) (hrequester : r'.requester = r.requester) (hpdu : r'.pdu = r.pdu)
    {f : Item → Item} (hitems : r'.items = r.items.map f)
    (hf : ∀ x, (f x).region = x.region ∧ (f x).target = x.target) : r'.Apt who callable := by
  refine ⟨hrequester.trans h.requester, hpdu ▸ h.kind, fun y hy => ?_⟩
  rw [hitems] at hy
  obtain ⟨x, hx, rfl⟩ := List.mem_map.mp hy
  exact (h.items x hx).of_eq (by rw [(hf x).1]) fun object hobject => (hf x).2 ▸ hobject

theorem Request.Apt.retry (h : r.Apt who callable) : r.retry.Apt who callable :=
  h.map rfl rfl rfl fun _ => ⟨rfl, rfl⟩

theorem Request.Apt.finishAll (h : r.Apt who callable) : r.finishAll.Apt who callable := by
  refine h.map rfl rfl rfl fun x => ?_
  split <;> exact ⟨rfl, rfl⟩

theorem Request.Apt.advance (h : r.Apt who callable) (hr : r.advance? = some r') : r'.Apt who callable := by
  obtain ⟨phase, -, rfl⟩ := Option.map_eq_some_iff.mp hr
  exact h.map rfl rfl rfl fun _ => ⟨rfl, rfl⟩

theorem Request.Apt.begin (h : r.Apt who callable) : r.begin.Apt who callable := by
  unfold Request.begin
  split
  · cases hr : r.advance? with
    | none => exact h
    | some r' => exact h.advance hr
  · exact h

end Fits

namespace Conduct

variable [ManagedObject Obj] {p : Policy} {registry : Nat} {who : Requester} {callable : ObjectId → Prop}
  {Ok : ∀ {α : Type}, Doing Obj α → (α → Prop) → Prop}

section Parts
variable (C : Conduct p registry who callable Ok)
include C

theorem lookUp {x : Item} (hx : x.Fits who callable) (writes : Bool) :
    Ok (p.lookUp registry who (p.query who x.region writes)) fun f => ∀ e, f.entry = some e → callable e.object :=
  C.look x.region writes (some (p.terms who)) hx.context fun _ ht => Option.some.inj ht ▸ rfl

theorem release (f : Finding) (object : ObjectId) : Ok (f.release registry who object) fun _ => True := by
  unfold Finding.release
  split
  · exact C.unlock object
  · exact C.pure trivial

/-- An object is called for an item that fits, and leaves it fit. -/
theorem callFor {callback : Callback} (hcallback : callback ∈ who.kind.callbacks) {object : ObjectId}
    (hobject : callable object) {x : Item} (hx : x.Fits who callable) :
    Ok (callObject callback who object x) fun out => out.1.Fits who callable := by
  rw [← bind_pure (callObject callback who object x)]
  refine C.bind (C.call callback hcallback object x hobject) fun out hout => C.pure ?_
  exact hx.of_eq (by rw [hout.1]) fun target htarget => hout.2 ▸ htarget

theorem serveOpen {serve : Item → Doing Obj (Item × Option Error)}
    (hserve : ∀ x, x.Fits who callable → Ok (serve x) fun out => out.1.Fits who callable) :
    ∀ items : List Item, (∀ x ∈ items, x.Fits who callable) →
      Ok (Responder.serveOpen serve items) fun out => ∀ x ∈ out.1, x.Fits who callable
  | [], _ => C.pure (by simp)
  | x :: rest, h => by
    obtain ⟨hx, hrest⟩ := List.forall_mem_cons.mp h
    have ih := serveOpen hserve rest hrest
    have hcons {y : Item} (hy : y.Fits who callable) :
        Ok (Responder.serveOpen serve rest >>= fun out => Pure.pure (y :: out.1, out.2))
          fun out => ∀ x ∈ out.1, x.Fits who callable :=
      C.bind ih fun out hout => C.pure (List.forall_mem_cons.mpr ⟨hy, hout⟩)
    rw [Responder.serveOpen]
    split
    · exact hcons hx
    · refine C.bind (hserve x hx) fun out hout => ?_
      obtain ⟨y, _ | error⟩ := out
      · exact hcons hout
      · exact C.pure (List.forall_mem_cons.mpr ⟨hout, hrest⟩)

end Parts

/-! ### Reading -/

section Reading
variable (C : Conduct p registry who callable Ok)
include C

theorem get_serve (hget : .get ∈ who.kind.callbacks) (x : Item) (hx : x.Fits who callable) :
    Ok (Get.serve p registry who x) fun out => out.1.Fits who callable := by
  refine C.bind (C.lookUp hx false) fun f hf => ?_
  split
  · split
    · exact C.pure hx.defer
    · exact C.pure (hx.setValue _).finish
  · next e he =>
    refine C.bind (C.callFor hget (hf e he) hx) fun out hout => ?_
    refine C.bind (C.release f e.object) fun _ _ => ?_
    split
    · exact C.pure hout.conclude
    · exact C.pure (hout.report p _ _)

theorem next_serve (hnext : .next ∈ who.kind.callbacks) : ∀ (patience : Nat) (x : Item), x.Fits who callable →
    Ok (Next.serve p registry who patience x) fun out => out.1.Fits who callable
  | 0, _, hx => C.pure hx
  | patience + 1, x, hx => by
    rw [Next.serve]
    refine C.bind (C.lookUp hx false) fun f hf => ?_
    split
    · refine C.pure ?_
      dsimp only
      split
      · exact hx.defer
      · exact (hx.setValue _).finish
    · next e he =>
      refine C.bind (C.callFor hnext (hf e he) hx) fun out hout => ?_
      refine C.bind (C.release f e.object) fun _ _ => ?_
      split
      · exact C.pure (hout.report p _ _)
      · split
        · exact next_serve hnext patience _ (hout.of_eq rfl fun _ => id)
        · refine C.pure ?_
          dsimp only
          split
          · exact hout
          · exact hout.finish
      · dsimp only
        have hleft : ({ out.1.setValue .null with region := out.1.region.above e.region.toRange } : Item).Fits who
            callable := hout.of_eq rfl fun _ => id
        split
        · exact C.pure (hleft.setValue _).finish
        · exact next_serve hnext patience _ hleft

theorem next_search (hnext : .next ∈ who.kind.callbacks) (x : Item) (hx : x.Fits who callable) :
    Ok (Next.search p registry who x) fun out => out.1.Fits who callable :=
  C.count x.region false hx.context fun number => C.next_serve hnext (number + p.patience + 1) x hx

variable {r : Request}

theorem get_run (hget : .get ∈ who.kind.callbacks) (hr : r.Apt who callable) :
    Ok (Get.run p registry r) fun out => out.1.Apt who callable := by
  have hbegun := hr.begin
  obtain rfl := hbegun.requester
  exact C.bind (C.serveOpen (C.get_serve hget) _ hbegun.items) fun out hout =>
    C.pure ⟨rfl, hbegun.kind, hout⟩

theorem next_run (hnext : .next ∈ who.kind.callbacks) (hr : r.Apt who callable) :
    Ok (Next.run p registry r) fun out => out.1.Apt who callable := by
  have hbegun := hr.begin
  obtain rfl := hbegun.requester
  exact C.bind (C.serveOpen (C.next_search hnext) _ hbegun.items) fun out hout =>
    C.pure ⟨rfl, hbegun.kind, hout⟩

omit C in
theorem apt_of_repeats {r' : Request} (h : Bulk.Repeats r r') (hr : r.Apt who callable) : r'.Apt who callable := by
  obtain ⟨items, rfl, hitems⟩ := h
  refine ⟨hr.requester, hr.kind, fun x hx => ?_⟩
  rcases hitems x hx with hx | ⟨y, hy, index, rfl⟩
  · exact hr.items x hx
  · exact (hr.items y hy).repetition index

theorem bulk_repeatFrom (hnext : .next ∈ who.kind.callbacks) : ∀ (steps cursor : Nat) (r : Request),
    r.Apt who callable → Ok (Bulk.repeatFrom p registry steps cursor r) fun out => out.1.Apt who callable
  | 0, _, _, hr => C.pure ⟨hr.requester, hr.kind, hr.items⟩
  | steps + 1, cursor, r, hr => by
    have hstep := Bulk.leads_step cursor r
    have hfinish {r : Request} (hr : r.Apt who callable) : (Bulk.finish r).Apt who callable :=
      ⟨hr.requester, hr.kind, hr.items⟩
    rw [Bulk.repeatFrom]
    split
    · next r' heq =>
      rw [heq] at hstep
      exact C.pure (hfinish (apt_of_repeats hstep hr))
    · exact C.pure (hfinish hr)
    · next index r' heq =>
      rw [heq] at hstep
      have hr' := apt_of_repeats hstep hr
      split
      · exact C.pure (hfinish hr')
      · next x hx =>
        split
        · exact bulk_repeatFrom hnext steps (cursor + 1) r' hr'
        · rw [hr'.requester]
          refine C.bind (C.next_search hnext x (hr'.items x (List.mem_of_getElem? hx))) fun out hout => ?_
          obtain ⟨y, error⟩ := out
          have hset : (r'.setItem index y).Apt who callable := by
            refine ⟨hr'.requester, hr'.kind, fun z hz => ?_⟩
            rcases List.mem_or_eq_of_mem_set hz with hz | rfl
            · exact hr'.items z hz
            · exact hout
          cases error with
          | some error => exact C.pure hset
          | none =>
            dsimp only
            split
            · exact C.pure hset
            · split
              · exact C.pure (hfinish (apt_of_repeats (Bulk.repeats_dropRow _ index) hset))
              · exact bulk_repeatFrom hnext steps (cursor + 1) _ hset

theorem bulk_run (hnext : .next ∈ who.kind.callbacks) (hr : r.Apt who callable) :
    Ok (Bulk.run p registry r) fun out => out.1.Apt who callable := by
  have hbegun := hr.begin
  obtain rfl := hbegun.requester
  refine C.bind (C.serveOpen (C.next_search hnext) _ fun x hx =>
    hbegun.items x (List.mem_of_mem_take hx)) fun out hout => ?_
  have hserved : ({ r.begin with
      items := out.1 ++ r.begin.items.drop (Repetition.start r.begin) } : Request).Apt r.begin.requester callable :=
    ⟨rfl, hbegun.kind, List.forall_mem_append.mpr ⟨hout, fun x hx => hbegun.items x (List.mem_of_mem_drop hx)⟩⟩
  obtain ⟨items, _ | error⟩ := out
  · exact C.bulk_repeatFrom hnext _ _ _ hserved
  · exact C.pure hserved

end Reading

/-! ### Writing -/

section Writing
variable (C : Conduct p registry who callable Ok) (hset : who.kind = .set)
include C

omit C in
theorem writes_mem (hset : who.kind = .set) {callback : Callback}
    (hcallback : callback ∈ [Callback.prepare, .commit, .undo, .cleanup]) : callback ∈ who.kind.callbacks := by
  rwa [hset]

theorem refuseFor {x : Item} (hx : x.Fits who callable) (callback : Callback) (status : Status) :
    Ok (modifyGet fun s : State Obj => s.refuse callback who x status) fun y => y.Fits who callable := by
  rw [← bind_pure (modifyGet fun s : State Obj => s.refuse callback who x status)]
  refine C.bind (C.refuse callback x status) fun y hy => C.pure ?_
  exact hx.of_eq (by rw [hy.1]) fun target htarget => hy.2 ▸ htarget

/-- A pass goes on behind an item that fits. -/
theorem behind {next : Doing Obj Set.Pass} (hnext : Ok next fun pass => ∀ x ∈ pass.items, x.Fits who callable)
    {x : Item} (hx : x.Fits who callable) (error : Option Error) :
    Ok (do return (← next).behind x error) fun pass => ∀ x ∈ pass.items, x.Fits who callable :=
  C.bind hnext fun _ hpass => C.pure (List.forall_mem_cons.mpr ⟨hx, hpass⟩)

theorem target? {x : Item} (hx : x.Fits who callable) :
    Ok (Set.target? p registry who x) fun object => ∀ id, object = some id → callable id := by
  unfold Set.target?
  split
  · next object hobject => exact C.pure fun id hid => hx.target id (hobject.trans hid)
  · refine C.bind (C.look x.region true none hx.context (by simp)) fun f hf => C.pure fun id hid => ?_
    obtain ⟨e, he, rfl⟩ := Option.map_eq_some_iff.mp hid
    exact hf e he

/-- What a phase does with an item after its object was called, for as long as it goes on with the rest. -/
theorem settled {out : Item × Except Fault Bool} (hout : out.1.Fits who callable) {rest : List Item}
    (hrest : ∀ x ∈ rest, x.Fits who callable) (status : Status) {close : Item → Item}
    (hclose : ∀ x : Item, x.Fits who callable → (close x).Fits who callable) {next : Item → Doing Obj Set.Pass}
    (hnext : ∀ x, Ok (next x) fun pass => ∀ x ∈ pass.items, x.Fits who callable) :
    Ok (match out.2 with
      | .ok _ =>
        if out.1.deferred then return { items := out.1 :: rest, paused := true }
        else return (← next (close out.1)).behind (close out.1) none
      | .error fault =>
        return (← next (p.report out.1 status fault).1).behind (p.report out.1 status fault).1
          (p.report out.1 status fault).2 : Doing Obj Set.Pass) fun pass => ∀ x ∈ pass.items, x.Fits who callable := by
  split
  · split
    · exact C.pure (List.forall_mem_cons.mpr ⟨hout, hrest⟩)
    · exact C.behind (hnext _) (hclose _ hout) _
  · exact C.behind (hnext _) (hout.report p _ _) _

include hset

theorem prepare : ∀ (items : List Item) (failed : Bool), (∀ x ∈ items, x.Fits who callable) →
    Ok (Set.prepare p registry who failed items) fun pass => ∀ x ∈ pass.items, x.Fits who callable
  | [], _, h => C.pure h
  | x :: rest, failed, h => by
    obtain ⟨hx, hrest⟩ := List.forall_mem_cons.mp h
    rw [Set.prepare]
    split
    · exact C.pure h
    · split
      · exact C.behind (prepare rest failed hrest) hx none
      · refine C.bind (C.lookUp hx true) fun f hf => ?_
        split
        · split
          · exact C.pure (List.forall_mem_cons.mpr ⟨hx.defer, hrest⟩)
          · exact C.bind (C.refuseFor hx _ _) fun y hy => C.pure (List.forall_mem_cons.mpr ⟨hy, hrest⟩)
        · next e he =>
          have haimed : ({ x with target := some e.object } : Item).Fits who callable :=
            ⟨hx.context, fun object hobject => Option.some.inj hobject ▸ hf e he⟩
          refine C.bind (C.callFor (writes_mem hset (by simp)) (hf e he) haimed) fun out hout => ?_
          exact C.settled hout hrest _ (fun _ => Item.Fits.ready) fun y => prepare rest y.hasError hrest

theorem commit : ∀ (items : List Item) (failed : Bool), (∀ x ∈ items, x.Fits who callable) →
    Ok (Set.commit p registry who failed items) fun pass => ∀ x ∈ pass.items, x.Fits who callable
  | [], _, h => C.pure h
  | x :: rest, failed, h => by
    obtain ⟨hx, hrest⟩ := List.forall_mem_cons.mp h
    rw [Set.commit]
    split
    · exact C.pure h
    · split
      · exact C.behind (commit rest failed hrest) hx none
      · refine C.bind (C.target? hx) fun object hobject => ?_
        cases object with
        | none => exact C.bind (C.refuseFor hx _ _) fun y hy => C.pure (List.forall_mem_cons.mpr ⟨hy, hrest⟩)
        | some object =>
          refine C.bind (C.callFor (writes_mem hset (by simp)) (hobject object rfl) hx) fun out hout => ?_
          exact C.settled hout hrest _ (fun _ => Item.Fits.finish) fun y => commit rest y.hasError hrest

theorem undo : ∀ items : List Item, (∀ x ∈ items, x.Fits who callable) →
    Ok (Set.undo p registry who items) fun pass => ∀ x ∈ pass.items, x.Fits who callable
  | [], h => C.pure h
  | x :: rest, h => by
    obtain ⟨hx, hrest⟩ := List.forall_mem_cons.mp h
    have ih := undo rest hrest
    rw [Set.undo]
    split
    · exact C.behind ih hx none
    · split
      · exact C.behind ih hx.finish none
      · refine C.bind (C.target? hx) fun object hobject => ?_
        cases object with
        | none => exact C.bind (C.refuseFor hx _ _) fun y hy => C.behind ih hy none
        | some object =>
          refine C.bind (C.callFor (writes_mem hset (by simp)) (hobject object rfl) hx) fun out hout => ?_
          exact C.settled hout hrest _ (fun _ => Item.Fits.finish) fun _ => ih

theorem cleanup : ∀ items : List Item, (∀ x ∈ items, x.Fits who callable) →
    Ok (Set.cleanup p registry who items) fun pass => ∀ x ∈ pass.items, x.Fits who callable
  | [], h => C.pure h
  | x :: rest, h => by
    obtain ⟨hx, hrest⟩ := List.forall_mem_cons.mp h
    have ih := cleanup rest hrest
    rw [Set.cleanup]
    split
    · exact C.behind ih hx none
    · split
      · exact C.behind ih hx.finish none
      · next object hobject =>
        refine C.bind (C.unlock object) fun _ _ => ?_
        have hloose : ({ x with target := none } : Item).Fits who callable := hx.of_eq rfl fun _ h => by cases h
        refine C.bind (C.callFor (writes_mem hset (by simp)) (hx.target object hobject) hloose) fun out hout => ?_
        exact C.behind ih hout.finish _

theorem pass {r : Request} (hr : r.Apt who callable) :
    Ok (Set.pass p registry r) fun out => out.1.Apt who callable := by
  obtain rfl := hr.requester
  have hended {pass : Set.Pass} (hpass : ∀ x ∈ pass.items, x.Fits r.requester callable) :
      (Set.ended r pass).Apt r.requester callable := by
    have hitems : ({ r with items := pass.items } : Request).Apt r.requester callable := ⟨rfl, hr.kind, hpass⟩
    unfold Set.ended
    dsimp only
    split
    · exact hitems.finishAll
    · exact hitems
  rw [Set.pass]
  split
  · exact C.bind (C.prepare hset _ _ hr.items) fun _ hpass => C.pure (hended hpass)
  · exact C.bind (C.commit hset _ _ hr.items) fun _ hpass => C.pure (hended hpass)
  · exact C.bind (C.undo hset _ hr.items) fun _ hpass => C.pure ⟨rfl, hr.kind, hpass⟩
  · exact C.bind (C.cleanup hset _ hr.items) fun _ hpass => C.pure ⟨rfl, hr.kind, hpass⟩
  · exact C.pure hr
  · exact C.pure hr

theorem set_drive : ∀ (phases : Nat) (r : Request) (error : Option Error), r.Apt who callable →
    Ok (Set.drive p registry phases r error) fun out => out.1.Apt who callable
  | 0, _, _, hr => C.pure hr
  | phases + 1, r, error, hr => by
    rw [Set.drive]
    split
    · exact C.pure hr
    · next r' heq =>
      have hr' : r'.Apt who callable := by
        split at heq
        · exact hr.advance heq
        · exact Option.some.inj heq ▸ hr
      split
      · exact C.pure hr'
      · refine C.bind (C.pass hset hr') fun out hout => ?_
        dsimp only
        split
        · exact C.pure hout
        · exact set_drive phases _ _ hout

end Writing

/-- Whatever can be said of all that services do, can be said of every pass of a standard service; and the request
stays apt. -/
theorem run (C : Conduct p registry who callable Ok) {service : Service Obj}
    (hservice : service ∈ Agent.standardServices) (hserves : service.serves who.kind = true) {r : Request}
    (hr : r.Apt who callable) : Ok (service.run p registry r) fun out => out.1.Apt who callable := by
  simp only [Agent.standardServices, List.mem_cons, List.not_mem_nil, or_false] at hservice
  rcases hservice with rfl | rfl | rfl | rfl
  · have hkind : who.kind = .get := eq_of_beq hserves
    exact C.get_run (by simp [hkind, Pdu.Kind.callbacks]) hr
  · have hkind : who.kind = .getNext := eq_of_beq hserves
    exact C.next_run (by simp [hkind, Pdu.Kind.callbacks]) hr
  · have hkind : who.kind = .getBulk := eq_of_beq hserves
    exact C.bulk_run (by simp [hkind, Pdu.Kind.callbacks]) hr
  · exact C.set_drive (eq_of_beq hserves) _ _ _ hr

end Conduct

end Responder
