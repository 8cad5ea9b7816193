import Responder.Proofs.Mediation.Reading
import Responder.Proofs.Set.Passes

/-! Requests that write call objects by licence only. An item keeps what licenses its calls (`Charter.Aimed`)
    through every phase: its target was found by a look-up under the view, the roll-back and the cleanup go to the
    same object, and a store is written only after it has let the item pass. So every turn of a request that writes
    keeps what a run has to keep (`turn_held`), and so does every pass of the service (`write_ensures`). -/

namespace Responder.Charter

variable {Obj : Type} {C : Charter Obj} {registry : Nat} {m : Inbound} {who : Requester} {s t : State Obj} {x y : Item}

/-! ### Items -/

/-- What changes nothing of an item but how far it has come. -/
theorem Aimed.relabel (h : C.Aimed registry m who x) (hindex : y.index = x.index) (hregion : y.region = x.region)
    (hbinding : y.binding = x.binding) (htarget : ∀ object, y.target = some object → x.target = some object)
    (hprepared : y.prepared = true → x.prepared = true ∨ x.target.isSome = true ∧ x.hasError = false)
    (hclear : y.hasError = false → x.hasError = false) : C.Aimed registry m who y := by
  have hanswers (e : Entry) (he : C.Answers registry y e) : C.Answers registry x e := by
    rwa [Answers, hregion] at he
  have hoid : y.oid = x.oid := congrArg Binding.oid hbinding
  refine ⟨asked_of_kept h.asked hindex hregion, fun object hobject => ?_, fun e he b hb => ?_, fun e he b hb hy => ?_⟩
  · rw [hregion]
    obtain ⟨hallows, e, he, heq⟩ := h.target object (htarget object hobject)
    exact ⟨hallows, e, by rwa [Answers, hregion], heq⟩
  · rw [hoid, hregion]
    exact h.named e (hanswers e he) b hb
  · rw [hoid]
    refine h.holds e (hanswers e he) b hb ?_
    rcases hy with hy | ⟨hsome, herror⟩
    · exact hprepared hy
    · obtain ⟨object, hobject⟩ := Option.isSome_iff_exists.mp hsome
      exact Or.inr ⟨Option.isSome_iff_exists.mpr ⟨object, htarget object hobject⟩, hclear herror⟩

/-- It does not matter whether the item is complete, or put off. -/
theorem Aimed.mark (h : C.Aimed registry m who x) (complete deferred : Bool) :
    C.Aimed registry m who { x with complete, deferred } := h.relabel rfl rfl rfl (fun _ => id) Or.inl id

theorem Aimed.finish (h : C.Aimed registry m who x) : C.Aimed registry m who x.finish := h.mark true false

theorem Aimed.setError (h : C.Aimed registry m who x) (status : Status) :
    C.Aimed registry m who (x.setError status) := by
  have hbinding : (x.setError status).binding = x.binding := by
    unfold Item.setError
    split <;> rfl
  refine h.relabel (x.setError_index _) (x.setError_region _) hbinding (fun object hobject => ?_) (fun hp => ?_)
    fun hclear => ?_
  · rwa [x.setError_target] at hobject
  · rw [x.setError_prepared] at hp
    exact Or.inl hp
  · rw [x.hasError_setError, Bool.or_eq_false_iff] at hclear
    exact hclear.1

/-- An item that its target has let pass counts as prepared. -/
theorem Aimed.ready (h : C.Aimed registry m who x) (htarget : x.target.isSome = true) :
    C.Aimed registry m who (Set.ready x) := by
  unfold Set.ready
  split
  · exact h.finish
  · next hclear =>
    rw [Bool.not_eq_true] at hclear
    exact h.relabel rfl rfl rfl (fun _ => id) (fun _ => Or.inr ⟨htarget, hclear⟩) id

/-- An item with a target that was called for it. A store leaves the name of the item as it is, and lets no item
pass that it cannot hold. -/
theorem Aimed.called (h : C.Aimed registry m who x) (target : Option ObjectId)
    (htarget : ∀ object, target = some object →
      C.agent.policy.allows who x.region.lower = true ∧ ∃ e, C.Answers registry x e ∧ e.object = object)
    {edits : List Edit}
    (hstore : ∀ e, C.Answers registry x e → ∀ b, C.stores e.object = some b →
      ({ x with target }.editAll edits).binding = x.binding ∧
        (target.isSome = true → ({ x with target }.editAll edits).hasError = false → b.holds x.oid = true)) :
    C.Aimed registry m who ({ x with target }.editAll edits) := by
  have hregion : ({ x with target }.editAll edits).region = x.region := Item.editAll_region _ _
  have hanswers (e : Entry) : C.Answers registry ({ x with target }.editAll edits) e ↔ C.Answers registry x e := by
    rw [Answers, Answers, hregion]
  refine ⟨asked_of_kept h.asked (Item.editAll_index _ _) hregion, fun object hobject => ?_, fun e he b hb => ?_,
    fun e he b hb hy => ?_⟩
  · rw [Item.editAll_target] at hobject
    obtain ⟨hallows, e, he, heq⟩ := htarget object hobject
    exact ⟨by rwa [hregion], e, (hanswers e).mpr he, heq⟩
  · rw [hanswers] at he
    rw [Item.oid, (hstore e he b hb).1, hregion]
    exact h.named e he b hb
  · rw [hanswers] at he
    obtain ⟨hbinding, hpasses⟩ := hstore e he b hb
    rw [Item.oid, hbinding]
    rcases hy with hy | ⟨hsome, hclear⟩
    · rw [Item.editAll_prepared] at hy
      exact h.holds e he b hb (Or.inl hy)
    · rw [Item.editAll_target] at hsome
      exact hpasses hsome hclear

/-- An item after it was called, however the call ends. -/
theorem Aimed.settle {called : Item × Except Fault Bool} (h : C.Aimed registry m who called.1) {p : Policy}
    {status : Status} {close : Item → Item} (hclose : C.Aimed registry m who (close called.1)) :
    C.Aimed registry m who (Set.settle p status close called).1 := by
  unfold Set.settle
  split
  · dsimp only
    split
    · exact h
    · exact hclose
  · exact (h.setError _).finish

theorem target_settle {called : Item × Except Fault Bool} {p : Policy} {status : Status} {close : Item → Item}
    (hclose : ∀ x, (close x).target = x.target) :
    (Set.settle p status close called).1.target = called.1.target := by
  unfold Set.settle
  split
  · dsimp only
    split
    · rfl
    · exact hclose _
  · exact Item.setError_target _ _

/-! ### Calls -/

variable [ManagedObject Obj] [Store.Among Obj]

/-- No two entries can be meant by an item of which one is that of a store. -/
theorem Sound.unique (hC : C.Sound) (hx : Asked m.pdu who.context x) {e e' : Entry}
    (he : C.Answers registry x e) (he' : C.Answers registry x e') (hstore : (C.stores e.object).isSome = true) :
    e' = e := by
  obtain ⟨b, -, hregion⟩ := hx
  obtain ⟨hmem, hover⟩ := he
  obtain ⟨hmem', hover'⟩ := he'
  rw [hregion, Registry.overlaps_point] at hover hover'
  exact (hC.apart registry e hmem hstore).eq_of_seen hmem' hmem hover'.1 hover.1 hover'.2 hover.2

theorem Sound.contains (hC : C.Sound) (hx : Asked m.pdu who.context x) {e : Entry} (he : C.Answers registry x e)
    {b : Store} (hb : C.stores e.object = some b) : (ManagedObject.region b).contains x.region.lower = true := by
  obtain ⟨a, -, hregion⟩ := hx
  obtain ⟨hmem, hover⟩ := he
  have hcontains : e.region.contains x.region.lower = true := by
    rw [hregion] at hover ⊢
    exact (Registry.overlaps_point.mp hover).2
  have hrange := hC.inside registry e hmem b hb
  exact (congrArg (fun r : Range => r.contains x.region.lower) hrange).symm.trans hcontains

section Calls
variable (hC : C.Sound) (hs : C.Upheld s) (hx : C.Aimed registry m who x)
include hs hx

/-- An object that answers for the variable of the item is the store that can be meant by it. -/
theorem Upheld.store (hC : C.Sound) {object : ObjectId} (hobject : ∃ e, C.Answers registry x e ∧ e.object = object)
    {e : Entry} (he : C.Answers registry x e) {b₀ : Store} (hb₀ : C.stores e.object = some b₀) :
    C.stores object = some b₀ ∧ ∃ b, s.objects object = Store.Among.put b ∧ b.WellFormed ∧ b.shell = b₀.shell := by
  obtain ⟨e', he', rfl⟩ := hobject
  obtain rfl := hC.unique hx.asked he he' (Option.isSome_iff_exists.mpr ⟨b₀, hb₀⟩)
  exact ⟨hb₀, hs.stores _ b₀ hb₀⟩

include hC

theorem prepare_aimed {object : ObjectId} (hallows : C.agent.policy.allows who x.region.lower = true)
    (hobject : ∃ e, C.Answers registry x e ∧ e.object = object) :
    C.Aimed registry m who (s.call .prepare who object { x with target := some object }).1.1 := by
  refine hx.called (some object) (fun other hother => Option.some.inj hother ▸ ⟨hallows, hobject⟩) ?_
  intro e he b₀ hb₀
  obtain ⟨-, b, hput, hb, hshell⟩ := hs.store hx hC hobject he hb₀
  have hitem := congrArg Prod.fst (State.call_put hput .prepare who { x with target := some object }).1
  rw [Store.call_prepare] at hitem
  have hedited := b.editAll_objection { x with target := some object } x.binding
  refine ⟨(congrArg Item.binding hitem).trans hedited.2.2.1, fun _ hclear => ?_⟩
  have herror := (congrArg Item.hasError hitem).symm.trans hclear
  rw [hedited.2.2.2.2.2.2.1, Bool.or_eq_false_iff] at herror
  have hregion : (ManagedObject.region b).contains x.oid = true := by
    rw [hx.named e he b₀ hb₀, Store.region_of_shell hshell]
    exact hC.contains hx.asked he hb₀
  have hpasses : b.passes x.binding = true := by
    rw [Store.passes, herror.2]
    rfl
  rw [← Store.holds_of_shell hshell]
  exact (Store.fits_of_passes hb hregion hpasses).holds

/-- A store leaves an item that it is called for later as it is, but for what it remembers of the variable. -/
theorem later_aimed (callback : Callback) (hlater : callback = .commit ∨ callback = .undo ∨ callback = .cleanup)
    {target : Option ObjectId} (htarget : target = x.target ∨ target = none) {object : ObjectId}
    (hobject : ∃ e, C.Answers registry x e ∧ e.object = object) :
    C.Aimed registry m who (s.call callback who object { x with target }).1.1 := by
  refine hx.called target (fun other hother => ?_) ?_
  · rcases htarget with rfl | rfl
    · exact hx.target other hother
    · cases hother
  · intro e he b₀ hb₀
    obtain ⟨-, b, hput, -, hshell⟩ := hs.store hx hC hobject he hb₀
    have hitem := congrArg Prod.fst (State.call_put hput callback who { x with target }).1
    obtain ⟨hbinding, herror⟩ := b.editAll_later hlater who { x with target }
    refine ⟨(congrArg Item.binding hitem).trans hbinding, fun hsome hclear => hx.holds e he b₀ hb₀ (Or.inr ⟨?_, ?_⟩)⟩
    · rcases htarget with rfl | rfl
      · exact hsome
      · cases hsome
    · exact herror.symm.trans ((congrArg Item.hasError hitem).symm.trans hclear)

end Calls

/-! ### Look-ups and licences -/

variable (C) in
/-- Where a request that writes is served. The others keep what a run has to keep. -/
def scene (registry : Nat) (who : Requester) : Set.Scene Obj := ⟨C.agent.policy, registry, who, fun _ => C.Upheld⟩

theorem look_found (hs : C.Upheld s) (hx : Asked m.pdu who.context x) {f : Finding}
    (hf : ((C.scene registry who).look x).Yields (C.scene registry who).rely s f t) :
    C.Upheld t ∧ ∀ e, f.entry = some e →
      C.agent.policy.allows who x.region.lower = true ∧ C.Answers registry x e := by
  obtain ⟨ht, hfound⟩ := (Activity.ensures_iff.mp (look_ensures hs _ _ _)).2 f t hf
  refine ⟨ht, fun e he => ?_⟩
  obtain ⟨hanswers, haccepts⟩ := hfound e he
  exact ⟨(hx.concedes haccepts).2, hanswers⟩

/-- An item is aimed at its target, or at an object that can be meant by it and may be touched. -/
theorem aim_found (hs : C.Upheld s) (hx : C.Aimed registry m who x) {object : Option ObjectId}
    (h : ((C.scene registry who).aim x).Yields (C.scene registry who).rely s object t) :
    C.Upheld t ∧ (x.target.isSome = true → object = x.target) ∧ ∀ id, object = some id →
      C.agent.policy.allows who x.region.lower = true ∧ ∃ e, C.Answers registry x e ∧ e.object = id := by
  unfold Set.Scene.aim Set.target? at h
  split at h
  · next target htarget =>
    obtain ⟨rfl, rfl⟩ := Activity.yields_pure.mp h
    exact ⟨hs, fun _ => htarget.symm, fun id hid => hx.target id (htarget.trans hid)⟩
  · next htarget =>
    have hlook : (do
        let found ← Lookup.run ⟨registry, C.agent.policy.query who x.region true, none⟩ C.agent.policy.patience
        return found.entry.map (·.object) : Doing Obj (Option ObjectId)).Ensures (fun _ => C.Upheld) C.Upheld s
          fun object t => C.Upheld t ∧ ∀ id, object = some id →
            C.agent.policy.allows who x.region.lower = true ∧ ∃ e, C.Answers registry x e ∧ e.object = id := by
      rw [Activity.ensures_bind]
      refine (look_ensures hs _ _ _).mono (fun _ => id) ?_
      rintro f t ⟨ht, hfound⟩
      refine ⟨ht, fun id hid => ?_⟩
      obtain ⟨e, he, rfl⟩ := Option.map_eq_some_iff.mp hid
      obtain ⟨hanswers, haccepts⟩ := hfound e he
      exact ⟨(hx.asked.concedes haccepts).2, e, hanswers, rfl⟩
    obtain ⟨ht, hobject⟩ := (Activity.ensures_iff.mp hlook).2 object t h
    exact ⟨ht, fun hsome => by simp [htarget] at hsome, hobject⟩

omit [ManagedObject Obj] [Store.Among Obj] in
/-- What licenses the calls for an item. What is written or taken back was let pass before. -/
theorem Aimed.licenses (hx : C.Aimed registry m who x) (hm : C.submitted m) (hvouched : C.agent.Vouches m who)
    (hkind : m.pdu.kind = .set) (hallows : C.agent.policy.allows who x.region.lower = true) {callback : Callback}
    {object : ObjectId} {target : Option ObjectId}
    (hpassed : callback = .commit ∨ callback = .undo → (∃ e, C.Answers registry x e ∧ e.object = object) ∧
      (x.prepared = true ∨ x.target.isSome = true ∧ x.hasError = false)) :
    C.Licenses who callback object { x with target } where
  vouched := by
    obtain ⟨b, hb, hregion⟩ := hx.asked
    have hlower : x.region.lower = b.oid := congrArg (fun r : Region => r.lower) hregion
    exact ⟨m, hm, hvouched, fun _ => ⟨b, hb, hlower ▸ hallows⟩⟩
  harmless hwrites b hb := by
    obtain ⟨⟨e, he, rfl⟩, hlet⟩ := hpassed hwrites
    have hoid : x.oid = x.region.lower := hx.named e he b hb
    exact ⟨hvouched.sender.1.trans hkind, hx.holds e he b hb hlet, by rwa [← hoid] at hallows⟩

/-! ### Turns -/

/-- What serving an open item comes to. -/
structure Kept (C : Charter Obj) (registry : Nat) (m : Inbound) (who : Requester) (phase : Phase) (x y : Item)
    (t : State Obj) : Prop where
  upheld : C.Upheld t
  aimed : C.Aimed registry m who y
  prepare : phase = .prepare → y.complete = true → y.target.isSome = true ∨ y.hasError = true
  commit : phase = .commit → y.target = x.target

/-- Serving an item keeps what licenses its calls. -/
theorem kept_of_served (hC : C.Sound) (hm : C.submitted m) (hvouched : C.agent.Vouches m who)
    (hkind : m.pdu.kind = .set) (hs : C.Upheld s) (hx : C.Aimed registry m who x) {phase : Phase}
    (hopen : x.complete = false) (hclear : phase = .prepare ∨ phase = .commit → x.hasError = false)
    (htarget : phase = .commit → x.target.isSome = true) {later : Option Error}
    (h : Set.Served (C.scene registry who) phase x s (y, later) t) : Kept C registry m who phase x y t := by
  generalize hout : (y, later) = out at h
  cases h with
  | late hf hnone hlock =>
    cases hout
    refine ⟨(look_found hs hx.asked hf).1, hx.mark _ _, fun _ hc => ?_, by simp⟩
    exact absurd (hopen.symm.trans hc) Bool.false_ne_true
  | refused hf hnone hlock =>
    cases hout
    refine ⟨(look_found hs hx.asked hf).1.refuse _ _ _ _, (hx.setError _).finish, fun _ _ => Or.inr ?_, by simp⟩
    have herror := Item.hasError_setError x (Set.absence (C.agent.policy.query who x.region true) x.oid)
    rw [Set.isError_absence, Bool.or_true] at herror
    exact herror
  | @prepared _ _ t f e hf hsome =>
    obtain ⟨ht, hfound⟩ := look_found hs hx.asked hf
    obtain ⟨hallows, hanswers⟩ := hfound e hsome
    have hcalled := prepare_aimed hC ht hx hallows ⟨e, hanswers, rfl⟩
    have hsome : (t.call .prepare who e.object { x with target := some e.object }).1.1.target.isSome = true := by
      rw [show (t.call .prepare who e.object { x with target := some e.object }).1.1.target = some e.object from
        Item.editAll_target _ _]
      rfl
    have hready (x : Item) : (Set.ready x).target = x.target := by
      unfold Set.ready
      split <;> rfl
    obtain rfl : y = _ := congrArg Prod.fst hout
    refine ⟨ht.call (hx.licenses hm hvouched hkind hallows (by simp)), hcalled.settle (hcalled.ready hsome),
      fun _ _ => Or.inl ?_, by simp⟩
    rw [target_settle hready]
    exact hsome
  | stranded ha =>
    obtain ⟨-, haim, -⟩ := aim_found hs hx ha
    have hsome := htarget rfl
    rw [← haim hsome] at hsome
    cases hsome
  | @committed _ _ t object ha =>
    obtain ⟨ht, haim, hobject⟩ := aim_found hs hx ha
    obtain ⟨hallows, hanswers⟩ := hobject object rfl
    have hcalled := later_aimed hC ht hx .commit (Or.inl rfl) (Or.inl rfl) hanswers
    obtain rfl : y = _ := congrArg Prod.fst hout
    have hready := And.intro (htarget rfl) (hclear (Or.inr rfl))
    refine ⟨ht.call (hx.licenses hm hvouched hkind hallows fun _ => ⟨hanswers, Or.inr hready⟩),
      hcalled.settle hcalled.finish, by simp, fun _ => ?_⟩
    exact (target_settle Item.finish_target).trans (Item.editAll_target _ _)
  | unprepared hp =>
    cases hout
    exact ⟨hs, hx.finish, by simp, by simp⟩
  | kept hp ha =>
    cases hout
    exact ⟨(aim_found hs hx ha).1.refuse _ _ _ _, (hx.setError _).finish, by simp, by simp⟩
  | @undone _ _ t object hp ha =>
    obtain ⟨ht, haim, hobject⟩ := aim_found hs hx ha
    obtain ⟨hallows, hanswers⟩ := hobject object rfl
    have hcalled := later_aimed hC ht hx .undo (Or.inr (Or.inl rfl)) (Or.inl rfl) hanswers
    obtain rfl : y = _ := congrArg Prod.fst hout
    exact ⟨ht.call (hx.licenses hm hvouched hkind hallows fun _ => ⟨hanswers, Or.inl hp⟩),
      hcalled.settle hcalled.finish, by simp, by simp⟩
  | untouched hn =>
    cases hout
    exact ⟨hs, hx.finish, by simp, by simp⟩
  | @cleaned _ _ object hsome =>
    obtain ⟨hallows, hanswers⟩ := hx.target object hsome
    have ht : C.Upheld (s.unlock registry who.transaction object).2 := C.lasting.locks (s.bare_unlock _ _ _) hs
    have hcalled := later_aimed hC ht hx .cleanup (Or.inr (Or.inr rfl)) (Or.inr rfl) hanswers
    obtain rfl : y = _ := congrArg Prod.fst hout
    exact ⟨ht.call (hx.licenses hm hvouched hkind hallows (by simp)), hcalled.finish, by simp, by simp⟩

/-- A request that is served for somebody. -/
structure Held (C : Charter Obj) (registry : Nat) (m : Inbound) (who : Requester) (r : Request) (s : State Obj) :
    Prop where
  upheld : C.Upheld s
  serves : C.Serves registry m r
  requester : r.requester = who

variable {r : Request}

omit [ManagedObject Obj] [Store.Among Obj] in
theorem Serves.poised (h : C.Serves registry m r) (hkind : m.pdu.kind = .set) {r' : Request}
    (hrequester : r'.requester = r.requester) (hpdu : r'.pdu = r.pdu) (hpoised : C.Poised registry m r') :
    C.Serves registry m r' where
  submitted := h.submitted
  vouched := hrequester ▸ h.vouched
  pdu := hpdu.trans h.pdu
  reading hother := absurd hkind hother
  items hget := by simp [hkind] at hget
  writing _ := hpoised

theorem Serves.writes (h : C.Serves registry m r) (hkind : m.pdu.kind = .set) :
    Set.Writes (C.scene registry r.requester) r :=
  ⟨rfl, h.pdu ▸ hkind, (h.writing hkind).status, (h.writing hkind).phase⟩

omit [ManagedObject Obj] [Store.Among Obj] in
/-- What happens to all items alike, and changes neither their targets nor what they are aimed at. -/
theorem Poised.map (h : C.Poised registry m r) {r' : Request} {f : Item → Item}
    (hr' : r'.requester = r.requester ∧ r'.status = r.status ∧ r'.items = r.items.map f)
    (hf : ∀ x, C.Aimed registry m r.requester x → C.Aimed registry m r.requester (f x) ∧ (f x).target = x.target)
    (hphase : r'.phase ≠ .process)
    (hprepare : r'.phase = .prepare → r'.hasError = false →
      ∀ x ∈ r.items, (f x).complete = true → x.target.isSome = true)
    (hcommit : r'.phase = .commit → ∀ x ∈ r.items, x.target.isSome = true) : C.Poised registry m r' := by
  obtain ⟨hrequester, hstatus, hitems⟩ := hr'
  have hmapped {P : Item → Prop} (hP : ∀ x ∈ r.items, P (f x)) : ∀ y ∈ r'.items, P y := by
    rw [hitems]
    exact List.forall_mem_map.mpr hP
  refine ⟨hstatus ▸ h.status, hphase, hmapped fun x hx => ?_, fun hp hclear => hmapped fun x hx hc => ?_,
    fun hp => hmapped fun x hx => ?_⟩
  · rw [hrequester]
    exact (hf x (h.items x hx)).1
  · rw [(hf x (h.items x hx)).2]
    exact hprepare hp hclear x hx hc
  · rw [(hf x (h.items x hx)).2]
    exact hcommit hp x hx

omit [ManagedObject Obj] [Store.Among Obj] in
/-- A request that is taken up again is served as before. -/
theorem Serves.retry (h : C.Serves registry m r) : C.Serves registry m r.retry where
  submitted := h.submitted
  vouched := h.vouched
  pdu := h.pdu
  reading := h.reading
  items hget := List.forall_mem_map.mpr (h.items hget)
  writing hset := by
    have hpoised := h.writing hset
    refine hpoised.map ⟨rfl, rfl, rfl⟩ (fun x hx => ⟨hx.mark _ _, rfl⟩) hpoised.phase (fun hp hclear => ?_)
      hpoised.commit
    exact hpoised.prepare hp (hasError_retry r ▸ hclear)

omit [ManagedObject Obj] [Store.Among Obj] in
/-- One item of a request is served. -/
theorem Poised.replace (h : C.Poised registry m r) {done rest : List Item} (hitems : r.items = done ++ x :: rest)
    (hy : C.Aimed registry m r.requester y)
    (hclear : r.phase = .prepare ∨ r.phase = .commit → r.hasError = false)
    (hprepare : r.phase = .prepare → y.complete = true → y.target.isSome = true ∨ y.hasError = true)
    (hcommit : r.phase = .commit → y.target = x.target) :
    C.Poised registry m { r with items := done ++ y :: rest } := by
  have hx : x ∈ r.items := hitems ▸ List.mem_append_right _ List.mem_cons_self
  refine ⟨h.status, h.phase, forall_replace (hitems ▸ h.items) hy, fun hp hclear' => ?_, fun hp => ?_⟩
  · have herror := hasError_replace hitems (hclear (Or.inl hp)) y
    refine forall_replace (hitems ▸ h.prepare hp (hclear (Or.inl hp))) fun hc => ?_
    exact (hprepare hp hc).resolve_right (by rw [← herror, hclear']; exact Bool.false_ne_true)
  · refine forall_replace (hitems ▸ h.commit hp) ?_
    rw [hcommit hp]
    exact h.commit hp x hx

/-- A turn keeps what licenses the calls of the request. -/
theorem turn_held (hC : C.Sound) (hkind : m.pdu.kind = .set) {a b : Set.Moment Obj}
    (hturn : Set.Turn (C.scene registry who) a b) (h : Held C registry m who a.request a.state) :
    Held C registry m who b.request b.state := by
  obtain ⟨hs, hserves, rfl⟩ := h
  have hpoised := hserves.writing hkind
  cases hturn with
  | @serve r error later s t done rest x y hpass hopen hclear hserved =>
    have hx : x ∈ r.items := hpass.items ▸ List.mem_append_right _ List.mem_cons_self
    have hkept := kept_of_served hC hserves.submitted hserves.vouched hkind hs (hpoised.items x hx) hopen
      (fun hp => hasError_of_mem (hclear hp) hx) (fun hp => hpoised.commit hp x hx) hserved
    exact ⟨hkept.upheld, hserves.poised hkind rfl rfl
      (hpoised.replace hpass.items hkept.aimed hclear hkept.prepare hkept.commit), rfl⟩
  | @wait r error s t x hphase hwait =>
    exact ⟨(Activity.ensures_iff.mp (look_ensures hs _ _ _)).1 t hwait, hserves, rfl⟩
  | @giveUp r error s hgive =>
    refine ⟨hs, hserves.poised hkind rfl rfl (hpoised.map ⟨rfl, rfl, rfl⟩ (fun x hx => ?_) hpoised.phase ?_ ?_), rfl⟩
    · split
      · exact ⟨hx, rfl⟩
      · exact ⟨hx.finish, rfl⟩
    · intro _ hclear
      rw [hasError_finishAll, hgive.2] at hclear
      cases hclear
    · exact hpoised.commit
  | @advance r r' error s hover hr =>
    obtain ⟨phase, hnext, rfl⟩ := Set.advance?_eq hr
    have hwrites := hserves.writes hkind
    refine ⟨hs, hserves.poised hkind rfl rfl (hpoised.map (f := Item.restart) ⟨rfl, rfl, rfl⟩
      (fun x hx => ⟨hx.mark _ _, rfl⟩) (hwrites.following hnext).2.1
      (fun _ _ x _ hc => absurd hc Bool.false_ne_true) fun hp x hx => ?_), rfl⟩
    obtain rfl : phase = .commit := hp
    cases hwrites.onward hnext with
    | commit hphase hclear =>
      have hstart : r.phase ≠ .start := fun hp => absurd (hphase.symm.trans hp) (by decide)
      exact hpoised.prepare hphase hclear x hx (hwrites.all_complete hover hstart x hx)
  | @retry r s t hr hrely =>
    exact ⟨hrely, hserves.retry, rfl⟩

/-- One pass of the service that writes. -/
theorem write_ensures (hC : C.Sound) (hkind : m.pdu.kind = .set) (h : C.Serves registry m r)
    (hrested : r.phase = .start ∨ ∀ x ∈ r.items, x.deferred = false) (hs : C.Upheld s) :
    (Set.run C.agent.policy registry r).Ensures (fun _ => C.Upheld) C.Upheld s fun out t =>
      C.Upheld t ∧ C.Serves registry m out.1 := by
  have hturns {b : Set.Moment Obj} (hb : Set.Turns (C.scene registry r.requester) ⟨r, none, s⟩ b) :
      Held C registry m r.requester b.request b.state := by
    induction hb with
    | refl => exact ⟨hs, h, rfl⟩
    | tail _ hturn ih => exact turn_held hC hkind hturn ih
  have hrested : ¬(r.phase = .start ∨ r.isPhaseComplete = true) → ∀ x ∈ r.items, x.deferred = false :=
    fun hn => hrested.resolve_left fun hp => hn (Or.inl hp)
  refine (Set.run_ensures (S := C.scene registry r.requester) (h.writes hkind) hrested).mono (fun t ht => ?_) ?_
  · obtain ⟨r', error, hreached⟩ := ht.reaches
    exact (hturns hreached).upheld
  · intro out t ht
    exact ⟨(hturns ht.turns).upheld, (hturns ht.turns).serves⟩

end Responder.Charter
