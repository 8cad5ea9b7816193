import Responder.Proofs.Agent
import Responder.Proofs.Set.Passes
import Responder.Proofs.Store

/-! What a request that writes comes to where every object is a store and nobody else holds a lock. Each variable
    is judged by the state before the request (`Case.verdict`). The first one that fails is reported and nothing is
    written; if none fails, all are written in their order (`answered_of_admits`). -/

namespace Responder

/-! ### Writing in order -/

/-- The store with bindings written to it, the first one first. -/
def Store.writeAll (b : Store) (as : List Binding) : Store := as.foldl (fun b a => b.write a.oid a.value) b

/-- Of the values for one variable, the last one is left. -/
theorem Store.value?_writeAll {b : Store} {as : List Binding} {o : Oid} (hb : b.WellFormed)
    (h : ∀ a ∈ as, b.holds a.oid = true) : (b.writeAll as).value? o =
      ((as.filter (·.oid = o)).getLast?.map (·.value)).or (b.value? o) := by
  induction as generalizing b with
  | nil => rfl
  | cons a as ih =>
    have ha := h a List.mem_cons_self
    have hwritten : ∀ x ∈ as, (b.write a.oid a.value).holds x.oid = true := by
      rw [holds_of_shell shell_write]
      exact fun x hx => h x (List.mem_cons_of_mem _ hx)
    rw [writeAll, List.foldl_cons, ← writeAll, ih (hb.write ha) hwritten, value?_write hb ha, List.filter_cons]
    by_cases ho : a.oid = o
    · simp only [ho, decide_true, if_true, List.getLast?_cons]
      cases (as.filter (·.oid = o)).getLast? <;> rfl
    · simp only [ho, decide_false, Bool.false_eq_true, if_false, if_neg fun heq : o = a.oid => ho heq.symm]

namespace Set

/-- A request that writes, and what it finds: the state before it, and the store that each object is. -/
structure Case (Obj : Type) where
  policy : Policy
  registry : Nat
  who : Requester
  pdu : Pdu
  before : State Obj
  stores : ObjectId → Store

namespace Case
variable {Obj : Type} (C : Case Obj)

/-- The request is served with nobody else about. -/
def scene : Scene Obj := ⟨C.policy, C.registry, C.who, fun _ _ => False⟩

def entries : List Entry := (C.before.registry C.registry).entries

/-- The object that answers for an identifier. -/
def owner? (o : Oid) : Option ObjectId := Registry.answering? C.entries C.who.context o

/-- Whether the view lets the requester write a variable. -/
def allows (o : Oid) : Bool := (C.policy.query C.who (.point o) true).allows o

/-- What becomes of a binding, by the state before the request. -/
def verdict (a : Binding) : Status :=
  if C.allows a.oid = true then
    match C.owner? a.oid with
    | some id => (C.stores id).verdict a
    | none => .noCreation
  else .noAccess

def fails (a : Binding) : Bool := (C.verdict a).isError

/-- The bindings that an object answers for. -/
def askedOf (id : ObjectId) (as : List Binding) : List Binding := as.filter fun a => C.owner? a.oid = some id

/-- What an object is to be with some of the bindings written. -/
def written (as : List Binding) (id : ObjectId) : Store := (C.stores id).writeAll (C.askedOf id as)

/-- What an object is to be in the end. -/
def outcome : ObjectId → Store := if C.pdu.bindings.any C.fails then C.stores else C.written C.pdu.bindings

/-- The response: it reports the first binding that fails. -/
def answer : Pdu :=
  { C.pdu.toResponse with
    errorStatus := (((C.pdu.bindings.map C.verdict).find? Status.isError).getD .noError).code
    errorIndex :=
      match C.pdu.bindings.findIdx? C.fails with
      | some i => Request.clampIndex (i + 1)
      | none => 0
    bindings := C.pdu.bindings }

end Case

variable {Obj : Type} [ManagedObject Obj] [Store.Among Obj] {C : Case Obj}

/-! ### States -/

/-- The state is that before the request but for locks, and for what the stores are. -/
structure Case.Shows (C : Case Obj) (stores : ObjectId → Store) (s : State Obj) : Prop where
  entries : (s.registry C.registry).entries = C.entries
  locks : (s.registry C.registry).locks.OwnedBy C.who.transaction
  stores : ∀ e ∈ C.entries, s.objects e.object = Store.Among.put (stores e.object)
  others : ∀ j, (∀ e ∈ C.entries, e.object ≠ j) → s.objects j = C.before.objects j
  sent : s.sent = C.before.sent

section Shows
variable {stores : ObjectId → Store} {s t : State Obj} {item : Item} {a : Binding}

theorem Case.Shows.of_bare (h : C.Shows stores s) (hbare : t.bare = s.bare)
    (hlocks : (t.registry C.registry).locks.OwnedBy C.who.transaction) : C.Shows stores t where
  entries := (State.entries_eq_of_bare hbare _).trans h.entries
  locks := hlocks
  stores e he := (congrFun (State.objects_eq_of_bare hbare) _).trans (h.stores e he)
  others j hj := (congrFun (State.objects_eq_of_bare hbare) j).trans (h.others j hj)
  sent := (State.sent_eq_of_bare hbare).trans h.sent

/-- A look-up does not wait, and finds what answers for the variable, if the view lets the requester write it. -/
theorem Case.Shows.look (h : C.Shows stores s) (hordered : Registry.Ordered C.entries) (item : Item) :
    (C.scene.look item).Ensures C.scene.rely (fun _ => False) s fun f t => C.Shows stores t ∧ f.lock ≠ .timedOut ∧
      ∀ o, item.region = (Region.point o).inContext (some C.who.context) →
        f.entry = if C.allows o = true then Registry.seenAt? C.entries C.who.context o else none := by
  have hfree : Lookup.Free ⟨C.registry, C.policy.query C.who item.region true, some (C.policy.terms C.who)⟩ s :=
    Lookup.free_of_ownedBy rfl h.locks
  refine (Lookup.run_free C.policy.patience hfree).mono (fun _ => id) fun f t hplain => ?_
  refine ⟨h.of_bare hplain.bare (hplain.ownedBy rfl h.locks), hplain.lock, fun o hregion => ?_⟩
  rw [hplain.entry, Registry.find?_candidates_point (h.entries ▸ hordered) s.objects hregion, h.entries]
  rfl

theorem Case.Shows.call (h : C.Shows stores s) (callback : Callback) {id : ObjectId}
    (hid : ∃ e ∈ C.entries, e.object = id) {reaction : Reaction Store Bool}
    (hreaction : ManagedObject.call callback C.scene.who item (stores id) = reaction) :
    (s.call callback C.scene.who id item).1 = (item.editAll reaction.edits, reaction.result) ∧
      C.Shows (Function.update stores id reaction.object) (s.call callback C.scene.who id item).2 := by
  obtain ⟨e, he, rfl⟩ := hid
  obtain ⟨hcalled, hobject⟩ := State.call_put (h.stores e he) callback C.scene.who item
  rw [hreaction] at hcalled hobject
  refine ⟨hcalled, h.entries, h.locks, fun e' he' => ?_, fun j hj => ?_, h.sent⟩
  · by_cases heq : e'.object = e.object
    · rw [heq, Function.update_self, hobject]
    · rw [Function.update_of_ne heq]
      exact (if_neg heq).trans (h.stores e' he')
  · exact (if_neg fun heq => hj e he heq.symm).trans (h.others j hj)

theorem Case.Shows.call_same (h : C.Shows stores s) (callback : Callback) {id : ObjectId}
    (hid : ∃ e ∈ C.entries, e.object = id) {edits : List Edit} {result : Except Fault Bool}
    (hreaction : ManagedObject.call callback C.scene.who item (stores id) = ⟨stores id, edits, result⟩) :
    (s.call callback C.scene.who id item).1 = (item.editAll edits, result) ∧
      C.Shows stores (s.call callback C.scene.who id item).2 := by
  have hcall := h.call callback hid hreaction
  rwa [Function.update_eq_self] at hcall

end Shows

/-! ### Items -/

/-- What an item is, for its binding. -/
structure Case.Marked (C : Case Obj) (phase : Phase) (failed : Bool) (a : Binding) (x : Item) : Prop where
  region : x.region = (Region.point a.oid).inContext (some C.who.context)
  binding : x.binding = a
  rested : x.deferred = false
  owner : ∀ id, x.target = some id → C.owner? a.oid = some id
  aimed : phase ≠ .cleanup → x.prepared = true → x.target ≠ none
  found : phase = .commit → x.target ≠ none
  blank : phase ≠ .commit → phase ≠ .cleanup → x.undoValue = none
  /-- As long as nothing fails, what is over has been judged. -/
  passed : phase = .prepare → failed = false → x.complete = true → C.fails a = false ∧ x.target ≠ none

section Marked
variable {phase : Phase} {failed : Bool} {a : Binding} {x item item' : Item} {s t : State Obj} {later : Option Error}
  {stores : ObjectId → Store}

theorem settle_ok {p : Policy} {status : Status} {close : Item → Item} {i : Item} {b : Bool} (h : i.deferred = false) :
    settle p status close (i, .ok b) = (close i, none) := by
  simp [settle, h]

theorem ready_eq (i : Item) :
    ready i = { i with prepared := i.prepared || !i.hasError, complete := true, deferred := false } := by
  unfold ready
  cases h : i.hasError <;> simp [Item.finish]

omit [ManagedObject Obj] [Store.Among Obj] in
theorem Case.Marked.weaken (h : C.Marked phase false a x) (failed : Bool) : C.Marked phase failed a x :=
  { h with passed := fun hp _ => h.passed hp rfl }

omit [ManagedObject Obj] [Store.Among Obj] in
theorem Case.mem_of_owner? {o : Oid} {id : ObjectId} (h : C.owner? o = some id) : ∃ e ∈ C.entries, e.object = id := by
  obtain ⟨e, he, hid, -⟩ := Registry.exists_of_answering? h
  exact ⟨e, he, hid⟩

omit [ManagedObject Obj] [Store.Among Obj] in
theorem Case.verdict_of_unseen (item : Item)
    (h : (if C.allows a.oid = true then Registry.seenAt? C.entries C.who.context a.oid else none) = none) :
    C.verdict a = absence (C.scene.policy.query C.scene.who item.region true) a.oid := by
  show (if C.allows a.oid = true then _ else _) = if C.allows a.oid = true then Status.noCreation else .noAccess
  split
  · next hallows =>
    rw [if_pos hallows] at h
    rw [Case.owner?, Registry.answering?, h, Option.map_none]
  · rfl

omit [ManagedObject Obj] [Store.Among Obj] in
theorem Case.verdict_of_seen {e : Entry}
    (h : (if C.allows a.oid = true then Registry.seenAt? C.entries C.who.context a.oid else none) = some e) :
    C.owner? a.oid = some e.object ∧ C.verdict a = (C.stores e.object).verdict a := by
  rw [Option.ite_none_right_eq_some] at h
  obtain ⟨hallows, hseen⟩ := h
  have howner : C.owner? a.oid = some e.object := by
    rw [Case.owner?, Registry.answering?, hseen, Option.map_some]
  exact ⟨howner, by rw [Case.verdict, if_pos hallows, howner]⟩

omit [ManagedObject Obj] [Store.Among Obj] in
theorem Case.Marked.refuse (hx : C.Marked .prepare false a item) (status : Status) :
    C.Marked .prepare true a (item.setError status).finish where
  region := (Item.setError_region _ _).trans hx.region
  binding := (Item.setError_binding _ _).trans hx.binding
  rested := rfl
  owner id hid := hx.owner id ((Item.setError_target _ _).symm.trans hid)
  aimed hp hprepared hnone := hx.aimed hp ((Item.setError_prepared _ _).symm.trans hprepared)
    ((Item.setError_target _ _).symm.trans hnone)
  found := by simp
  blank hcommit hcleanup := (Item.setError_undoValue _ _).trans (hx.blank hcommit hcleanup)
  passed := by simp

/-- Preparing an item judges its binding, and writes nothing. -/
theorem Case.Marked.prepare (hx : C.Marked .prepare false a item) (hordered : Registry.Ordered C.entries)
    (hclear : item.hasError = false) (hs : C.Shows C.stores s)
    (hserved : Served C.scene .prepare item s (item', later) t) :
    later = none ∧ C.Shows C.stores t ∧ item'.hasError = C.fails a ∧
      (item'.hasError = true → item'.status = C.verdict a) ∧ C.Marked .prepare item'.hasError a item' := by
  have hlook {f : Finding} {t : State Obj} (hf : (C.scene.look item).Yields C.scene.rely s f t) :=
    (Activity.ensures_iff.mp (hs.look hordered item)).2 f t hf
  have hoid : item.oid = a.oid := congrArg Binding.oid hx.binding
  generalize hout : (item', later) = out at hserved
  cases hserved with
  | late hf hnone hlock => exact absurd hlock (hlook hf).2.1
  | refused hf hnone hlock =>
    obtain ⟨ht, -, hentry⟩ := hlook hf
    obtain ⟨rfl, rfl⟩ := Prod.mk.inj hout
    rw [hoid, ← C.verdict_of_unseen item ((hentry a.oid hx.region).symm.trans hnone)]
    have hfails : C.fails a = true := by
      rw [Case.fails, C.verdict_of_unseen item ((hentry a.oid hx.region).symm.trans hnone), isError_absence]
    have herror : (item.setError (C.verdict a)).hasError = C.fails a := by
      rw [Item.hasError_setError, hclear, Bool.false_or, Case.fails]
    refine ⟨rfl, ⟨ht.entries, ht.locks, ht.stores, ht.others, ht.sent⟩, herror, fun _ => ?_, ?_⟩
    · simp [State.refuse, Item.finish, Item.setError, hclear]
    · exact (herror.trans hfails).symm ▸ hx.refuse _
  | @prepared _ _ u f e hf hsome =>
    obtain ⟨hu, -, hentry⟩ := hlook hf
    obtain ⟨howner, hverdict⟩ := C.verdict_of_seen ((hentry a.oid hx.region).symm.trans hsome)
    rw [← hx.binding] at hverdict
    obtain ⟨hcalled, ht⟩ := hu.call_same .prepare (C.mem_of_owner? howner)
      (Store.call_prepare _ _ { item with target := some e.object })
    obtain ⟨haregion, hatarget, habinding, -, haundo, hadeferred, haerror, hastatus⟩ :=
      Store.editAll_objection (C.stores e.object) { item with target := some e.object } item.binding
    obtain rfl : item' = _ := congrArg Prod.fst hout
    obtain rfl : later = _ := congrArg Prod.snd hout
    rw [hcalled, settle_ok (hadeferred.trans hx.rested), ready_eq]
    generalize { item with target := some e.object }.editAll
      (((C.stores e.object).objection item.binding).toList.map .setError) = after at *
    have herror : after.hasError = C.fails a := by
      rw [haerror, Case.fails, ← hx.binding, hverdict,
        show Item.hasError { item with target := some e.object } = false from hclear, Bool.false_or]
    have htarget : after.target ≠ none := by simp [hatarget]
    refine ⟨rfl, ht, herror, fun h => (hastatus hclear h).trans (hx.binding ▸ hverdict.symm), ?_⟩
    exact {
      region := haregion.trans hx.region
      binding := habinding.trans hx.binding
      rested := rfl
      owner := fun id hid => howner.trans (hatarget.symm.trans hid)
      aimed := fun _ _ => htarget
      found := fun _ => htarget
      blank := fun hcommit hcleanup => haundo.trans (hx.blank hcommit hcleanup)
      passed := fun _ hfailed _ => ⟨herror.symm.trans hfailed, htarget⟩ }

omit [ManagedObject Obj] [Store.Among Obj] in
theorem Case.Marked.finish (hx : C.Marked phase failed a x) (hphase : phase ≠ .prepare) :
    C.Marked phase failed a x.finish where
  region := hx.region
  binding := hx.binding
  rested := rfl
  owner := hx.owner
  aimed := hx.aimed
  found := hx.found
  blank := hx.blank
  passed hp := absurd hp hphase

omit [Store.Among Obj] in
theorem aim_eq {S : Scene Obj} {id : ObjectId} {object : Option ObjectId} (hid : item.target = some id)
    (h : (S.aim item).Yields S.rely s object t) : object = some id ∧ t = s := by
  simpa [Scene.aim, target?, hid] using h

/-- Committing an item writes its binding. -/
theorem Case.Marked.commit (hx : C.Marked .commit failed a item) (hs : C.Shows stores s)
    (hserved : Served C.scene .commit item s (item', later) t) :
    later = none ∧ item'.status = item.status ∧ item'.complete = true ∧ C.Marked .commit failed a item' ∧
      ∃ id, C.owner? a.oid = some id ∧ C.Shows (Function.update stores id ((stores id).write a.oid a.value)) t := by
  obtain ⟨id, hid⟩ := Option.ne_none_iff_exists'.mp (hx.found rfl)
  have howner := hx.owner id hid
  generalize hout : (item', later) = out at hserved
  cases hserved with
  | stranded h => cases (aim_eq hid h).1
  | @committed _ _ _ object h =>
    obtain ⟨hobject, rfl⟩ := aim_eq hid h
    obtain rfl := Option.some.inj hobject
    obtain ⟨hcalled, ht⟩ :=
      hs.call .commit (C.mem_of_owner? howner) (Store.call_commit (stores object) C.scene.who item)
    obtain rfl : item' = _ := congrArg Prod.fst hout
    obtain rfl : later = _ := congrArg Prod.snd hout
    have hdeferred : (item.editAll [.setUndoValue ((stores object).record item.oid)]).deferred = false := hx.rested
    rw [hcalled, settle_ok hdeferred]
    refine ⟨rfl, rfl, rfl, ?_, object, howner, ?_⟩
    · exact {
        region := hx.region
        binding := hx.binding
        rested := rfl
        owner := hx.owner
        aimed := hx.aimed
        found := hx.found
        blank := by simp
        passed := by simp }
    · rw [← hx.binding]
      exact ht

theorem Case.Marked.undo (hx : C.Marked .undo failed a item) (hs : C.Shows stores s)
    (hserved : Served C.scene .undo item s (item', later) t) :
    later = none ∧ item'.status = item.status ∧ C.Marked .undo failed a item' ∧ C.Shows stores t := by
  generalize hout : (item', later) = out at hserved
  cases hserved with
  | unprepared hn =>
    obtain ⟨rfl, rfl⟩ := Prod.mk.inj hout
    exact ⟨rfl, rfl, hx.finish (by decide), hs⟩
  | kept hp h =>
    obtain ⟨id, hid⟩ := Option.ne_none_iff_exists'.mp (hx.aimed (by decide) hp)
    cases (aim_eq hid h).1
  | @undone _ _ _ object hp h =>
    obtain ⟨id, hid⟩ := Option.ne_none_iff_exists'.mp (hx.aimed (by decide) hp)
    obtain ⟨hobject, rfl⟩ := aim_eq hid h
    obtain rfl := Option.some.inj hobject
    obtain ⟨hcalled, ht⟩ := hs.call_same .undo (C.mem_of_owner? (hx.owner object hid))
      (Store.call_undo_of_none (stores object) C.scene.who item (hx.blank (by decide) (by decide)))
    obtain rfl : item' = _ := congrArg Prod.fst hout
    obtain rfl : later = _ := congrArg Prod.snd hout
    rw [hcalled, settle_ok (i := item.editAll []) hx.rested]
    exact ⟨rfl, rfl, hx.finish (by decide), ht⟩

theorem Case.Marked.cleanup (hx : C.Marked .cleanup failed a item) (hs : C.Shows stores s)
    (hserved : Served C.scene .cleanup item s (item', later) t) :
    later = none ∧ item'.status = item.status ∧ C.Marked .cleanup failed a item' ∧ C.Shows stores t := by
  generalize hout : (item', later) = out at hserved
  cases hserved with
  | untouched hnone =>
    obtain ⟨rfl, rfl⟩ := Prod.mk.inj hout
    exact ⟨rfl, rfl, hx.finish (by decide), hs⟩
  | @cleaned _ _ id hid =>
    have hu : C.Shows stores (s.unlock C.scene.registry C.scene.who.transaction id).2 :=
      hs.of_bare (s.bare_unlock _ _ _) (State.ownedBy_unlock hs.locks)
    obtain ⟨hcalled, ht⟩ := hu.call_same .cleanup (C.mem_of_owner? (hx.owner id hid))
      (Store.call_cleanup (stores id) C.scene.who { item with target := none })
    obtain ⟨rfl, rfl⟩ := Prod.mk.inj hout
    rw [hcalled]
    refine ⟨rfl, rfl, ?_, ht⟩
    exact {
      region := hx.region
      binding := hx.binding
      rested := rfl
      owner := by simp
      aimed := by simp
      found := by simp
      blank := by simp
      passed := by simp }

end Marked

/-! ### Requests -/

/-- The items report the verdicts: the first error of an item is the first verdict that is one, and at its place. -/
def Case.Told (C : Case Obj) (r : Request) : Prop :=
  (r.items.map (·.status)).find? Status.isError = (C.pdu.bindings.map C.verdict).find? Status.isError ∧
    (r.items.map (·.status)).findIdx? Status.isError = (C.pdu.bindings.map C.verdict).findIdx? Status.isError

/-- How far a request has come, and what has been written by then. -/
def Case.Stands (C : Case Obj) (r : Request) (s : State Obj) : Prop :=
  match r.phase with
  | .start => r.hasError = false ∧ C.Shows C.stores s
  | .prepare => (r.hasError = true → C.Told r) ∧ C.Shows C.stores s
  | .commit => r.hasError = false ∧ (∀ a ∈ C.pdu.bindings, C.fails a = false) ∧ ∃ done rest, r.items = done ++ rest ∧
      (∀ x ∈ done, x.complete = true) ∧ (∀ x ∈ rest, x.complete = false) ∧
        C.Shows (C.written (C.pdu.bindings.take done.length)) s
  | .undo => r.hasError = true ∧ C.Told r ∧ C.Shows C.stores s
  | .cleanup => C.Told r ∧ C.Shows C.outcome s
  | .process => False

/-- Everything goes as the verdicts say. -/
structure Case.Going (C : Case Obj) (m : Moment Obj) : Prop where
  pdu : m.request.pdu = C.pdu
  error : m.error = none
  items : List.Forall₂ (C.Marked m.request.phase m.request.hasError) C.pdu.bindings m.request.items
  stands : C.Stands m.request m.state

section Requests
variable {r r' : Request} {s t : State Obj} {error later : Option Error} {done rest : List Item} {item item' : Item}

theorem Case.stands_start (h : r.phase = .start) : C.Stands r s ↔ r.hasError = false ∧ C.Shows C.stores s := by
  simp only [Case.Stands, h]

theorem Case.stands_prepare (h : r.phase = .prepare) :
    C.Stands r s ↔ (r.hasError = true → C.Told r) ∧ C.Shows C.stores s := by
  simp only [Case.Stands, h]

theorem Case.stands_commit (h : r.phase = .commit) : C.Stands r s ↔
    r.hasError = false ∧ (∀ a ∈ C.pdu.bindings, C.fails a = false) ∧ ∃ done rest, r.items = done ++ rest ∧
      (∀ x ∈ done, x.complete = true) ∧ (∀ x ∈ rest, x.complete = false) ∧
        C.Shows (C.written (C.pdu.bindings.take done.length)) s := by
  simp only [Case.Stands, h]

theorem Case.stands_undo (h : r.phase = .undo) :
    C.Stands r s ↔ r.hasError = true ∧ C.Told r ∧ C.Shows C.stores s := by
  simp only [Case.Stands, h]

theorem Case.stands_cleanup (h : r.phase = .cleanup) : C.Stands r s ↔ C.Told r ∧ C.Shows C.outcome s := by
  simp only [Case.Stands, h]

theorem find?_isError_eq_none {α : Type} {f : α → Status} {l : List α} (h : ∀ x ∈ l, (f x).isError = false) :
    (l.map f).find? Status.isError = none ∧ (l.map f).findIdx? Status.isError = none := by
  simpa [List.find?_eq_none, List.findIdx?_eq_none_iff] using h

omit [ManagedObject Obj] [Store.Among Obj] in
/-- The first item with an error is the first one whose binding fails. -/
theorem Case.told_of_first {bs cs : List Binding} {a : Binding} (hbindings : C.pdu.bindings = bs ++ a :: cs)
    (hitems : r.items = done ++ item :: rest) (hlength : bs.length = done.length)
    (hdone : ∀ x ∈ done, x.hasError = false) (hbs : ∀ b ∈ bs, C.fails b = false) (hfails : C.fails a = true)
    (hstatus : item.status = C.verdict a) : C.Told r := by
  have hisError : (C.verdict a).isError = true := hfails
  have hleft := find?_isError_eq_none (f := Item.status) hdone
  have hright := find?_isError_eq_none (f := C.verdict) hbs
  unfold Case.Told
  rw [hbindings, hitems]
  simp only [List.map_append, List.map_cons, List.find?_append, List.findIdx?_append, hleft, hright, hstatus,
    List.find?_cons, List.findIdx?_cons, hisError, List.length_map, hlength, Option.none_or, if_true, and_self]

omit [ManagedObject Obj] [Store.Among Obj] in
theorem Case.told_of_clear (hr : r.hasError = false) (hbindings : ∀ a ∈ C.pdu.bindings, C.fails a = false) :
    C.Told r := by
  have hleft := find?_isError_eq_none (f := Item.status) fun x hx => hasError_of_mem hr hx
  have hright := find?_isError_eq_none (f := C.verdict) hbindings
  exact ⟨hleft.1.trans hright.1.symm, hleft.2.trans hright.2.symm⟩

omit [ManagedObject Obj] [Store.Among Obj] in
/-- What is told does not depend on more of the items than their statuses. -/
theorem Case.Told.congr (h : C.Told r) (hstatus : r'.items.map (·.status) = r.items.map (·.status)) : C.Told r' := by
  unfold Case.Told
  rwa [hstatus]

omit [ManagedObject Obj] [Store.Among Obj] in
/-- Where an error is told, nothing is to be written. -/
theorem Case.Told.outcome (h : C.Told r) (hstatus : r.status.isError = false) (hr : r.hasError = true) :
    C.outcome = C.stores := by
  rw [Request.hasError, hstatus, Bool.false_or] at hr
  have hsome : ((r.items.map (·.status)).find? Status.isError).isSome = true := by
    simpa [List.find?_isSome, Item.hasError] using hr
  rw [h.1, List.find?_isSome] at hsome
  rw [Case.outcome, if_pos]
  simpa [Case.fails] using hsome

omit [ManagedObject Obj] [Store.Among Obj] in
theorem Case.Told.toResponse (h : C.Told r) (hstatus : r.status.isError = false) (hpdu : r.pdu = C.pdu)
    (hbindings : r.items.map (·.binding) = C.pdu.bindings) : r.toResponse = C.answer := by
  have hreported : r.reportedStatus = ((C.pdu.bindings.map C.verdict).find? Status.isError).getD .noError := by
    rw [Request.reportedStatus, hstatus, if_neg Bool.false_ne_true, ← h.1]
  have hplace : r.items.findIdx? Item.hasError = C.pdu.bindings.findIdx? C.fails := by
    have hplace := h.2
    rwa [List.findIdx?_map, List.findIdx?_map] at hplace
  simp only [Request.toResponse, Request.responseHeader, hreported, Request.errorIndex, hplace, hpdu, hbindings,
    Case.answer]
  cases hfirst : (C.pdu.bindings.map C.verdict).find? Status.isError with
  | none =>
    have hnone : C.pdu.bindings.findIdx? C.fails = none := by
      simpa [List.find?_eq_none, List.findIdx?_eq_none_iff, Case.fails] using hfirst
    rw [hnone, if_neg (by simp [Status.isError])]
    rfl
  | some status =>
    have hisError : status.isError = true := List.find?_some hfirst
    simp only [Option.getD_some, hisError, if_true]
    cases C.pdu.bindings.findIdx? C.fails <;> rfl

omit [ManagedObject Obj] [Store.Among Obj] in
/-- One more binding is written to the object that answers for it, and to no other one. -/
theorem Case.written_append {as : List Binding} {a : Binding} {id : ObjectId} (howner : C.owner? a.oid = some id) :
    C.written (as ++ [a]) = Function.update (C.written as) id ((C.written as id).write a.oid a.value) := by
  funext j
  simp only [Case.written, Case.askedOf, List.filter_append, List.filter_cons, List.filter_nil, howner]
  by_cases hj : j = id
  · subst hj
    simp [Store.writeAll]
  · have hne : some id ≠ some j := fun heq => hj (Option.some.inj heq).symm
    simp [hne, Function.update_of_ne hj, Case.written, Case.askedOf]

theorem split_unique {done' rest' : List Item} (h : done ++ item :: rest = done' ++ rest')
    (hdone : ∀ x ∈ done, x.complete = true) (hopen : item.complete = false) (hdone' : ∀ x ∈ done', x.complete = true)
    (hrest' : ∀ x ∈ rest', x.complete = false) : done' = done ∧ rest' = item :: rest := by
  have hstop : rest'.takeWhile Item.complete = [] := by
    cases rest' with
    | nil => rfl
    | cons x rest' => simp [hrest' x List.mem_cons_self]
  have hsame := congrArg (List.takeWhile Item.complete) h
  rw [List.takeWhile_append_of_pos hdone, List.takeWhile_append_of_pos hdone', hstop, List.takeWhile_cons, hopen]
    at hsame
  have hsame : done = done' := by simpa using hsame
  subst hsame
  exact ⟨rfl, (List.append_cancel_left h).symm⟩

theorem Case.Going.prepare (G : C.Going ⟨r, error, s⟩) (hordered : Registry.Ordered C.entries)
    (hphase : r.phase = .prepare) (hitems : r.items = done ++ item :: rest) (hdone : ∀ x ∈ done, x.complete = true)
    (hclear : r.hasError = false) (hserved : Served C.scene .prepare item s (item', later) t) :
    C.Going ⟨{ r with items := done ++ item' :: rest }, error.or later, t⟩ := by
  obtain ⟨hpdu, herror, hall, hstands⟩ := G
  simp only [hphase, hclear, hitems] at hall
  obtain ⟨bs, a, cs, hbindings, hbs, ha, hcs⟩ := exists_of_forall₂ hall
  have hmem (x : Item) (hx : x ∈ done ++ item :: rest) : x.hasError = false := hasError_of_mem hclear (hitems ▸ hx)
  obtain ⟨rfl, ht, herr, hstatus, hmarked⟩ :=
    ha.prepare hordered (hmem item (by simp)) ((C.stands_prepare hphase).mp hstands).2 hserved
  have hfailed := hasError_replace hitems hclear item'
  have hphase' : { r with items := done ++ item' :: rest }.phase = .prepare := hphase
  refine ⟨hpdu, by rw [Option.or_none]; exact herror, ?_, (C.stands_prepare hphase').mpr ⟨fun he => ?_, ht⟩⟩
  · dsimp only
    rw [hfailed, hphase, hbindings]
    exact List.rel_append (hbs.imp fun _ _ hx => hx.weaken _) (.cons hmarked (hcs.imp fun _ _ hx => hx.weaken _))
  · rw [hfailed] at he
    refine C.told_of_first hbindings rfl hbs.length_eq (fun x hx => hmem x (by simp [hx])) ?_ (herr ▸ he) (hstatus he)
    exact forall_of_forall₂ hbs fun b x hx hmarked => (hmarked.passed rfl rfl (hdone x hx)).1

/-- Committing an item writes one more binding. -/
theorem Case.Going.commit (G : C.Going ⟨r, error, s⟩) (hphase : r.phase = .commit)
    (hitems : r.items = done ++ item :: rest) (hdone : ∀ x ∈ done, x.complete = true) (hopen : item.complete = false)
    (hserved : Served C.scene .commit item s (item', later) t) :
    C.Going ⟨{ r with items := done ++ item' :: rest }, error.or later, t⟩ := by
  obtain ⟨hpdu, herror, hall, hstands⟩ := G
  obtain ⟨hclear, hok, done', rest', hsplit, hdone', hrest', hs⟩ := (C.stands_commit hphase).mp hstands
  obtain ⟨rfl, rfl⟩ := split_unique (hitems.symm.trans hsplit) hdone hopen hdone' hrest'
  simp only [hphase, hclear, hitems] at hall
  obtain ⟨bs, a, cs, hbindings, hbs, ha, hcs⟩ := exists_of_forall₂ hall
  obtain ⟨rfl, hstatus, hcomplete, hmarked, id, howner, ht⟩ := ha.commit hs hserved
  have hfailed : { r with items := done' ++ item' :: rest }.hasError = false := by
    rw [hasError_replace hitems hclear, Item.hasError, hstatus]
    exact hasError_of_mem hclear (hitems ▸ List.mem_append_right _ List.mem_cons_self)
  have hphase' : { r with items := done' ++ item' :: rest }.phase = .commit := hphase
  refine ⟨hpdu, by rw [Option.or_none]; exact herror, ?_, (C.stands_commit hphase').mpr ?_⟩
  · dsimp only
    rw [hfailed, hphase, hbindings]
    exact List.rel_append hbs (.cons hmarked hcs)
  · refine ⟨hfailed, hok, done' ++ [item'], rest, by simp, ?_, fun x hx => hrest' x (List.mem_cons_of_mem _ hx), ?_⟩
    · intro x hx
      rcases List.mem_append.mp hx with hx | hx
      · exact hdone' x hx
      · exact List.mem_singleton.mp hx ▸ hcomplete
    · have htake : C.pdu.bindings.take done'.length = bs := by
        rw [hbindings, ← hbs.length_eq, List.take_left]
      have htake' : C.pdu.bindings.take (done' ++ [item']).length = bs ++ [a] := by
        rw [hbindings, List.length_append, ← hbs.length_eq, List.append_cons, List.length_singleton, List.take_left']
        simp
      rw [htake] at ht
      rw [htake', C.written_append howner]
      exact ht

theorem Case.Going.unwind (G : C.Going ⟨r, error, s⟩) (hphase : r.phase = .undo ∨ r.phase = .cleanup)
    (hitems : r.items = done ++ item :: rest)
    (hserved : ∀ failed a stores, C.Marked r.phase failed a item → C.Shows stores s →
      later = none ∧ item'.status = item.status ∧ C.Marked r.phase failed a item' ∧ C.Shows stores t) :
    C.Going ⟨{ r with items := done ++ item' :: rest }, error.or later, t⟩ := by
  obtain ⟨hpdu, herror, hall, hstands⟩ := G
  simp only [hitems] at hall
  obtain ⟨stores, hs⟩ : ∃ stores, C.Shows stores s := by
    rcases hphase with hp | hp
    · exact ⟨_, ((C.stands_undo hp).mp hstands).2.2⟩
    · exact ⟨_, ((C.stands_cleanup hp).mp hstands).2⟩
  obtain ⟨-, a, -, -, -, ha, -⟩ := exists_of_forall₂ hall
  obtain ⟨rfl, hstatus, -, -⟩ := hserved _ a stores ha hs
  have hshows (stores : ObjectId → Store) (hs : C.Shows stores s) : C.Shows stores t := (hserved _ a stores ha hs).2.2.2
  have hfailed : { r with items := done ++ item' :: rest }.hasError = r.hasError := by
    simp [Request.hasError, hitems, Item.hasError, hstatus]
  have htold (h : C.Told r) : C.Told { r with items := done ++ item' :: rest } :=
    h.congr (by simp [hitems, hstatus])
  refine ⟨hpdu, by rw [Option.or_none]; exact herror, ?_, ?_⟩
  · dsimp only
    rw [hfailed]
    exact forall₂_replace hall fun a hmarked => (hserved _ a stores hmarked hs).2.2.1
  · rcases hphase with hp | hp
    · obtain ⟨hr, ht, hs⟩ := (C.stands_undo hp).mp hstands
      have hp' : { r with items := done ++ item' :: rest }.phase = .undo := hp
      exact (C.stands_undo hp').mpr ⟨hfailed.trans hr, htold ht, hshows _ hs⟩
    · obtain ⟨ht, hs⟩ := (C.stands_cleanup hp).mp hstands
      have hp' : { r with items := done ++ item' :: rest }.phase = .cleanup := hp
      exact (C.stands_cleanup hp').mpr ⟨htold ht, hshows _ hs⟩

omit [ManagedObject Obj] [Store.Among Obj] in
theorem Case.Marked.restart {old phase : Phase} {failed : Bool} {a : Binding} {x : Item} (hx : C.Marked old failed a x)
    (haimed : phase ≠ .cleanup → old ≠ .cleanup) (hfound : phase = .commit → x.target ≠ none)
    (hblank : phase ≠ .commit → phase ≠ .cleanup → old ≠ .commit ∧ old ≠ .cleanup) :
    C.Marked phase failed a x.restart where
  region := hx.region
  binding := hx.binding
  rested := rfl
  owner := hx.owner
  aimed hp := hx.aimed (haimed hp)
  found := hfound
  blank hcommit hcleanup := hx.blank (hblank hcommit hcleanup).1 (hblank hcommit hcleanup).2
  passed _ _ hc := by cases hc

/-- Each phase begins as the one before it has left things. -/
theorem Case.Going.advance (G : C.Going ⟨r, error, s⟩) (w : Writes C.scene r)
    (hclose : r.phase = .start ∨ r.isPhaseComplete = true) (hr : r.advance? = some r') : C.Going ⟨r', error, s⟩ := by
  obtain ⟨phase, hnext, rfl⟩ := advance?_eq hr
  obtain ⟨hpdu, herror, hall, hstands⟩ := G
  have hcomplete := w.all_complete hclose
  have hsame := hasError_restart r phase
  have htold (h : C.Told r) : C.Told { r with phase, items := r.items.map Item.restart } :=
    h.congr (by simp only [List.map_map]; rfl)
  have hgoing (hfound : phase = .commit → ∀ a, ∀ x ∈ r.items, C.Marked r.phase r.hasError a x → x.target ≠ none)
      (hblank : phase ≠ .commit → phase ≠ .cleanup → r.phase ≠ .commit) (hcleanup : r.phase ≠ .cleanup)
      (hstands : C.Stands { r with phase, items := r.items.map Item.restart } s) :
      C.Going ⟨{ r with phase, items := r.items.map Item.restart }, error, s⟩ := by
    refine ⟨hpdu, herror, ?_, hstands⟩
    dsimp only at hall ⊢
    rw [hsame]
    refine List.forall₂_map_right_iff.mpr (forall₂_imp hall fun a x hx hmarked => ?_)
    exact hmarked.restart (fun _ => hcleanup) (fun hp => hfound hp a x hx hmarked) fun h h' => ⟨hblank h h', hcleanup⟩
  have hpassed (hphase : r.phase = .prepare) (hclear : r.hasError = false) (a : Binding) (x : Item) (hx : x ∈ r.items)
      (hmarked : C.Marked r.phase r.hasError a x) : C.fails a = false ∧ x.target ≠ none :=
    hmarked.passed hphase hclear (hcomplete (by simp [hphase]) x hx)
  cases w.onward hnext with
  | begin hphase =>
    obtain ⟨hclear, hs⟩ := (C.stands_start hphase).mp hstands
    refine hgoing (by simp) (by simp [hphase]) (by simp [hphase]) ((C.stands_prepare rfl).mpr ⟨fun he => ?_, hs⟩)
    cases (hsame.symm.trans he).symm.trans hclear
  | commit hphase hclear =>
    obtain ⟨-, hs⟩ := (C.stands_prepare hphase).mp hstands
    refine hgoing (fun _ a x hx hmarked => (hpassed hphase hclear a x hx hmarked).2) (by simp) (by simp [hphase]) ?_
    refine (C.stands_commit rfl).mpr ⟨hsame.trans hclear, ?_, [], _, rfl, by simp, ?_, hs⟩
    · exact forall_of_forall₂ hall fun a x hx hmarked => (hpassed hphase hclear a x hx hmarked).1
    · simp [Item.restart]
  | rollBack hphase hfailed =>
    obtain ⟨hfirst, hs⟩ := (C.stands_prepare hphase).mp hstands
    exact hgoing (by simp) (by simp [hphase]) (by simp [hphase])
      ((C.stands_undo rfl).mpr ⟨hsame.trans hfailed, htold (hfirst hfailed), hs⟩)
  | drop hphase hfailed =>
    obtain ⟨hfirst, hs⟩ := (C.stands_prepare hphase).mp hstands
    refine hgoing (by simp) (by simp) (by simp [hphase]) ((C.stands_cleanup rfl).mpr ⟨htold (hfirst hfailed), ?_⟩)
    rw [(hfirst hfailed).outcome w.status hfailed]
    exact hs
  | conclude hphase hclear =>
    obtain ⟨-, hok, done, rest, hsplit, hdone, hrest, hs⟩ := (C.stands_commit hphase).mp hstands
    refine hgoing (by simp) (by simp) (by simp [hphase])
      ((C.stands_cleanup rfl).mpr ⟨C.told_of_clear (hsame.trans hclear) hok, ?_⟩)
    -- Every item has been committed.
    have hnil : rest = [] := by
      refine List.eq_nil_iff_forall_not_mem.mpr fun x hx => ?_
      have hopen := hrest x hx
      rw [hcomplete (by simp [hphase]) x (hsplit ▸ List.mem_append_right _ hx)] at hopen
      cases hopen
    subst hnil
    rw [List.append_nil] at hsplit
    have hany : C.pdu.bindings.any C.fails = false := by simpa using hok
    rw [← hsplit, ← hall.length_eq, List.take_length] at hs
    rwa [Case.outcome, hany]
  | takeBack hphase hfailed => cases hfailed.symm.trans ((C.stands_commit hphase).mp hstands).1
  | wind hphase =>
    obtain ⟨hfailed, ht, hs⟩ := (C.stands_undo hphase).mp hstands
    refine hgoing (by simp) (by simp) (by simp [hphase]) ((C.stands_cleanup rfl).mpr ⟨htold ht, ?_⟩)
    rw [ht.outcome w.status hfailed]
    exact hs

theorem Case.Going.not_pauses (G : C.Going ⟨r, error, s⟩) (hordered : Registry.Ordered C.entries)
    (hphase : r.phase = .prepare) : ¬(C.scene.look item).Pauses C.scene.rely s t := fun hwait =>
  (Activity.ensures_iff.mp (((C.stands_prepare hphase).mp G.stands).2.look hordered item)).1 t hwait

/-- A phase that is given up is over, as nothing more is to be judged. -/
theorem Case.Going.giveUp (G : C.Going ⟨r, error, s⟩) (hgive : GivesUp r) : C.Going ⟨r.finishAll, error, s⟩ := by
  obtain ⟨hpdu, herror, hall, hstands⟩ := G
  have hsame := hasError_finishAll r
  obtain ⟨hphase, hfailed⟩ := hgive
  have hprepare : r.phase = .prepare := by
    refine hphase.resolve_right fun hcommit => ?_
    cases hfailed.symm.trans ((C.stands_commit hcommit).mp hstands).1
  obtain ⟨htold, hs⟩ := (C.stands_prepare hprepare).mp hstands
  have hphase' : r.finishAll.phase = .prepare := hprepare
  refine ⟨hpdu, herror, ?_, (C.stands_prepare hphase').mpr ⟨fun _ => (htold hfailed).congr ?_, hs⟩⟩
  · dsimp only at hall ⊢
    rw [hsame, hphase', hfailed]
    rw [hprepare, hfailed] at hall
    refine List.forall₂_map_right_iff.mpr (hall.imp fun a x hx => ?_)
    split
    · exact hx
    · exact { hx with rested := rfl, passed := by simp }
  · simp only [Request.finishAll, List.map_map]
    refine List.map_congr_left fun x _ => ?_
    dsimp only [Function.comp_apply]
    split <;> rfl

/-- A turn goes as the verdicts say. -/
theorem Turn.going {m m' : Moment Obj} (hturn : Turn C.scene m m') (hordered : Registry.Ordered C.entries)
    (w : Writes C.scene m.request) (G : C.Going m) : C.Going m' := by
  cases hturn with
  | @serve r error later s t done rest item item' hpass hopen hclear hserved =>
    have hgoing : C.Going ⟨{ r with items := done ++ item' :: rest }, error.or later, t⟩ := by
      cases hphase : r.phase <;> rw [hphase] at hserved <;> rw [← hphase]
      · cases hserved
      · cases hserved
      · exact G.prepare hordered hphase hpass.items hpass.behind (hclear (Or.inl hphase)) hserved
      · exact G.commit hphase hpass.items hpass.behind hopen hserved
      · refine G.unwind (Or.inl hphase) hpass.items fun failed a stores hmarked hs => ?_
        rw [hphase] at hmarked ⊢
        exact hmarked.undo hs hserved
      · refine G.unwind (Or.inr hphase) hpass.items fun failed a stores hmarked hs => ?_
        rw [hphase] at hmarked ⊢
        exact hmarked.cleanup hs hserved
    exact hgoing
  | wait hphase hwait => exact (G.not_pauses hordered hphase hwait).elim
  | giveUp hgive => exact G.giveUp hgive
  | advance hclose hr => exact G.advance w hclose hr
  | retry hr hrely => exact hrely.elim

theorem Turns.going {m m' : Moment Obj} (hturns : Turns C.scene m m') (hordered : Registry.Ordered C.entries)
    (w : Writes C.scene m.request) (G : C.Going m) : C.Going m' := by
  induction hturns with
  | refl => exact G
  | tail hbefore hturn ih => exact hturn.going hordered (Turns.writes hbefore w) ih

theorem going_start (hkind : C.pdu.kind = .set) (maxSize : Nat) (created : Instant) (hs : C.Shows C.stores s) :
    C.Going ⟨.start C.who C.pdu maxSize created, none, s⟩ := by
  refine ⟨rfl, rfl, forall₂_start (not_bulk_of_set hkind) fun index a => ?_,
    (C.stands_start rfl).mpr ⟨hasError_start, hs⟩⟩
  exact ⟨regionOf_point (by simp [hkind, Pdu.Kind.isSearch]) a.oid, rfl, rfl, by simp, by simp, by simp [Request.start],
    fun _ _ => rfl, by simp⟩

theorem run_done (hkind : C.pdu.kind = .set) (hordered : Registry.Ordered C.entries) (maxSize : Nat) (created : Instant)
    (hs : C.Shows C.stores s) : ∃ r t,
      run C.policy C.registry (.start C.who C.pdu maxSize created) s = .done (r, none) t ∧ r.isComplete = true ∧
        r.toResponse = C.answer ∧ C.Shows C.outcome t := by
  have w : Writes C.scene (.start C.who C.pdu maxSize created) := writes_start hkind maxSize created
  have G := going_start hkind maxSize created hs
  have hwaits (u : State Obj) : ¬Waits C.scene ⟨.start C.who C.pdu maxSize created, none, s⟩ u := by
    rintro ⟨r, error, v, item, hturns, hphase, hwait⟩
    exact (hturns.going hordered w G).not_pauses hordered hphase hwait
  have hrun := run_ensures (s := s) w fun hn => absurd (Or.inl rfl) hn
  obtain ⟨⟨r, error⟩, t, hdone, hturns, hclose⟩ := (Progress.Ensures.mono hrun hwaits fun _ _ => id).done
  obtain ⟨hpdu, rfl, hall, hstands⟩ := hturns.going hordered w G
  have w' := Turns.writes hturns w
  have hc : r.isComplete = true := by
    refine hclose.resolve_right ?_
    rintro ⟨x, hx, hdeferred⟩
    obtain ⟨a, hmarked⟩ := exists_of_mem hall hx
    cases hdeferred.symm.trans hmarked.rested
  have hphase : r.phase = .cleanup := by
    rw [w'.isComplete, Bool.and_eq_true] at hc
    simpa using hc.1
  obtain ⟨htold, ht⟩ := (C.stands_cleanup hphase).mp hstands
  refine ⟨r, t, hdone, hc, htold.toResponse w'.status hpdu ?_, ht⟩
  have hbindings : List.Forall₂ (fun a x => a = Item.binding x) C.pdu.bindings r.items :=
    hall.imp fun a x hx => hx.binding.symm
  rw [← List.forall₂_map_right_iff, List.forall₂_eq_eq_eq] at hbindings
  exact hbindings.symm

omit [ManagedObject Obj] [Store.Among Obj] in
/-- What does not fail, its object can hold. -/
theorem Case.holds_of_askedOf {regionOf : ObjectId → Region}
    (hreachable : (C.before.registry C.registry).Reachable regionOf) (hok : ∀ a ∈ C.pdu.bindings, C.fails a = false)
    {id : ObjectId} (hformed : (C.stores id).WellFormed) (hregion : regionOf id = ManagedObject.region (C.stores id)) :
    ∀ a ∈ C.askedOf id C.pdu.bindings, (C.stores id).holds a.oid = true := by
  intro a ha
  obtain ⟨hasked, howner⟩ : a ∈ C.pdu.bindings ∧ C.owner? a.oid = some id := by simpa [Case.askedOf] using ha
  obtain ⟨e, he, rfl, hcontains⟩ := Registry.exists_of_answering? howner
  rw [hreachable.ordered.2 e he, hregion] at hcontains
  refine (Store.fits_of_passes hformed hcontains ?_).holds
  have hclear := hok a hasked
  rw [Case.fails, Case.verdict, howner] at hclear
  split at hclear
  · rw [Store.passes, hclear, Bool.not_false]
  · cases hclear

end Requests

/-! ### Answers -/

/-- Writing, as an agent answers it: where every registered object is a store and nobody else holds a lock, the
response reports the first binding that fails by the state before the request, and nothing is written; if none fails,
all are written in their order, so that of several values for one variable the last one is left. -/
theorem answered_of_admits {a : Agent Obj} {m₀ m : Inbound} (hadmits : a.Admits C.before m₀ m C.who C.registry)
    (hservice : a.serviceFor? .set = some service) (hkind : m.pdu.kind = .set) (hpolicy : C.policy = a.policy)
    (hpdu : C.pdu = m.pdu) (hversion : m.version ≠ .v1) (houtlet : a.outlet = .open) {regionOf : ObjectId → Region}
    (hreachable : (C.before.registry C.registry).Reachable regionOf)
    (hstores : ∀ e ∈ C.entries, C.before.objects e.object = Store.Among.put (C.stores e.object) ∧
      (C.stores e.object).WellFormed ∧ regionOf e.object = ManagedObject.region (C.stores e.object))
    (hlocks : (C.before.registry C.registry).locks.OwnedBy C.who.transaction) (hsize : C.answer.size ≤ m.maxSize) :
    ∃ t, a.process m₀ C.before = .done (.ok ()) t ∧ t.sent = C.before.sent ++ [Outbound.replyTo m C.answer] ∧
      (∀ e ∈ C.entries, t.objects e.object = Store.Among.put (C.outcome e.object)) ∧
      (∀ j, (∀ e ∈ C.entries, e.object ≠ j) → t.objects j = C.before.objects j) ∧
      ((∀ x ∈ C.pdu.bindings, C.fails x = false) → ∀ e ∈ C.entries, ∀ o, (C.outcome e.object).value? o =
        (((C.askedOf e.object C.pdu.bindings).filter (·.oid = o)).getLast?.map (·.value)).or
          ((C.stores e.object).value? o)) := by
  have hshows : C.Shows C.stores (Agent.opened C.before) :=
    ⟨rfl, hlocks, fun e he => (hstores e he).1, fun _ _ => rfl, rfl⟩
  have hkind' : C.pdu.kind = .set := hpdu ▸ hkind
  obtain ⟨r, t, hrun, hc, hresponse, ht⟩ :=
    run_done hkind' hreachable.ordered.1 m.maxSize C.before.now hshows
  rw [hpolicy, hpdu] at hrun
  obtain ⟨u, hprocess, hsent, hobjects⟩ :=
    Agent.process_of_done hadmits (hkind ▸ hservice) hversion houtlet hrun hc hresponse hsize
  refine ⟨u, hprocess, ht.sent ▸ hsent, fun e he => ?_, fun j hj => ?_, fun hok e he o => ?_⟩
  · rw [hobjects, ht.stores e he]
  · rw [hobjects, ht.others j hj]
  · obtain ⟨-, hformed, hregion⟩ := hstores e he
    have hany : C.pdu.bindings.any C.fails = false := by simpa using hok
    rw [Case.outcome, hany]
    exact Store.value?_writeAll hformed (C.holds_of_askedOf hreachable hok hformed hregion)

/-- A scalar, and a table that is still empty. -/
def slateStore (id : ObjectId) : Store :=
  if id.number = 0 then .scalar { oid := ⟨[1, 0]⟩, value := .integer 0, writable := true }
  else .table (.empty ⟨[2]⟩ .creating)

/-- The scalar and the table, registered. -/
def slate : State Instrument where
  objects id := Store.Among.put (slateStore id)
  registries := [{
    entries := [⟨.subtree ⟨[1]⟩, ⟨0⟩⟩, ⟨.subtree ⟨[2]⟩, ⟨1⟩⟩]
    regions := [(⟨⟨1⟩, none⟩, .subtree ⟨[2]⟩), (⟨⟨0⟩, none⟩, .subtree ⟨[1]⟩)] }]
  outstanding := ⟨.seconds 300, []⟩

/-- A request that writes the scalar twice, and a new variable of the table. -/
def noting : Pdu := .setting 1 [⟨⟨[1, 0]⟩, .integer 1⟩, ⟨⟨[2, 0]⟩, .integer 5⟩, ⟨⟨[1, 0]⟩, .integer 2⟩]

def notingCase : Case Instrument := ⟨Agent.plain.policy, 0, writer, noting, slate, slateStore⟩

theorem slate_reachable : (slate.registry 0).Reachable fun id => ManagedObject.region (slateStore id) := by
  have hempty : Registry.Reachable (fun id => ManagedObject.region (slateStore id)) {} := .empty rfl rfl
  have hscalar := hempty.register
    (show Registry.register {} ⟨0⟩ (ManagedObject.region (slateStore ⟨0⟩)) none = .ok _ from rfl)
  exact hscalar.register (show Registry.register _ ⟨1⟩ (ManagedObject.region (slateStore ⟨1⟩)) none = .ok _ from rfl)

/-- The scalar holds what it was given last. -/
theorem answered_of_noting : ∃ t,
    Agent.plain.process (.ofCommunity .v2c [] writer.peer noting) slate = .done (.ok ()) t ∧
      t.sent = [Outbound.replyTo (.ofCommunity .v2c [] writer.peer noting) ⟨.response, 1, 0, 0, noting.bindings⟩] ∧
      t.objects ⟨0⟩ = .scalar { oid := ⟨[1, 0]⟩, value := .integer 2, writable := true } ∧
        t.objects ⟨1⟩ = .table ⟨⟨[2]⟩, .creating, ⟨[(⟨[2, 0]⟩, .integer 5)]⟩⟩ := by
  have hadmits : Agent.plain.Admits slate (.ofCommunity .v2c [] writer.peer noting)
      (.ofCommunity .v2c [] writer.peer noting) writer 0 := ⟨⟨none, rfl, rfl⟩, rfl, rfl⟩
  have hformed (id : ObjectId) : (slateStore id).WellFormed := by
    unfold slateStore
    split
    · trivial
    · exact ⟨OidMap.sorted_empty, fun o v h => (by cases h)⟩
  have hanswer : notingCase.answer = ⟨.response, 1, 0, 0, noting.bindings⟩ := by decide +kernel
  obtain ⟨t, hprocess, hsent, hobjects, -⟩ := answered_of_admits (C := notingCase) hadmits rfl rfl rfl rfl (by decide)
    rfl slate_reachable (fun e _ => ⟨rfl, hformed _, rfl⟩) (fun h hh => (by cases hh))
    (by rw [hanswer]; decide +kernel)
  refine ⟨t, hprocess, ?_, ?_, ?_⟩
  · rw [hsent, hanswer]
    rfl
  · rw [hobjects ⟨.subtree ⟨[1]⟩, ⟨0⟩⟩ (by decide +kernel)]
    rfl
  · rw [hobjects ⟨.subtree ⟨[2]⟩, ⟨1⟩⟩ (by decide +kernel)]
    rfl

end Set
end Responder
