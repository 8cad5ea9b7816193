import Mathlib.Logic.Relation
import Responder.Proofs.Lookup
import Responder.Service.Set

/-! Writing, turn by turn. A `Turn` is the least that happens to a request that writes: an item is served
    in the current phase, the request waits, a phase is given up or followed by the next, or the request is
    taken up again. `Passes` says what progress the service can have made on a request, in any number of
    passes and among any others. -/

namespace Responder.Set

variable {Obj : Type} [ManagedObject Obj]

/-- Where and for whom a request is served, and what the others may do meanwhile. -/
structure Scene (Obj : Type) where
  policy : Policy
  registry : Nat
  who : Requester
  rely : State Obj → State Obj → Prop

namespace Scene
variable (S : Scene Obj)

/-- The look-up of the object that answers for an item. -/
def look (item : Item) : Doing Obj Finding :=
  S.policy.lookUp S.registry S.who (S.policy.query S.who item.region true)

/-- The look-up of the object that an item is written to. -/
def aim (item : Item) : Doing Obj (Option ObjectId) := target? S.policy S.registry S.who item

end Scene

/-- An item after it was prepared without being deferred. -/
def ready (item : Item) : Item := (if item.hasError then item else { item with prepared := true }).finish

/-- An item after it was called: it is left open if it is deferred, and over otherwise. -/
def settle (p : Policy) (status : Status) (close : Item → Item) (called : Item × Except Fault Bool) :
    Item × Option Error :=
  match called.2 with
  | .ok _ => (if called.1.deferred then called.1 else close called.1, none)
  | .error fault => p.report called.1 status fault

theorem settle_kept {α : Type} {f : Item → α} {p : Policy} {status : Status} {close : Item → Item}
    {called : Item × Except Fault Bool} (hclose : f (close called.1) = f called.1)
    (hreport : ∀ fault, f (p.report called.1 status fault).1 = f called.1) :
    f (settle p status close called).1 = f called.1 := by
  obtain ⟨i, fault | _⟩ := called
  · exact hreport fault
  · simp only [settle]
    split
    · rfl
    · exact hclose

theorem ready_region (i : Item) : (ready i).region = i.region := by
  unfold ready
  split <;> rfl

theorem ready_target (i : Item) : (ready i).target = i.target := by
  unfold ready
  split <;> rfl

theorem settle_region {p : Policy} {status : Status} {close : Item → Item} {called : Item × Except Fault Bool}
    (hclose : ∀ i, (close i).region = i.region) : (settle p status close called).1.region = called.1.region :=
  settle_kept (hclose _) fun _ => Item.setError_region _ _

theorem settle_target {p : Policy} {status : Status} {close : Item → Item} {called : Item × Except Fault Bool}
    (hclose : ∀ i, (close i).target = i.target) : (settle p status close called).1.target = called.1.target :=
  settle_kept (hclose _) fun _ => Item.setError_target _ _

theorem settle_rested {p : Policy} {status : Status} {close : Item → Item} {called : Item × Except Fault Bool}
    (h : called.1.deferred = false) (hclose : ∀ i, (close i).complete = true ∧ (close i).deferred = false) :
    (settle p status close called).1.complete = true ∧ (settle p status close called).1.deferred = false := by
  obtain ⟨i, fault | _⟩ := called
  · exact ⟨rfl, rfl⟩
  · have hi : i.deferred = false := h
    simp only [settle, hi, Bool.false_eq_true, if_false]
    exact hclose i

theorem settle_quiet {p : Policy} {status : Status} {close : Item → Item} {called : Item × Except Fault Bool}
    (h : p.forwardFaults = false) : (settle p status close called).2 = none := by
  obtain ⟨i, fault | _⟩ := called
  · simp [settle, Policy.report, h]
  · rfl

/-- What is passed on of a fault at a cleanup. -/
def overlook (p : Policy) (called : Item × Except Fault Bool) : Option Error :=
  match called.2 with
  | .ok _ => none
  | .error fault => (p.report called.1 .noError fault).2

/-- What serving an open item can make of it in a phase: the item, the error that is passed on, the state. -/
inductive Served (S : Scene Obj) : Phase → Item → State Obj → Item × Option Error → State Obj → Prop
  | late {item : Item} {s t : State Obj} {f : Finding} (h : (S.look item).Yields S.rely s f t)
      (hf : f.entry = none) (hlock : f.lock = .timedOut) : Served S .prepare item s (item.defer, none) t
  | refused {item : Item} {s t : State Obj} {f : Finding} (h : (S.look item).Yields S.rely s f t)
      (hf : f.entry = none) (hlock : f.lock ≠ .timedOut) : Served S .prepare item s
        ((t.refuse .prepare S.who item (absence (S.policy.query S.who item.region true) item.oid)).1, none)
        (t.refuse .prepare S.who item (absence (S.policy.query S.who item.region true) item.oid)).2
  | prepared {item : Item} {s t : State Obj} {f : Finding} {e : Entry} (h : (S.look item).Yields S.rely s f t)
      (hf : f.entry = some e) : Served S .prepare item s
        (settle S.policy .genErr ready (t.call .prepare S.who e.object { item with target := some e.object }).1)
        (t.call .prepare S.who e.object { item with target := some e.object }).2
  | stranded {item : Item} {s t : State Obj} (h : (S.aim item).Yields S.rely s none t) : Served S .commit item s
      ((t.refuse .commit S.who item .commitFailed).1, none) (t.refuse .commit S.who item .commitFailed).2
  | committed {item : Item} {s t : State Obj} {object : ObjectId} (h : (S.aim item).Yields S.rely s (some object) t) :
      Served S .commit item s (settle S.policy .commitFailed Item.finish (t.call .commit S.who object item).1)
        (t.call .commit S.who object item).2
  | unprepared {item : Item} {s : State Obj} (h : item.prepared = false) : Served S .undo item s (item.finish, none) s
  | kept {item : Item} {s t : State Obj} (hp : item.prepared = true) (h : (S.aim item).Yields S.rely s none t) :
      Served S .undo item s
        ((t.refuse .undo S.who item .undoFailed).1, none) (t.refuse .undo S.who item .undoFailed).2
  | undone {item : Item} {s t : State Obj} {object : ObjectId} (hp : item.prepared = true)
      (h : (S.aim item).Yields S.rely s (some object) t) :
      Served S .undo item s (settle S.policy .undoFailed Item.finish (t.call .undo S.who object item).1)
        (t.call .undo S.who object item).2
  | untouched {item : Item} {s : State Obj} (h : item.target = none) : Served S .cleanup item s (item.finish, none) s
  | cleaned {item : Item} {s : State Obj} {object : ObjectId} (h : item.target = some object) :
      Served S .cleanup item s
        (((s.unlock S.registry S.who.transaction object).2.call .cleanup S.who object
            { item with target := none }).1.1.finish,
          overlook S.policy ((s.unlock S.registry S.who.transaction object).2.call .cleanup S.who object
            { item with target := none }).1)
        ((s.unlock S.registry S.who.transaction object).2.call .cleanup S.who object { item with target := none }).2

/-- A request in a phase, with the items that a pass has behind it and those that it has before it. -/
structure Passing (S : Scene Obj) (r : Request) (done items : List Item) : Prop where
  who : r.requester = S.who
  items : r.items = done ++ items
  behind : ∀ i ∈ done, i.complete = true
  rested : ∀ i ∈ r.items, i.deferred = false

/-- A request while it is served, with the error that is going to be passed on, and the state. -/
structure Moment (Obj : Type) where
  request : Request
  error : Option Error
  state : State Obj

/-- An error ends the phase of a request for the items that are still open. -/
def GivesUp (r : Request) : Prop := (r.phase = .prepare ∨ r.phase = .commit) ∧ r.hasError = true

/-- The least that happens to a request that writes. -/
inductive Turn (S : Scene Obj) : Moment Obj → Moment Obj → Prop
  | serve {r : Request} {error later : Option Error} {s t : State Obj} {done rest : List Item} {item item' : Item}
      (hpass : Passing S r done (item :: rest)) (hopen : item.complete = false)
      (hclear : r.phase = .prepare ∨ r.phase = .commit → r.hasError = false)
      (h : Served S r.phase item s (item', later) t) :
      Turn S ⟨r, error, s⟩ ⟨{ r with items := done ++ item' :: rest }, error.or later, t⟩
  | wait {r : Request} {error : Option Error} {s t : State Obj} {item : Item} (hphase : r.phase = .prepare)
      (h : (S.look item).Pauses S.rely s t) : Turn S ⟨r, error, s⟩ ⟨r, error, t⟩
  | giveUp {r : Request} {error : Option Error} {s : State Obj} (h : GivesUp r) :
      Turn S ⟨r, error, s⟩ ⟨r.finishAll, error, s⟩
  | advance {r r' : Request} {error : Option Error} {s : State Obj} (h : r.phase = .start ∨ r.isPhaseComplete = true)
      (hr : r.advance? = some r') : Turn S ⟨r, error, s⟩ ⟨r', error, s⟩
  | retry {r : Request} {s t : State Obj} (hr : r.isComplete = false) (h : S.rely s t) :
      Turn S ⟨r, none, s⟩ ⟨r.retry, none, t⟩

/-- Any number of turns. -/
abbrev Turns (S : Scene Obj) : Moment Obj → Moment Obj → Prop := Relation.ReflTransGen (Turn S)

/-- Turns lead from a moment to a state. -/
def Reaches (S : Scene Obj) (m : Moment Obj) (t : State Obj) : Prop := ∃ r error, Turns S m ⟨r, error, t⟩

/-- Turns lead from a moment to one in which the look-up for an item comes to wait. -/
def Waits (S : Scene Obj) (m : Moment Obj) (t : State Obj) : Prop :=
  ∃ r error s item, Turns S m ⟨r, error, s⟩ ∧ r.phase = .prepare ∧ (S.look item).Pauses S.rely s t

theorem Waits.after {S : Scene Obj} {m m' : Moment Obj} {t : State Obj} (h : Turns S m m') (h' : Waits S m' t) :
    Waits S m t := by
  obtain ⟨r, error, s, item, ht, hphase, hwait⟩ := h'
  exact ⟨r, error, s, item, h.trans ht, hphase, hwait⟩

theorem Waits.reaches {S : Scene Obj} {m : Moment Obj} {t : State Obj} (h : Waits S m t) : Reaches S m t := by
  obtain ⟨r, error, s, item, ht, hphase, hwait⟩ := h
  exact ⟨r, error, ht.tail (.wait hphase hwait)⟩

/-- The progress that the service has made on a request: in its first pass, and whenever the request was
taken up again. -/
inductive Passes (S : Scene Obj) (r₀ : Request) (s₀ : State Obj) :
    Progress (State Obj) (Request × Option Error) → Prop
  | first : Passes S r₀ s₀ (run S.policy S.registry r₀ s₀)
  | wake {wait : Wait} {s t : State Obj} {wakeup : Wakeup}
      {resume : Wakeup → State Obj → Progress (State Obj) (Request × Option Error)}
      (before : Passes S r₀ s₀ (.waiting wait s resume)) (h : S.rely s t) : Passes S r₀ s₀ (resume wakeup t)
  | again {r : Request} {s t : State Obj} (before : Passes S r₀ s₀ (.done (r, none) s)) (hr : r.isComplete = false)
      (h : S.rely s t) : Passes S r₀ s₀ (run S.policy S.registry r.retry t)

/-- A requester of the default context. -/
def writer : Requester where
  peer := ⟨.v4 192 0 2 10, 50161, 0⟩
  version := .v2c
  model := .v2c
  securityName := []
  level := .noAuthNoPriv
  engine := []
  context := []
  requestId := 1
  kind := .set
  transaction := ⟨0⟩
  view := none

end Responder.Set
