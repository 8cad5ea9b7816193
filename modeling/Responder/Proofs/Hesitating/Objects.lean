import Mathlib.Algebra.GroupWithZero.Nat
import Mathlib.Algebra.Order.BigOperators.Group.List
import Mathlib.Algebra.Order.Group.Nat
import Responder.Object.Scalar
import Responder.Proofs.Resuming.Solo

/-! Objects that hesitate. Such an object answers a call as the object within it does, but it may put the call off
    before (`Hesitation`). What the objects within hold is all that counts in the end (`Hesitation.world`), and it stays
    as it is when a call is put off; how many calls can still be put off becomes less (`Hesitation.called`). -/

namespace Responder

variable {Obj' Obj : Type}

/-- The object puts a call off: it does nothing but ask to be called again. -/
structure PutsOff (inner : Obj' → Obj) (left : Obj' → Nat) (callback : Callback) (x : Obj')
    (r : Reaction Obj' Bool) : Prop where
  callback : callback ≠ .cleanup
  edits : r.edits = [.defer]
  result : r.result = .ok true
  inner : inner r.object = inner x
  left : left r.object < left x

/-- The object answers a call as the one within it does. -/
structure AnswersAs (inner : Obj' → Obj) (left : Obj' → Nat) (answer : Reaction Obj Bool) (x : Obj')
    (r : Reaction Obj' Bool) : Prop where
  answer : r.mapObject inner = answer
  left : left r.object ≤ left x

section
variable (Obj' Obj) [ManagedObject Obj'] [ManagedObject Obj]

/-- Objects that may put calls off before they answer as the objects within them do. -/
structure Hesitation where
  inner : Obj' → Obj
  /-- How many calls the object will still put off, at most. -/
  left : Obj' → Nat
  find : ∀ (x : Obj') (region : Region), ManagedObject.find? x region = ManagedObject.find? (inner x) region
  call : ∀ (callback : Callback) (who : Requester) (item : Item) (x : Obj'),
    PutsOff inner left callback x (ManagedObject.call callback who item x) ∨
      AnswersAs inner left (ManagedObject.call callback who item (inner x)) x (ManagedObject.call callback who item x)

/-- Objects that do not change when they are read, and that answer at once; one that declines a search leaves the item
open. -/
structure Prompt : Prop where
  keeps : ∀ (callback : Callback) (who : Requester) (item : Item) (x : Obj), callback = .get ∨ callback = .next →
    (ManagedObject.call callback who item x).object = x
  answers : ∀ (callback : Callback) (who : Requester) (item : Item) (x : Obj), callback ≠ .cleanup →
    item.deferred = false → (item.editAll (ManagedObject.call callback who item x).edits).deferred = false
  declines : ∀ (who : Requester) (item : Item) (x : Obj), item.complete = false →
    (ManagedObject.call .next who item x).result = .ok false →
      (item.editAll (ManagedObject.call .next who item x).edits).complete = false

end

/-! ### What is asked -/

/-- What an object answers that is asked, and what the objects hold then. -/
def ask [ManagedObject Obj] (world : ObjectId → Obj) (callback : Callback) (who : Requester) (object : ObjectId)
    (x : Item) : (Item × Except Fault Bool) × (ObjectId → Obj) :=
  let answer := ManagedObject.call callback who x (world object)
  ((x.editAll answer.edits, answer.result), fun other => if other = object then answer.object else world other)

section Ask
variable [ManagedObject Obj] {world : ObjectId → Obj} {callback : Callback} {who : Requester} {object : ObjectId}
  {x : Item}

theorem ask_region : (ask world callback who object x).1.1.region = x.region := x.editAll_region _

/-- To read changes nothing. -/
theorem Prompt.ask_same (h : Prompt Obj) (hreads : callback = .get ∨ callback = .next) :
    (ask world callback who object x).2 = world := by
  funext other
  show (if other = object then _ else world other) = world other
  split
  · next hother => rw [hother, h.keeps callback who x (world object) hreads]
  · rfl

theorem Prompt.ask_undeferred (h : Prompt Obj) (hcallback : callback ≠ .cleanup) (hx : x.deferred = false) :
    (ask world callback who object x).1.1.deferred = false :=
  h.answers callback who x (world object) hcallback hx

theorem Prompt.ask_open (h : Prompt Obj) (hx : x.complete = false)
    (hdeclined : (ask world .next who object x).1.2 = .ok false) :
    (ask world .next who object x).1.1.complete = false :=
  h.declines who x (world object) hx hdeclined

end Ask

namespace Hesitation

variable [ManagedObject Obj'] [ManagedObject Obj] (H : Hesitation Obj' Obj)

/-- What objects hold, however they hesitate. -/
def world (objects : ObjectId → Obj') : ObjectId → Obj := fun object => H.inner (objects object)

/-- How many calls the objects of some entries will still put off, at most. -/
def doubts (entries : List Entry) (objects : ObjectId → Obj') : Nat :=
  (entries.map fun e => H.left (objects e.object)).sum

/-- What comes of a call, for the item and its result and for the objects. -/
inductive Called (entries : List Entry) (callback : Callback) (who : Requester) (object : ObjectId) (x : Item)
    (objects : ObjectId → Obj') : Item × Except Fault Bool → (ObjectId → Obj') → Prop
  | putOff {objects' : ObjectId → Obj'} (hcallback : callback ≠ .cleanup) (hworld : H.world objects' = H.world objects)
      (hless : H.doubts entries objects' < H.doubts entries objects) :
      Called entries callback who object x objects (x.defer, .ok true) objects'
  | answered {objects' : ObjectId → Obj'} (hworld : H.world objects' = (ask (H.world objects) callback who object x).2)
      (hmost : H.doubts entries objects' ≤ H.doubts entries objects) :
      Called entries callback who object x objects (ask (H.world objects) callback who object x).1 objects'

variable {H} {entries : List Entry} {object : ObjectId}

/-- Whoever is registered and called puts the call off, or answers. -/
theorem called (hobject : ∃ e ∈ entries, e.object = object) (callback : Callback) (who : Requester) (x : Item)
    (s : State Obj') : H.Called entries callback who object x s.objects (s.call callback who object x).1
      (s.call callback who object x).2.objects := by
  let r := ManagedObject.call callback who x (s.objects object)
  have hworld : H.world (s.call callback who object x).2.objects =
      fun other => if other = object then H.inner r.object else H.world s.objects other :=
    funext fun other => apply_ite H.inner (other = object) r.object (s.objects other)
  have hmost (hleft : H.left r.object ≤ H.left (s.objects object)) (other : ObjectId) :
      H.left ((s.call callback who object x).2.objects other) ≤ H.left (s.objects other) := by
    show H.left (if other = object then r.object else s.objects other) ≤ _
    split
    · next hother => exact hother ▸ hleft
    · exact le_rfl
  rcases H.call callback who x (s.objects object) with hoff | hanswers
  · have hcalled : (s.call callback who object x).1 = (x.defer, .ok true) := by
      show (x.editAll r.edits, r.result) = _
      rw [hoff.edits, hoff.result]
      rfl
    rw [hcalled]
    refine .putOff hoff.callback (hworld.trans (funext fun other => ?_)) ?_
    · split
      · next hother =>
        rw [hother]
        exact hoff.inner
      · rfl
    · obtain ⟨e, he, heq⟩ := hobject
      refine List.sum_lt_sum _ _ (fun e' _ => hmost hoff.left.le e'.object) ⟨e, he, ?_⟩
      show H.left (if e.object = object then r.object else s.objects e.object) < _
      rw [if_pos heq, heq]
      exact hoff.left
  · have hanswer : r.mapObject H.inner = ManagedObject.call callback who x (H.world s.objects object) :=
      hanswers.answer
    have hcalled : (s.call callback who object x).1 = (ask (H.world s.objects) callback who object x).1 := by
      show (x.editAll r.edits, r.result) = (x.editAll _, _)
      rw [← hanswer]
      rfl
    rw [hcalled]
    refine .answered (hworld.trans ?_) (List.sum_le_sum fun e _ => hmost hanswers.left e.object)
    show _ = fun other => if other = object then _ else H.world s.objects other
    rw [← hanswer]
    rfl

/-- Objects that hesitate change nothing about what they find in a search. -/
theorem keepsFinds (H : Hesitation Obj' Obj) (hprompt : Prompt Obj) : KeepsFinds Obj' := by
  intro x who item region
  have hkeeps : H.inner (ManagedObject.call .next who item x).object = H.inner x := by
    rcases H.call .next who item x with hoff | hanswers
    · exact hoff.inner
    · exact (congrArg Reaction.object hanswers.answer).trans (hprompt.keeps .next who item (H.inner x) (Or.inr rfl))
  rw [H.find, H.find x]
  exact congrArg (ManagedObject.find? · region) hkeeps

end Hesitation

/-! ### Objects that answer at once -/

/-- What is not put off is not deferred. -/
theorem Item.undeferred_editAll {edits : List Edit} (hedits : Edit.defer ∉ edits) {x : Item}
    (hx : x.deferred = false) : (x.editAll edits).deferred = false := by
  induction edits generalizing x with
  | nil => exact hx
  | cons e edits ih =>
    obtain ⟨hne, hedits⟩ := not_or.mp (List.mem_cons.not.mp hedits)
    refine ih hedits ?_
    cases e with
    | setError status => exact (x.setError_deferred status).trans hx
    | defer => exact absurd rfl hne
    | complete => rfl
    | _ => exact hx

theorem prompt_scalar : Prompt Scalar where
  keeps callback who item x hreads := by
    rcases hreads with rfl | rfl
    · rfl
    · simp only [ManagedObject.call, ManagedObject.next]
      split <;> rfl
  answers callback who item x _ hx := by
    refine Item.undeferred_editAll ?_ hx
    cases callback with
    | next =>
      simp only [ManagedObject.call, ManagedObject.next]
      split <;> simp
    | undo =>
      simp only [ManagedObject.call, ManagedObject.undo]
      split <;> simp [Reaction.mapResult]
    | _ => simp [ManagedObject.call, ManagedObject.get, ManagedObject.prepare, ManagedObject.commit,
        ManagedObject.cleanup, Reaction.mapResult]
  declines who item x hopen hdeclined := by
    simp only [ManagedObject.call, ManagedObject.next] at hdeclined ⊢
    split at hdeclined
    · cases hdeclined
    · next hnone => simpa [hnone] using hopen

/-! ### Objects with a list of calls to put off -/

/-- An object, and the calls that it puts off first, each as often as it is listed for the item at its place. -/
structure Hesitant (Obj : Type) where
  inner : Obj
  reluctance : List (Callback × Nat)

theorem Reaction.mapResult_id {α : Type} (r : Reaction Obj α) : r.mapResult id = r := by
  obtain ⟨object, edits, result | result⟩ := r <;> rfl

namespace Hesitant

variable {α : Type}

/-- Puts off a call that is on the list, and answers any other one. -/
def answer (x : Hesitant Obj) (callback : Callback) (item : Item) (later : α) (now : Reaction Obj α) :
    Reaction (Hesitant Obj) α :=
  if (callback, item.index) ∈ x.reluctance then
    { object := { x with reluctance := x.reluctance.erase (callback, item.index) }, edits := [.defer]
      result := .ok later }
  else now.mapObject fun inner => { x with inner }

variable [ManagedObject Obj]

instance : ManagedObject (Hesitant Obj) where
  region x := ManagedObject.region x.inner
  find? x region := ManagedObject.find? x.inner region
  get who item x := x.answer .get item () (ManagedObject.get who item x.inner)
  next who item x := x.answer .next item true (ManagedObject.next who item x.inner)
  prepare who item x := x.answer .prepare item () (ManagedObject.prepare who item x.inner)
  commit who item x := x.answer .commit item () (ManagedObject.commit who item x.inner)
  undo who item x := x.answer .undo item () (ManagedObject.undo who item x.inner)
  cleanup who item x := (ManagedObject.cleanup who item x.inner).mapObject fun inner => { x with inner }

omit [ManagedObject Obj] in
theorem answer_cases (x : Hesitant Obj) (callback : Callback) (hcallback : callback ≠ .cleanup) (item : Item)
    (later : α) (now : Reaction Obj α) (f : α → Bool) (hlater : f later = true) :
    PutsOff Hesitant.inner (fun x => x.reluctance.length) callback x ((x.answer callback item later now).mapResult f) ∨
      AnswersAs Hesitant.inner (fun x => x.reluctance.length) (now.mapResult f) x
        ((x.answer callback item later now).mapResult f) := by
  unfold answer
  split
  · next hmem =>
    refine Or.inl ⟨hcallback, rfl, congrArg Except.ok hlater, rfl, ?_⟩
    show (x.reluctance.erase (callback, item.index)).length < x.reluctance.length
    rw [List.length_erase_of_mem hmem]
    exact Nat.sub_lt (List.length_pos_of_mem hmem) Nat.one_pos
  · exact Or.inr ⟨rfl, le_rfl⟩

/-- An object with a list of calls to put off hesitates no longer than its list. -/
def hesitation : Hesitation (Hesitant Obj) Obj where
  inner := Hesitant.inner
  left x := x.reluctance.length
  find _ _ := rfl
  call callback who item x := by
    cases callback with
    | get => exact x.answer_cases .get (by simp) item () _ (fun _ => true) rfl
    | next =>
      have hcases := x.answer_cases .next (by simp) item true (ManagedObject.next who item x.inner) id rfl
      rw [Reaction.mapResult_id, Reaction.mapResult_id] at hcases
      exact hcases
    | prepare => exact x.answer_cases .prepare (by simp) item () _ (fun _ => true) rfl
    | commit => exact x.answer_cases .commit (by simp) item () _ (fun _ => true) rfl
    | undo => exact x.answer_cases .undo (by simp) item () _ (fun _ => true) rfl
    | cleanup => exact Or.inr ⟨rfl, le_rfl⟩

end Hesitant
end Responder
