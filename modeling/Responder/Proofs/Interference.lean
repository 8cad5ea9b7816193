import Responder.Waiting.Progress

/-! Activities among others. While an activity waits the others go on, under a relation that all their
    doings respect. `Ensures` says what holds at every wait and in the end, whatever the others do;
    `Pauses` and `Yields` say which waits and which ends there can be, and nothing stronger is ensured
    than that these are met (`ensures_iff`). -/

namespace Responder
namespace Progress

variable {σ α β : Type} {rely : σ → σ → Prop} {here here' : σ → Prop} {ends ends' : α → σ → Prop}

/-- What holds of the state at every wait, and of the result and the state in the end. -/
def Ensures (rely : σ → σ → Prop) (here : σ → Prop) (ends : α → σ → Prop) : Progress σ α → Prop
  | done a s => ends a s
  | waiting _ s resume => here s ∧ ∀ wakeup s', rely s s' → (resume wakeup s').Ensures rely here ends

/-- The activity can come to wait in a state. -/
inductive Pauses (rely : σ → σ → Prop) : Progress σ α → σ → Prop
  | here (wait : Wait) (s : σ) (resume : Wakeup → σ → Progress σ α) : Pauses rely (.waiting wait s resume) s
  | later {wait : Wait} {s s' t : σ} {resume : Wakeup → σ → Progress σ α} {wakeup : Wakeup} (h : rely s s')
      (next : Pauses rely (resume wakeup s') t) : Pauses rely (.waiting wait s resume) t

/-- The activity can end with a result in a state. -/
inductive Yields (rely : σ → σ → Prop) : Progress σ α → α → σ → Prop
  | done (a : α) (s : σ) : Yields rely (.done a s) a s
  | later {wait : Wait} {s s' t : σ} {resume : Wakeup → σ → Progress σ α} {wakeup : Wakeup} {a : α}
      (h : rely s s') (next : Yields rely (resume wakeup s') a t) : Yields rely (.waiting wait s resume) a t

@[simp] theorem ensures_done (a : α) (s : σ) : (done a s).Ensures rely here ends ↔ ends a s := Iff.rfl

@[simp] theorem ensures_waiting (wait : Wait) (s : σ) (resume : Wakeup → σ → Progress σ α) :
    (waiting wait s resume).Ensures rely here ends ↔
      here s ∧ ∀ wakeup s', rely s s' → (resume wakeup s').Ensures rely here ends := Iff.rfl

/-- What an activity ensures, it ensures by what its first part does. -/
theorem ensures_bind {p : Progress σ α} {f : α → σ → Progress σ β} {ends : β → σ → Prop} :
    (p.bind f).Ensures rely here ends ↔ p.Ensures rely here fun a s => (f a s).Ensures rely here ends := by
  induction p with
  | done a s => exact Iff.rfl
  | waiting wait s resume ih =>
    exact and_congr_right fun _ => forall_congr' fun wakeup => forall_congr' fun s' => imp_congr_right fun _ =>
      ih wakeup s'

namespace Ensures

theorem mono {p : Progress σ α} (h : p.Ensures rely here ends) (hhere : ∀ s, here s → here' s)
    (hends : ∀ a s, ends a s → ends' a s) : p.Ensures rely here' ends' := by
  induction p with
  | done a s => exact hends a s h
  | waiting wait s resume ih => exact ⟨hhere s h.1, fun wakeup s' hs => ih wakeup s' (h.2 wakeup s' hs)⟩

theorem bind {p : Progress σ α} {f : α → σ → Progress σ β} {after : β → σ → Prop} (h : p.Ensures rely here ends)
    (hf : ∀ a s, ends a s → (f a s).Ensures rely here after) : (p.bind f).Ensures rely here after :=
  ensures_bind.mpr (h.mono (fun _ => id) hf)

theorem state {p : Progress σ α} (h : p.Ensures rely here ends) (hends : ∀ a s, ends a s → here s) :
    here p.state := by
  cases p with
  | done a s => exact hends a s h
  | waiting wait s resume => exact h.1

/-- An activity that nothing is ensured of at a wait does not wait. -/
theorem done {p : Progress σ α} (h : p.Ensures rely (fun _ => False) ends) : ∃ a s, p = .done a s ∧ ends a s := by
  cases p with
  | done a s => exact ⟨a, s, rfl, h⟩
  | waiting wait s resume => exact h.1.elim

end Ensures

/-- What is ensured is what holds at all the waits and ends that there can be. -/
theorem ensures_iff {p : Progress σ α} : p.Ensures rely here ends ↔
    (∀ s, p.Pauses rely s → here s) ∧ ∀ a s, p.Yields rely a s → ends a s := by
  constructor
  · intro h
    constructor
    · intro t ht
      induction ht with
      | here wait s resume => exact h.1
      | later hs next ih => exact ih (h.2 _ _ hs)
    · intro a t ht
      induction ht with
      | done a s => exact h
      | later hs next ih => exact ih (h.2 _ _ hs)
  · rintro ⟨hhere, hends⟩
    induction p with
    | done a s => exact hends a s (.done a s)
    | waiting wait s resume ih =>
      refine ⟨hhere s (.here wait s resume), fun wakeup s' hs => ih wakeup s' ?_ ?_⟩
      · exact fun t ht => hhere t (.later hs ht)
      · exact fun a t ht => hends a t (.later hs ht)

theorem ensures_self (p : Progress σ α) : p.Ensures rely (p.Pauses rely) (p.Yields rely) :=
  ensures_iff.mpr ⟨fun _ => id, fun _ _ => id⟩

@[simp] theorem yields_done {a b : α} {s t : σ} : (done a s).Yields rely b t ↔ b = a ∧ t = s := by
  constructor
  · rintro ⟨⟩
    exact ⟨rfl, rfl⟩
  · rintro ⟨rfl, rfl⟩
    exact .done b t

theorem Yields.mono {p : Progress σ α} {rely' : σ → σ → Prop} {a : α} {t : σ} (h : p.Yields rely a t)
    (hrely : ∀ s t, rely s t → rely' s t) : p.Yields rely' a t := by
  induction h with
  | done a s => exact .done a s
  | later hs _ ih => exact .later (hrely _ _ hs) ih

/-- What can come of one activity after another. -/
theorem Yields.of_bind {p : Progress σ α} {f : α → σ → Progress σ β} {b : β} {u : σ}
    (h : (p.bind f).Yields rely b u) : ∃ a t, p.Yields rely a t ∧ (f a t).Yields rely b u := by
  induction p with
  | done a s => exact ⟨a, s, .done a s, h⟩
  | waiting wait s resume ih =>
    cases h with
    | later hs next =>
      obtain ⟨a, t, hp, hf⟩ := ih _ _ next
      exact ⟨a, t, .later hs hp, hf⟩

/-- The result and the state of an activity that is done. -/
def result? : Progress σ α → Option (α × σ)
  | done a s => some (a, s)
  | waiting .. => none

theorem eq_done_of_result? {p : Progress σ α} {x : α × σ} (h : p.result? = some x) : p = .done x.1 x.2 := by
  cases p with
  | done a s =>
    cases h
    rfl
  | waiting => cases h

@[simp] theorem not_pauses_done {a : α} {s t : σ} : ¬(done a s).Pauses rely t := by
  rintro ⟨⟩

end Progress

namespace Activity

variable {σ α β : Type} {rely : σ → σ → Prop} {here : σ → Prop} {s : σ}

/-- What an activity ensures when it starts in a state. -/
def Ensures (act : Activity σ α) (rely : σ → σ → Prop) (here : σ → Prop) (s : σ) (ends : α → σ → Prop) : Prop :=
  Progress.Ensures rely here ends (act s)

theorem Ensures.mono {act : Activity σ α} {ends ends' : α → σ → Prop} {here' : σ → Prop}
    (h : act.Ensures rely here s ends) (hhere : ∀ s, here s → here' s) (hends : ∀ a s, ends a s → ends' a s) :
    act.Ensures rely here' s ends' := Progress.Ensures.mono h hhere hends

/-- An activity that starts in the first state can come to wait in the second. -/
def Pauses (act : Activity σ α) (rely : σ → σ → Prop) (s t : σ) : Prop := Progress.Pauses rely (act s) t

/-- An activity that starts in the first state can end with a result in the second. -/
def Yields (act : Activity σ α) (rely : σ → σ → Prop) (s : σ) (a : α) (t : σ) : Prop :=
  Progress.Yields rely (act s) a t

theorem ensures_iff {act : Activity σ α} {ends : α → σ → Prop} : act.Ensures rely here s ends ↔
    (∀ t, act.Pauses rely s t → here t) ∧ ∀ a t, act.Yields rely s a t → ends a t :=
  Progress.ensures_iff

theorem ensures_self (act : Activity σ α) (rely : σ → σ → Prop) (s : σ) :
    act.Ensures rely (act.Pauses rely s) s (act.Yields rely s) := Progress.ensures_self (act s)

theorem yields_of_result? {act : Activity σ α} {a : α} {t : σ} (h : (act s).result? = some (a, t)) :
    act.Yields rely s a t := by
  rw [Yields, Progress.eq_done_of_result? h]
  exact .done a t

@[simp] theorem yields_pure {a b : α} {t : σ} : (pure a : Activity σ α).Yields rely s b t ↔ b = a ∧ t = s :=
  Progress.yields_done

@[simp] theorem not_pauses_pure {a : α} {t : σ} : ¬(pure a : Activity σ α).Pauses rely s t :=
  Progress.not_pauses_done

@[simp] theorem ensures_pure {a : α} {ends : α → σ → Prop} :
    (pure a : Activity σ α).Ensures rely here s ends ↔ ends a s := Iff.rfl

@[simp] theorem ensures_bind {act : Activity σ α} {f : α → Activity σ β} {ends : β → σ → Prop} :
    (act >>= f).Ensures rely here s ends ↔ act.Ensures rely here s fun a s => (f a).Ensures rely here s ends :=
  Progress.ensures_bind

@[simp] theorem ensures_get {ends : σ → σ → Prop} :
    (get : Activity σ σ).Ensures rely here s ends ↔ ends s s := Iff.rfl

@[simp] theorem ensures_set {t : σ} {ends : PUnit → σ → Prop} :
    (set t : Activity σ PUnit).Ensures rely here s ends ↔ ends ⟨⟩ t := Iff.rfl

@[simp] theorem ensures_modifyGet {f : σ → α × σ} {ends : α → σ → Prop} :
    (modifyGet f : Activity σ α).Ensures rely here s ends ↔ ends (f s).1 (f s).2 := Iff.rfl

@[simp] theorem ensures_modify {f : σ → σ} {ends : PUnit → σ → Prop} :
    (modify f : Activity σ PUnit).Ensures rely here s ends ↔ ends ⟨⟩ (f s) := Iff.rfl

@[simp] theorem ensures_await {wait : Wait} {ends : Bool → σ → Prop} :
    (await wait).Ensures rely here s ends ↔
      here s ∧ ∀ (wakeup : Wakeup) t, rely s t → ends (decide (wakeup = .granted)) t := Iff.rfl

end Activity
end Responder
