import Responder.Proofs.Hesitating.Course
import Responder.Proofs.Resuming.Writing

/-! Writing to objects that hesitate. Without hesitation, what happens next to a request that writes is settled by the
    request and by what the objects hold (`Solo.proceed`). Each turn of a pass takes the request some of these steps
    further, and leaves an item deferred only where a call was put off (`Hesitation.fares_turn`). -/

namespace Responder

variable {Obj' Obj : Type} [ManagedObject Obj'] [ManagedObject Obj]

/-! ### What happens to a request -/

/-- Takes the first open item of a list further. -/
def firstOpen {β : Type} (further : Item → Item × β) : List Item → Option (List Item × β)
  | [] => none
  | x :: xs =>
    if x.complete then (firstOpen further xs).map fun out => (x :: out.1, out.2)
    else some ((further x).1 :: xs, (further x).2)

theorem firstOpen_eq {β : Type} (further : Item → Item × β) {done rest : List Item} {x : Item}
    (hdone : ∀ y ∈ done, y.complete = true) (hopen : x.complete = false) :
    firstOpen further (done ++ x :: rest) = some (done ++ (further x).1 :: rest, (further x).2) := by
  induction done with
  | nil => simp [firstOpen, hopen]
  | cons y done ih =>
    obtain ⟨hy, hdone⟩ := List.forall_mem_cons.mp hdone
    rw [List.cons_append, firstOpen, if_pos hy, ih hdone]
    rfl

namespace Solo

variable (S : Solo)

/-- What becomes of an item for which an object is called, and of what the objects hold. -/
def tell (world : ObjectId → Obj) (callback : Callback) (status : Status) (close : Item → Item) (object : ObjectId)
    (x : Item) : Item × (ObjectId → Obj) :=
  let called := ask world callback S.who object x
  ((Set.settle S.policy status close called.1).1, called.2)

/-- What becomes of an item next in a phase, and of what the objects hold. An item that is prepared is aimed first. -/
def tends (phase : Phase) (world : ObjectId → Obj) (x : Item) : Item × (ObjectId → Obj) :=
  match phase with
  | .prepare =>
    match S.found x true with
    | none => ((x.setError (Set.absence (S.query x true) x.oid)).finish, world)
    | some object =>
      if x.target = some object then S.tell world .prepare .genErr Set.ready object x
      else ({ x with target := some object }, world)
  | .commit =>
    match x.target.or (S.found x true) with
    | none => ((x.setError .commitFailed).finish, world)
    | some object => S.tell world .commit .commitFailed Item.finish object x
  | .undo =>
    if x.prepared then
      match x.target.or (S.found x true) with
      | none => ((x.setError .undoFailed).finish, world)
      | some object => S.tell world .undo .undoFailed Item.finish object x
    else (x.finish, world)
  | .cleanup =>
    match x.target with
    | none => (x.finish, world)
    | some object =>
      let called := ask world .cleanup S.who object { x with target := none }
      (called.1.1.finish, called.2)
  | .start | .process => (x, world)

/-- What happens next to a request that writes, where no call is put off. -/
def proceed (c : Standing Obj) : Option (Standing Obj) :=
  if c.1.phase = .start ∨ c.1.isPhaseComplete = true then c.1.advance?.map (·, c.2)
  else if (c.1.phase = .prepare ∨ c.1.phase = .commit) ∧ c.1.hasError = true then some (c.1.finishAll, c.2)
  else (firstOpen (S.tends c.1.phase c.2) c.1.items).map fun out => ({ c.1 with items := out.1 }, out.2)

variable {S} {r : Request} {world : ObjectId → Obj} {x : Item} {done rest : List Item}

/-- Nothing happens to a request that is complete. -/
theorem proceed_of_isComplete (h : r.isComplete = true) : S.proceed (r, world) = none := by
  simp only [Request.isComplete, Bool.and_eq_true, beq_iff_eq] at h
  have hlast : r.following? = none := by
    cases htwo : r.isTwoPhase <;> simp [Request.following?, h.1, htwo]
  rw [proceed, if_pos (Or.inr h.2), Request.advance?, hlast]
  rfl

/-- Where the request stands at an open item, the item is taken further. -/
theorem proceed_of_open (hstatus : r.status.isError = false) (hstart : r.phase ≠ .start)
    (hitems : r.items = done ++ x :: rest) (hdone : ∀ y ∈ done, y.complete = true) (hopen : x.complete = false)
    (hclear : r.phase = .prepare ∨ r.phase = .commit → r.hasError = false) :
    S.proceed (r, world) =
      some ({ r with items := done ++ (S.tends r.phase world x).1 :: rest }, (S.tends r.phase world x).2) := by
  have hphase : r.isPhaseComplete = false := by
    have hnot : r.items.all Item.complete = false :=
      List.all_eq_false.mpr ⟨x, hitems ▸ List.mem_append_right _ List.mem_cons_self, by simp [hopen]⟩
    simp [Request.isPhaseComplete, hstatus, hnot]
  have hclear' : ¬((r.phase = .prepare ∨ r.phase = .commit) ∧ r.hasError = true) :=
    fun h => Bool.false_ne_true ((hclear h.1).symm.trans h.2)
  rw [proceed, if_neg (by simp [hstart, hphase]), if_neg hclear']
  dsimp only
  rw [hitems, firstOpen_eq _ hdone hopen]
  rfl

end Solo

namespace Hesitation

variable {H : Hesitation Obj' Obj} {S : Solo} {s t u : State Obj'} {x y : Item} {phase : Phase} {object : ObjectId}

/-! ### One item -/

/-- What comes of an open item that is served in a phase. It may have been aimed, and then it was taken further, or a
call was put off. -/
structure Tends (H : Hesitation Obj' Obj) (S : Solo) (phase : Phase) (x : Item) (s : State Obj') (y : Item)
    (t : State Obj') : Prop where
  doubts : H.doubts S.entries t.objects ≤ H.doubts S.entries s.objects
  known : ∀ object, y.target = some object → ∃ e ∈ S.entries, e.object = object
  comes : ∃ target,
    ({ x with target } = x ∨ S.tends phase (H.world s.objects) x = ({ x with target }, H.world s.objects)) ∧
      (S.tends phase (H.world s.objects) { x with target } = (y, H.world t.objects) ∧ y.deferred = false ∨
        y = ({ x with target } : Item).defer ∧ H.world t.objects = H.world s.objects ∧
          H.doubts S.entries t.objects < H.doubts S.entries s.objects)

/-- No object was called. -/
theorem Tends.of_bare (hbare : t.objects = s.objects)
    (hnext : S.tends phase (H.world s.objects) x = (y, H.world s.objects)) (hrested : y.deferred = false)
    (hknown : ∀ object, y.target = some object → ∃ e ∈ S.entries, e.object = object) :
    H.Tends S phase x s y t where
  doubts := by rw [hbare]
  known := hknown
  comes := ⟨x.target, Or.inl rfl, Or.inl ⟨by rw [hbare]; exact hnext, hrested⟩⟩

/-- An object was called for an item, which may have been aimed before. -/
theorem Tends.of_call (hprompt : Prompt Obj) {callback : Callback} (hcallback : callback ≠ .cleanup)
    {target : Option ObjectId} {status : Status} {close : Item → Item}
    (hobject : ∃ e ∈ S.entries, e.object = object) (hbare : t.objects = s.objects)
    (haimed : { x with target } = x ∨
      S.tends phase (H.world s.objects) x = ({ x with target }, H.world s.objects))
    (hnext : S.tends phase (H.world s.objects) { x with target } =
      S.tell (H.world s.objects) callback status close object { x with target })
    (hrested : x.deferred = false) (hknown : ∀ object, target = some object → ∃ e ∈ S.entries, e.object = object)
    (hclose : ∀ i, (close i).complete = true ∧ (close i).deferred = false)
    (htarget : ∀ i, (close i).target = i.target) :
    H.Tends S phase x s (Set.settle S.policy status close (t.call callback S.who object { x with target }).1).1
      (t.call callback S.who object { x with target }).2 := by
  have hsame : (t.call callback S.who object { x with target }).1.1.target = target := Solo.target_call t _ _ _ _
  have hcall := H.called hobject callback S.who { x with target } t
  rw [hbare] at hcall
  generalize (t.call callback S.who object { x with target }).1 = called at hcall hsame ⊢
  have hknown' : ∀ object, (Set.settle S.policy status close called).1.target = some object →
      ∃ e ∈ S.entries, e.object = object := by
    rw [Set.settle_target htarget, hsame]
    exact hknown
  cases hcall with
  | putOff _ hworld hless =>
    exact ⟨hless.le, hknown', target, haimed, Or.inr ⟨rfl, hworld, hless⟩⟩
  | answered hworld hmost =>
    refine ⟨hmost, hknown', target, haimed, Or.inl ⟨?_, ?_⟩⟩
    · rw [hnext, hworld]
      rfl
    · have hrested' : ({ x with target } : Item).deferred = false := hrested
      exact (Set.settle_rested (hprompt.ask_undeferred hcallback hrested') hclose).2

section Served
variable (hprompt : Prompt Obj) (hs : S.Holds s) (hx : S.Suits x) (hrested : x.deferred = false)
  (hknown : ∀ object, x.target = some object → ∃ e ∈ S.entries, e.object = object)
include hprompt hs hx hrested hknown

theorem tends_of_served {out : Item × Option Error} (h : Set.Served S.scene phase x s out t) :
    H.Tends S phase x s out.1 t := by
  have haimed (object : ObjectId) (hobject : x.target.or (S.found x true) = some object) :
      ∃ e ∈ S.entries, e.object = object := by
    cases htarget : x.target with
    | none => exact Solo.mem_of_found (by simpa [htarget] using hobject)
    | some target =>
      obtain rfl : target = object := by simpa [htarget] using hobject
      exact hknown _ htarget
  cases h with
  | late h hf hlock => exact absurd hlock (Solo.look_found hs hx h).2.2.2
  | @refused _ _ t f h hf hlock =>
    obtain ⟨-, hbare, hfound, -⟩ := Solo.look_found hs hx h
    have hobjects : t.objects = s.objects := State.objects_eq_of_bare hbare
    have hnone : S.found x true = none := by rw [Solo.found, ← hfound, hf, Option.map_none]
    refine .of_bare hobjects ?_ rfl fun object hobject => hknown object (x.setError_target _ ▸ hobject)
    simp only [Solo.tends, hnone]
    rfl
  | @prepared _ _ t f e h hf =>
    obtain ⟨-, hbare, hfound, -⟩ := Solo.look_found hs hx h
    have he : S.found x true = some e.object := by rw [Solo.found, ← hfound, hf, Option.map_some]
    have hentry := Solo.mem_of_found he
    refine .of_call hprompt (by simp) hentry (State.objects_eq_of_bare hbare) ?_ ?_ hrested ?_ ?_ Set.ready_target
    · -- Unless the item was aimed at this object before, to aim it is a step of its own.
      by_cases htarget : x.target = some e.object
      · exact Or.inl (by rw [← htarget])
      · exact Or.inr (by simp only [Solo.tends, he, htarget, if_false])
    · have he' : S.found { x with target := some e.object } true = some e.object := he
      simp only [Solo.tends, he', if_true]
    · rintro object ⟨⟩
      exact hentry
    · intro i
      unfold Set.ready
      exact ⟨rfl, rfl⟩
  | @stranded _ _ t h =>
    obtain ⟨-, hbare, hobject⟩ := Solo.aim_found hs hx h
    have hobjects : t.objects = s.objects := State.objects_eq_of_bare hbare
    refine .of_bare hobjects ?_ rfl fun object hobject => hknown object (x.setError_target _ ▸ hobject)
    simp only [Solo.tends, ← hobject]
    rfl
  | @committed _ _ t object h =>
    obtain ⟨-, hbare, hobject⟩ := Solo.aim_found hs hx h
    refine .of_call hprompt (by simp) (haimed _ hobject.symm) (State.objects_eq_of_bare hbare) (Or.inl rfl) ?_ hrested
      hknown (fun _ => ⟨rfl, rfl⟩) fun _ => rfl
    simp only [Solo.tends, ← hobject]
  | unprepared hp =>
    refine .of_bare rfl ?_ rfl hknown
    simp only [Solo.tends, hp]
    rfl
  | @kept _ _ t hp h =>
    obtain ⟨-, hbare, hobject⟩ := Solo.aim_found hs hx h
    have hobjects : t.objects = s.objects := State.objects_eq_of_bare hbare
    refine .of_bare hobjects ?_ rfl fun object hobject => hknown object (x.setError_target _ ▸ hobject)
    simp only [Solo.tends, hp, ← hobject]
    rfl
  | @undone _ _ t object hp h =>
    obtain ⟨-, hbare, hobject⟩ := Solo.aim_found hs hx h
    refine .of_call hprompt (by simp) (haimed _ hobject.symm) (State.objects_eq_of_bare hbare) (Or.inl rfl) ?_ hrested
      hknown (fun _ => ⟨rfl, rfl⟩) fun _ => rfl
    show S.tends .undo _ x = S.tell _ _ _ _ object x
    simp only [Solo.tends, hp, ← hobject, if_true]
  | untouched htarget =>
    refine .of_bare rfl ?_ rfl hknown
    simp only [Solo.tends, htarget]
  | @cleaned _ _ object htarget =>
    let v := (s.unlock S.registry S.who.transaction object).2
    have hobjects : v.objects = s.objects := State.objects_eq_of_bare (s.bare_unlock _ _ _)
    have hsame : (v.call .cleanup S.who object { x with target := none }).1.1.target = none :=
      Solo.target_call v _ _ _ _
    have hcall := H.called (hknown object htarget) .cleanup S.who { x with target := none } v
    rw [hobjects] at hcall
    have hnone : ∀ other, (v.call .cleanup S.who object { x with target := none }).1.1.finish.target = some other →
        ∃ e ∈ S.entries, e.object = other := fun other hother => by cases hsame.symm.trans hother
    show H.Tends S .cleanup x s (v.call .cleanup S.who object { x with target := none }).1.1.finish
      (v.call .cleanup S.who object { x with target := none }).2
    generalize (v.call .cleanup S.who object { x with target := none }).1 = called at hcall hnone ⊢
    cases hcall with
    | putOff hcallback => exact absurd rfl hcallback
    | answered hworld hmost =>
      refine ⟨hmost, hnone, x.target, Or.inl rfl, Or.inl ⟨?_, rfl⟩⟩
      show S.tends .cleanup _ x = _
      simp only [Solo.tends, htarget, hworld]

end Served

/-! ### Turns -/

section Turns
variable {m m' m'' : Set.Moment Obj'}

/-- What happens from one moment on up to another one. -/
structure Fares (H : Hesitation Obj' Obj) (S : Solo) (m m' : Set.Moment Obj') : Prop where
  amid : S.Amid m'
  pdu : m'.request.pdu = m.request.pdu
  known : ∀ x ∈ m'.request.items, ∀ object, x.target = some object → ∃ e ∈ S.entries, e.object = object
  leads : Goes S.proceed (m.request.calm, H.world m.state.objects) (m'.request.calm, H.world m'.state.objects)
  doubts : H.doubts S.entries m'.state.objects ≤ H.doubts S.entries m.state.objects
  rested : (∀ x ∈ m.request.items, x.deferred = false) → (∀ x ∈ m'.request.items, x.deferred = false) ∨
    H.doubts S.entries m'.state.objects < H.doubts S.entries m.state.objects

theorem Fares.trans (h : H.Fares S m m') (h' : H.Fares S m' m'') : H.Fares S m m'' where
  amid := h'.amid
  pdu := h'.pdu.trans h.pdu
  known := h'.known
  leads := h.leads.trans h'.leads
  doubts := h'.doubts.trans h.doubts
  rested hrested := by
    rcases h.rested hrested with hrested' | hless
    · exact (h'.rested hrested').imp_right fun hless => hless.trans_le h.doubts
    · exact Or.inr (h'.doubts.trans_lt hless)

/-- An open item is served. -/
theorem serve_leads {r : Request} {done rest : List Item}
    (hpass : Set.Passing (S.scene : Set.Scene Obj') r done (x :: rest))
    (hstatus : r.status.isError = false) (hstart : r.phase ≠ .start) (hopen : x.complete = false)
    (hclear : r.phase = .prepare ∨ r.phase = .commit → r.hasError = false)
    (htends : H.Tends S r.phase x s y t) :
    Goes S.proceed (r.calm, H.world s.objects)
      (({ r with items := done ++ y :: rest } : Request).calm, H.world t.objects) := by
  obtain ⟨target, haimed, hcomes⟩ := htends.comes
  have hitems : r.calm.items = done ++ x :: rest := (Request.calm_items hpass.rested).trans hpass.items
  have hrest : x.deferred = false := hpass.rested x (hpass.items ▸ List.mem_append_right _ List.mem_cons_self)
  have hend : ({ r with items := done ++ y :: rest } : Request).calm =
      { r.calm with items := done ++ y.rest :: rest } := by
    have hsame : done.map Item.rest ++ x.rest :: rest.map Item.rest = done ++ x :: rest := by
      rw [← hitems, Request.calm, hpass.items, List.map_append, List.map_cons]
    have hlength : (done.map Item.rest).length = done.length := List.length_map _
    obtain ⟨hdone, hcons⟩ := List.append_inj hsame hlength
    simp only [Request.calm, List.map_append, List.map_cons, hdone, (List.cons.inj hcons).2]
  have hclear' : r.phase = .prepare ∨ r.phase = .commit → r.calm.hasError = false :=
    fun h => Request.hasError_calm.trans (hclear h)
  let aimed : Request := { r.calm with items := done ++ { x with target } :: rest }
  have hfirst : Goes S.proceed (r.calm, H.world s.objects) (aimed, H.world s.objects) := by
    rcases haimed with hsame | hnext
    · have hcalm : aimed = r.calm := by
        show ({ r.calm with items := done ++ { x with target } :: rest } : Request) = r.calm
        rw [hsame, ← hitems]
      rw [hcalm]
      exact .refl
    · refine .single ?_
      have hnext' : S.tends r.calm.phase (H.world s.objects) x = _ := hnext
      rw [Solo.proceed_of_open (r := r.calm) hstatus hstart hitems hpass.behind hopen hclear', hnext']
  refine hfirst.trans ?_
  rcases hcomes with ⟨hnext, hundeferred⟩ | ⟨rfl, hworld, -⟩
  · rw [hend, Item.rest_eq hundeferred]
    refine .single ?_
    have hnext' : S.tends aimed.phase (H.world s.objects) { x with target } = (y, H.world t.objects) := hnext
    have hclear'' : aimed.phase = .prepare ∨ aimed.phase = .commit → aimed.hasError = false := by
      intro h
      have hx := hasError_of_mem (hclear h) (hpass.items ▸ List.mem_append_right _ List.mem_cons_self)
      exact (hasError_replace hitems (hclear' h) { x with target }).trans hx
    have hstands : aimed.items = done ++ { x with target } :: rest := rfl
    rw [Solo.proceed_of_open (r := aimed) hstatus hstart hstands hpass.behind hopen hclear'', hnext']
  · have hput : ({ x with target } : Item).rest = { x with target } := Item.rest_eq hrest
    rw [hend, hworld, show ({ x with target } : Item).defer.rest = { x with target } from hput]

omit [ManagedObject Obj'] in
/-- What is open is given up. -/
theorem giveUp_leads {r : Request} {world : ObjectId → Obj} (hwrites : Set.Writes (S.scene : Set.Scene Obj') r)
    (hgives : (r.phase = .prepare ∨ r.phase = .commit) ∧ r.hasError = true) :
    Goes S.proceed (r.calm, world) (r.finishAll.calm, world) := by
  by_cases hclosed : r.isPhaseComplete = true
  · -- Nothing is left to be given up.
    have hall : ∀ x ∈ r.items, x.complete = true := by
      rw [hwrites.isPhaseComplete] at hclosed
      exact List.all_eq_true.mp hclosed
    rw [Request.finishAll_of_complete hall]
    exact .refl
  · have hstart : r.phase ≠ .start := by rcases hgives.1 with hphase | hphase <;> simp [hphase]
    have hgives' : (r.calm.phase = .prepare ∨ r.calm.phase = .commit) ∧ r.calm.hasError = true :=
      ⟨hgives.1, Request.hasError_calm.trans hgives.2⟩
    have hopen : ¬(r.calm.phase = .start ∨ r.calm.isPhaseComplete = true) := by
      rw [Request.isPhaseComplete_calm]
      exact not_or.mpr ⟨hstart, hclosed⟩
    refine .single ?_
    rw [Solo.proceed, if_neg hopen, if_pos hgives', Request.finishAll_calm]

omit [ManagedObject Obj'] in
/-- The next phase is entered. -/
theorem advance_leads {r r' : Request} {world : ObjectId → Obj} (hclosed : r.phase = .start ∨ r.isPhaseComplete = true)
    (hr : r.advance? = some r') : Goes S.proceed (r.calm, world) (r'.calm, world) := by
  have hclosed' : r.calm.phase = .start ∨ r.calm.isPhaseComplete = true := by
    rw [Request.isPhaseComplete_calm]
    exact hclosed
  refine .single ?_
  rw [Solo.proceed, if_pos hclosed', Request.advance?_calm, hr]
  rfl

variable (hprompt : Prompt Obj) (hkind : S.who.kind.isSearch = false)
include hprompt hkind

/-- One turn. -/
theorem fares_turn (h : S.Amid m)
    (hknown : ∀ x ∈ m.request.items, ∀ object, x.target = some object → ∃ e ∈ S.entries, e.object = object)
    (hturn : Set.Turn S.scene m m') : H.Fares S m m' := by
  have hamid := (h.turn hkind hturn).amid
  cases hturn with
  | @serve r error later s t done rest x y hpass hopen hclear hserved =>
    have hx : x ∈ r.items := hpass.items ▸ List.mem_append_right _ List.mem_cons_self
    have htends : H.Tends S r.phase x s y t :=
      tends_of_served hprompt h.holds (h.suits x hx) (hpass.rested x hx) (hknown x hx) hserved
    have hstart : r.phase ≠ .start := by
      intro hstart
      rw [hstart] at hserved
      cases hserved
    refine ⟨hamid, rfl, forall_replace (hpass.items ▸ hknown) htends.known,
      serve_leads hpass h.writes.status hstart hopen hclear htends, htends.doubts, fun _ => ?_⟩
    obtain ⟨-, -, ⟨-, hrested⟩ | ⟨-, -, hless⟩⟩ := htends.comes
    · exact Or.inl (forall_replace (hpass.items ▸ hpass.rested) hrested)
    · exact Or.inr hless
  | wait _ hwait => exact (Solo.not_pauses_look h.holds hwait).elim
  | @giveUp r error s hgives =>
    have hkept (x : Item) : (if x.complete = true then x else x.finish).target = x.target := by split <;> rfl
    refine ⟨hamid, rfl, fun x hx => ?_, giveUp_leads h.writes hgives, le_rfl,
      fun hrested => Or.inl fun x hx => ?_⟩
    · obtain ⟨y, hy, rfl⟩ := List.mem_map.mp hx
      exact hkept y ▸ hknown y hy
    · obtain ⟨y, hy, rfl⟩ := List.mem_map.mp hx
      split
      · exact hrested y hy
      · rfl
  | @advance r r' error s hclosed hr =>
    obtain ⟨phase, -, hr'⟩ := Set.advance?_eq hr
    have hrestarted : r'.items = r.items.map Item.restart := congrArg Request.items hr'
    have hitems {x : Item} (hx : x ∈ r'.items) : ∃ y ∈ r.items, y.restart = x := List.mem_map.mp (hrestarted ▸ hx)
    have hpdu : r'.pdu = r.pdu := by rw [hr']
    refine ⟨hamid, hpdu, fun x hx => ?_, advance_leads hclosed hr, le_rfl, fun _ => Or.inl fun x hx => ?_⟩
    · obtain ⟨y, hy, rfl⟩ := hitems hx
      exact hknown y hy
    · obtain ⟨y, -, rfl⟩ := hitems hx
      rfl
  | retry _ hrely => exact hrely.elim

/-- Any number of turns. -/
theorem fares_turns (h : S.Amid m)
    (hknown : ∀ x ∈ m.request.items, ∀ object, x.target = some object → ∃ e ∈ S.entries, e.object = object)
    (hturns : Set.Turns S.scene m m') : H.Fares S m m' := by
  induction hturns with
  | refl => exact ⟨h, rfl, hknown, .refl, le_rfl, Or.inl⟩
  | tail _ hturn ih => exact ih.trans (fares_turn hprompt hkind ih.amid ih.known hturn)

end Turns

/-- The writing service steers a request. -/
theorem set_steers (hprompt : Prompt Obj) (hquiet : S.policy.forwardFaults = false) (hkind : S.who.kind = .set) :
    H.Steers S (Set.run S.policy S.registry) (Goes S.proceed) where
  trans := Relation.ReflTransGen.trans
  unique _ h h' hend hend' := h.unique h' (Solo.proceed_of_isComplete hend) (Solo.proceed_of_isComplete hend')
  pass := by
    intro r s hs hr _ hapt
    have hsearch : S.who.kind.isSearch = false := by rw [hkind]; rfl
    refine (Solo.run_driven hkind hs hr).mono (fun _ => id) ?_
    rintro ⟨r', error⟩ t ⟨hdriven, -⟩
    have hamid := hr.amid hs (hr.writes hkind)
    have hfares : H.Fares S ⟨r, none, s⟩ ⟨r', error, t⟩ :=
      fares_turns hprompt hsearch hamid (fun x hx => (hapt.items x hx).target) hdriven.turns
    have hnone : error = none := by
      cases error with
      | none => rfl
      | some error => exact absurd (hfares.amid.fault rfl) (by simp [hquiet])
    refine ⟨hfares.amid.holds, hnone, hfares.pdu, fun hread => absurd hkind hread, hfares.leads, ?_⟩
    refine hdriven.closed.imp_right fun ⟨x, hx, hdeferred⟩ => ?_
    exact (hfares.rested hr.rested).resolve_left fun hrested =>
      Bool.false_ne_true ((hrested x hx).symm.trans hdeferred)

end Hesitation
end Responder
