import Mathlib.Data.List.Forall2
import Responder.Proofs.Hesitating.Course
import Responder.Proofs.Resuming.Reading
import Responder.Proofs.Set.Turn

/-! Reading from objects that hesitate. Without hesitation, what becomes of an item is settled step by step by what the
    objects hold (`Solo.gets`, `Solo.searches`). A pass takes each item some of these steps, and where it leaves an item
    open, there is less left to hesitate about (`Nears`). -/

namespace Responder

namespace Solo

variable {Obj' Obj : Type} [ManagedObject Obj'] [ManagedObject Obj] (S : Solo)

/-! ### What becomes of an item -/

/-- What becomes of an item that is read. -/
def gets (world : ObjectId → Obj) (x : Item) : Option Item :=
  if x.complete then none
  else match S.found x false with
    | none => some (x.setValue .noSuchObject).finish
    | some object => some (Set.settle S.policy .genErr Item.finish (ask world .get S.who object x).1).1

/-- The item, to be searched for above the region of an entry, unless nothing is left there. -/
def onward (e : Entry) (x : Item) : Item :=
  let left := { x.setValue .null with region := x.region.above e.region.toRange }
  if left.region.isEmpty then Next.endOfView left else left

/-- What becomes of an item for which one object is searched. -/
def searches (world : ObjectId → Obj) (x : Item) : Option Item :=
  if x.complete then none
  else match S.entry? x false with
    | none => some (Next.endOfView x)
    | some e =>
      let called := (ask world .next S.who e.object x).1
      some (if called.2 = .ok false then onward e called.1 else (Set.settle S.policy .genErr Item.finish called).1)

end Solo

namespace Hesitation

variable {Obj' Obj : Type} [ManagedObject Obj'] [ManagedObject Obj] {H : Hesitation Obj' Obj} {S : Solo}
  {next : (ObjectId → Obj) → Item → Option Item} {s t u : State Obj'} {x y : Item}
  {out : Item × Option Error}

/-- What comes of an item that is served. It goes on as it would without hesitation; and it is complete, or a call was
put off. -/
structure Nears (H : Hesitation Obj' Obj) (S : Solo) (next : (ObjectId → Obj) → Item → Option Item) (x : Item)
    (s : State Obj') (out : Item × Option Error) (t : State Obj') : Prop where
  holds : S.Holds t
  quiet : out.2 = none
  world : H.world t.objects = H.world s.objects
  goes : Goes (next (H.world s.objects)) x out.1.rest
  doubts : H.doubts S.entries t.objects ≤ H.doubts S.entries s.objects
  less : out.1.complete = true ∨ H.doubts S.entries t.objects < H.doubts S.entries s.objects

/-- The item has come to its end in one step. -/
theorem Nears.of_end (ht : S.Holds t) (hworld : H.world t.objects = H.world s.objects)
    (hdoubts : H.doubts S.entries t.objects ≤ H.doubts S.entries s.objects)
    (hnext : next (H.world s.objects) x = some y) (hend : y.complete = true ∧ y.deferred = false) :
    H.Nears S next x s (y, none) t where
  holds := ht
  quiet := rfl
  world := hworld
  goes := by
    rw [Item.rest_eq hend.2]
    exact .single hnext
  doubts := hdoubts
  less := Or.inl hend.1

/-- The object has answered. -/
theorem Nears.of_settled {answer : Item × Except Fault Bool} (ht : S.Holds t)
    (hworld : H.world t.objects = H.world s.objects)
    (hdoubts : H.doubts S.entries t.objects ≤ H.doubts S.entries s.objects)
    (hquiet : S.policy.forwardFaults = false)
    (hnext : next (H.world s.objects) x = some (Set.settle S.policy .genErr Item.finish answer).1)
    (hanswer : answer.1.deferred = false) :
    H.Nears S next x s (Set.settle S.policy .genErr Item.finish answer) t := by
  have hquiet : (Set.settle S.policy .genErr Item.finish answer).2 = none := Set.settle_quiet hquiet
  rw [show Set.settle S.policy .genErr Item.finish answer = (_, none) from Prod.ext rfl hquiet]
  exact .of_end ht hworld hdoubts hnext (Set.settle_rested hanswer fun _ => ⟨rfl, rfl⟩)

/-- The item has gone on by one step. -/
theorem Nears.after (h : H.Nears S next y t out u) (hworld : H.world t.objects = H.world s.objects)
    (hdoubts : H.doubts S.entries t.objects ≤ H.doubts S.entries s.objects)
    (hnext : next (H.world s.objects) x = some y) : H.Nears S next x s out u where
  holds := h.holds
  quiet := h.quiet
  world := h.world.trans hworld
  goes := .head hnext (hworld ▸ h.goes)
  doubts := h.doubts.trans hdoubts
  less := h.less.imp_right fun hless => hless.trans_le hdoubts

/-- The object has put the call off. -/
theorem Nears.of_putOff (ht : S.Holds t) (hworld : H.world t.objects = H.world s.objects)
    (hless : H.doubts S.entries t.objects < H.doubts S.entries s.objects) (hrested : x.deferred = false) :
    H.Nears S next x s (x.defer, none) t where
  holds := ht
  quiet := rfl
  world := hworld
  goes := by
    rw [show x.defer.rest = x.rest from rfl, Item.rest_eq hrested]
    exact .refl
  doubts := hless.le
  less := Or.inr hless

section Serve
variable (hversion : S.who.version ≠ .v1) (hprompt : Prompt Obj) (hquiet : S.policy.forwardFaults = false)
  (hs : S.Holds s) (hopen : x.complete = false) (hrested : x.deferred = false)
include hversion hprompt hquiet hs hopen hrested

theorem get_nears (hkind : S.who.kind.isSearch = false) (hx : S.Suits x) :
    (Get.serve S.policy S.registry S.who x).Gives s (H.Nears S S.gets x s) := by
  simp only [Get.serve, Activity.ensures_bind]
  refine (hs.lookUp hx false).mono (fun _ => id) ?_
  rintro f t ⟨ht, hbare, hfound, hlock⟩
  have hobjects : t.objects = s.objects := State.objects_eq_of_bare hbare
  cases hentry : f.entry with
  | none =>
    have hnone : S.found x false = none := by rw [Solo.found, ← hfound, hentry, Option.map_none]
    simp only [hlock, if_false, Activity.ensures_pure]
    refine .of_end ht (by rw [hobjects]) (by rw [hobjects]) ?_ ⟨rfl, rfl⟩
    simp only [Solo.gets, hopen, Bool.false_eq_true, if_false, hnone]
  | some e =>
    have he : S.found x false = some e.object := by rw [Solo.found, ← hfound, hentry, Option.map_some]
    simp only [Activity.ensures_bind, callObject, Activity.ensures_modifyGet]
    have hcalled := ht.call (fun hsearch => absurd hsearch (by simp [hkind])) .get
      (fun hsearch => absurd hsearch (by simp [hkind])) e.object x
    refine (hcalled.release f e.object).mono (fun _ => id) ?_
    rintro - u ⟨hu, hbare'⟩
    have hcall := H.called (Solo.mem_of_found he) .get S.who x t
    rw [← State.objects_eq_of_bare hbare', hobjects] at hcall
    generalize (t.call .get S.who e.object x).1 = called at hcall ⊢
    cases hcall with
    | putOff _ hworld hless =>
      dsimp only
      rw [Get.conclude_eq hversion]
      exact .of_putOff hu hworld hless hrested
    | answered hworld hmost =>
      rw [hprompt.ask_same (Or.inl rfl)] at hworld
      have hnext : S.gets (H.world s.objects) x = some (Set.settle S.policy .genErr Item.finish
          (ask (H.world s.objects) .get S.who e.object x).1).1 := by
        simp only [Solo.gets, hopen, Bool.false_eq_true, if_false, he]
      have hanswer : (ask (H.world s.objects) .get S.who e.object x).1.1.deferred = false :=
        hprompt.ask_undeferred (by simp) hrested
      generalize (ask (H.world s.objects) .get S.who e.object x).1 = answer at hnext hanswer ⊢
      have hends : H.Nears S S.gets x s _ u := .of_settled hu hworld hmost hquiet hnext hanswer
      obtain ⟨y, fault | _⟩ := answer
      · exact hends
      · rwa [Set.settle, ← Get.conclude_eq hversion] at hends

omit hs hopen hrested in
/-- A search that may take more laps than there are entries ahead. An object that declines takes one lap, and leaves
fewer entries ahead. -/
theorem serve_nears (hkind : S.who.kind.isSearch = true) (laps : Nat) :
    ∀ (x : Item) (s : State Obj'), S.Holds s → x.complete = false → x.deferred = false → S.ahead x < laps →
      (Next.serve S.policy S.registry S.who laps x).Gives s (H.Nears S S.searches x s) := by
  induction laps with
  | zero => exact fun x s _ _ _ hlt => absurd hlt (Nat.not_lt_zero _)
  | succ laps ih =>
    intro x s hs hopen hrested hlt
    have hx : S.Suits x := Or.inr hkind
    simp only [Next.serve, Activity.ensures_bind]
    refine (hs.lookUp hx false).mono (fun _ => id) ?_
    rintro f t ⟨ht, hbare, hfound, hlock⟩
    have hobjects : t.objects = s.objects := State.objects_eq_of_bare hbare
    cases hentry : f.entry with
    | none =>
      have hnone : S.entry? x false = none := hfound.symm.trans hentry
      simp only [hlock, if_false, Activity.ensures_pure]
      refine .of_end ht (by rw [hobjects]) (by rw [hobjects]) ?_ ⟨rfl, rfl⟩
      simp only [Solo.searches, hopen, Bool.false_eq_true, if_false, hnone]
    | some e =>
      have he : S.entry? x false = some e := hfound.symm.trans hentry
      simp only [Activity.ensures_bind, callObject, Activity.ensures_modifyGet]
      have hcalled := ht.call (fun _ => H.keepsFinds hprompt) .next (fun _ => rfl) e.object x
      refine (hcalled.release f e.object).mono (fun _ => id) ?_
      rintro - u ⟨hu, hbare'⟩
      have hcall := H.called ⟨e, (Solo.mem_of_entry he).1, rfl⟩ .next S.who x t
      rw [← State.objects_eq_of_bare hbare', hobjects] at hcall
      generalize (t.call .next S.who e.object x).1 = called at hcall ⊢
      cases hcall with
      | putOff _ hworld hless =>
        simp only [hversion, false_and, if_false]
        exact .of_putOff hu hworld hless hrested
      | answered hworld hmost =>
        rw [hprompt.ask_same (Or.inr rfl)] at hworld
        have hnext : S.searches (H.world s.objects) x = some (
            if (ask (H.world s.objects) .next S.who e.object x).1.2 = .ok false
            then Solo.onward e (ask (H.world s.objects) .next S.who e.object x).1.1
            else (Set.settle S.policy .genErr Item.finish (ask (H.world s.objects) .next S.who e.object x).1).1) := by
          simp only [Solo.searches, hopen, Bool.false_eq_true, if_false, he]
        have hanswer : (ask (H.world s.objects) .next S.who e.object x).1.1.deferred = false :=
          hprompt.ask_undeferred (by simp) hrested
        have hdeclined : (ask (H.world s.objects) .next S.who e.object x).1.2 = .ok false →
            (ask (H.world s.objects) .next S.who e.object x).1.1.complete = false := hprompt.ask_open hopen
        have hregion : (ask (H.world s.objects) .next S.who e.object x).1.1.region = x.region := ask_region
        generalize (ask (H.world s.objects) .next S.who e.object x).1 = answer at hnext hanswer hdeclined hregion ⊢
        obtain ⟨y, fault | _ | _⟩ := answer
        · exact .of_settled hu hworld hmost hquiet hnext hanswer
        · have hahead {z : Item} (hz : z.region = y.region.above e.region.toRange) : S.ahead z < S.ahead x :=
            Solo.ahead_above (Solo.mem_of_entry he).1 (Solo.mem_of_entry he).2 (hregion ▸ hz)
          simp only [if_true] at hnext
          by_cases hempty : (y.region.above e.region.toRange).isEmpty = true
          · simp only [Solo.onward, hempty, if_true] at hnext ⊢
            exact .of_end hu hworld hmost hnext ⟨rfl, rfl⟩
          · simp only [Solo.onward, hempty, Bool.false_eq_true, if_false] at hnext ⊢
            let left : Item := { y.setValue .null with region := y.region.above e.region.toRange }
            have hfewer : S.ahead left < laps := Nat.lt_of_lt_of_le (hahead rfl) (Nat.le_of_lt_succ hlt)
            exact (ih left u hu (hdeclined rfl) hanswer hfewer).mono (fun _ => id) fun out v hv =>
              hv.after hworld hmost hnext
        · simp only [hversion, false_and, if_false]
          exact .of_settled hu hworld hmost hquiet hnext hanswer

theorem next_nears (hkind : S.who.kind.isSearch = true) :
    (Next.search S.policy S.registry S.who x).Gives s (H.Nears S S.searches x s) :=
  serve_nears hversion hprompt hquiet hkind _ x s hs hopen hrested (Solo.ahead_lt_bound hs)

end Serve

/-! ### One item after the other -/

/-- What comes of a list of items, of which the open ones are served. -/
structure NearsAll (H : Hesitation Obj' Obj) (S : Solo) (next : (ObjectId → Obj) → Item → Option Item)
    (xs : List Item) (s : State Obj') (out : List Item × Option Error) (t : State Obj') : Prop where
  holds : S.Holds t
  quiet : out.2 = none
  world : H.world t.objects = H.world s.objects
  goes : List.Forall₂ (fun x y => Goes (next (H.world s.objects)) x y.rest) xs out.1
  doubts : H.doubts S.entries t.objects ≤ H.doubts S.entries s.objects
  less : (∀ x ∈ out.1, x.complete = true) ∨ H.doubts S.entries t.objects < H.doubts S.entries s.objects

/-- An item that is complete is passed by. -/
theorem NearsAll.skip {xs : List Item} {out : List Item × Option Error} (h : H.NearsAll S next xs s out t)
    (hcomplete : x.complete = true) (hrested : x.deferred = false) :
    H.NearsAll S next (x :: xs) s (x :: out.1, out.2) t where
  holds := h.holds
  quiet := h.quiet
  world := h.world
  goes := .cons (by rw [Item.rest_eq hrested]; exact .refl) h.goes
  doubts := h.doubts
  less := h.less.imp_left fun hall => List.forall_mem_cons.mpr ⟨hcomplete, hall⟩

/-- An item has been served, and then those after it. -/
theorem Nears.cons {xs : List Item} {out' : List Item × Option Error}
    (h : H.Nears S next x s out t) (hall : H.NearsAll S next xs t out' u) :
    H.NearsAll S next (x :: xs) s (out.1 :: out'.1, out'.2) u where
  holds := hall.holds
  quiet := hall.quiet
  world := hall.world.trans h.world
  goes := .cons h.goes (h.world ▸ hall.goes)
  doubts := hall.doubts.trans h.doubts
  less := by
    rcases h.less with hcomplete | hless
    · exact hall.less.imp (fun hall => List.forall_mem_cons.mpr ⟨hcomplete, hall⟩) fun hless => hless.trans_le h.doubts
    · exact Or.inr (hall.doubts.trans_lt hless)

theorem serveOpen_nears {serve : Item → Doing Obj' (Item × Option Error)}
    (hserve : ∀ x s, S.Holds s → S.Suits x → x.complete = false → x.deferred = false →
      (serve x).Gives s (H.Nears S next x s)) :
    ∀ (xs : List Item) (s : State Obj'), S.Holds s → (∀ x ∈ xs, S.Suits x) → (∀ x ∈ xs, x.deferred = false) →
      (serveOpen serve xs).Gives s (H.NearsAll S next xs s)
  | [], s, hs, _, _ => ⟨hs, rfl, rfl, .nil, le_rfl, Or.inl (by simp)⟩
  | x :: xs, s, hs, hsuits, hrested => by
    obtain ⟨hx, hxs⟩ := List.forall_mem_cons.mp hsuits
    obtain ⟨hrest, hrests⟩ := List.forall_mem_cons.mp hrested
    rw [serveOpen]
    split
    · next hcomplete =>
      rw [Activity.gives_bind]
      exact (serveOpen_nears hserve xs s hs hxs hrests).mono (fun _ => id) fun out t ht =>
        ht.skip hcomplete hrest
    · next hopen =>
      rw [Activity.gives_bind]
      refine (hserve x s hs hx (Bool.not_eq_true _ ▸ hopen) hrest).mono (fun _ => id) ?_
      rintro ⟨y, error⟩ t ht
      obtain rfl : error = none := ht.quiet
      rw [Activity.gives_bind]
      exact (serveOpen_nears hserve xs t ht.holds hxs hrests).mono (fun _ => id) fun out u hu =>
        ht.cons hu

/-! ### Requests -/

theorem goes_all_trans {next : Item → Option Item} {xs ys zs : List Item} (h : List.Forall₂ (Goes next) xs ys)
    (h' : List.Forall₂ (Goes next) ys zs) : List.Forall₂ (Goes next) xs zs := by
  induction h generalizing zs with
  | nil => exact h'
  | cons hx _ ih =>
    obtain ⟨z, zs, hz, hzs, rfl⟩ := List.forall₂_cons_left_iff.mp h'
    exact .cons (hx.trans hz) (ih hzs)

theorem goes_all_unique {next : Item → Option Item} {xs ys zs : List Item} (h : List.Forall₂ (Goes next) xs ys)
    (h' : List.Forall₂ (Goes next) xs zs) (hys : ∀ y ∈ ys, next y = none) (hzs : ∀ z ∈ zs, next z = none) :
    ys = zs := by
  induction h generalizing zs with
  | nil => exact (List.forall₂_nil_left_iff.mp h').symm
  | cons hy _ ih =>
    obtain ⟨z, zs, hz, hzs', rfl⟩ := List.forall₂_cons_left_iff.mp h'
    obtain ⟨hyend, hyends⟩ := List.forall_mem_cons.mp hys
    obtain ⟨hzend, hzends⟩ := List.forall_mem_cons.mp hzs
    rw [hy.unique hz hyend hzend, ih hzs' hyends hzends]

/-- A request that reads goes on, item by item, and the objects stay as they are. -/
def Reads (next : (ObjectId → Obj) → Item → Option Item) (c c' : Standing Obj) : Prop :=
  c'.2 = c.2 ∧ ∃ items, c'.1 = { c.1.begin with items } ∧ List.Forall₂ (Goes (next c.2)) c.1.begin.items items

section Reads
variable {c c' c'' : Standing Obj}

omit [ManagedObject Obj] in
theorem Reads.trans (h : Reads next c c') (h' : Reads next c' c'') : Reads next c c'' := by
  obtain ⟨hworld, items, hr, hgoes⟩ := h
  obtain ⟨hworld', items', hr', hgoes'⟩ := h'
  have hbegun : c'.1.begin = c'.1 := Solo.begin_of_phase (hr ▸ Solo.phase_begin c.1)
  rw [hbegun, hr] at hr' hgoes'
  exact ⟨hworld'.trans hworld, items', hr', goes_all_trans hgoes (hworld ▸ hgoes')⟩

omit [ManagedObject Obj] in
theorem Reads.unique (hstatus : c.1.status.isError = false) (hnext : ∀ w x, x.complete = true → next w x = none)
    (h : Reads next c c') (h' : Reads next c c'') (hend : c'.1.isComplete = true) (hend' : c''.1.isComplete = true) :
    c' = c'' := by
  have hall {d : Standing Obj} {items : List Item} (hd : d.1 = { c.1.begin with items })
      (hcomplete : d.1.isComplete = true) : ∀ x ∈ items, next c.2 x = none := by
    have hclear : c.1.begin.status.isError = false := (congrArg Status.isError (Solo.begin_kept c.1).2.2).trans hstatus
    rw [hd] at hcomplete
    simp only [Request.isComplete, Request.isPhaseComplete, hclear, Bool.false_or, Bool.and_eq_true,
      List.all_eq_true] at hcomplete
    exact fun x hx => hnext _ x (hcomplete.2.1 x hx)
  obtain ⟨hworld, items, hr, hgoes⟩ := h
  obtain ⟨hworld', items', hr', hgoes'⟩ := h'
  obtain rfl := goes_all_unique hgoes hgoes' (hall hr hend) (hall hr' hend')
  exact Prod.ext (hr.trans hr'.symm) (hworld.trans hworld'.symm)

end Reads

/-- A service that takes the open items of a request further steers it. -/
theorem steers_through {serve : Item → Doing Obj' (Item × Option Error)}
    (hkind : S.who.kind = .get ∨ S.who.kind = .getNext)
    (hnext : ∀ w x, x.complete = true → next w x = none)
    (hserve : ∀ x s, S.Holds s → S.Suits x → x.complete = false → x.deferred = false →
      (serve x).Gives s (H.Nears S next x s)) {run : Request → Doing Obj' (Request × Option Error)}
    (hrun : ∀ r, r.requester = S.who → run r = Solo.readThrough serve r) : H.Steers S run (Reads next) where
  trans := Reads.trans
  unique hstatus h h' := h.unique hstatus hnext h'
  pass := by
    intro r s hs hr hphased _
    have hrested : ∀ x ∈ r.begin.items, x.deferred = false := by
      intro x hx
      obtain ⟨y, hy, rfl | rfl⟩ := Solo.mem_begin hx
      · exact hr.rested x hy
      · rfl
    have hpdu : r.begin.pdu = r.pdu := (Solo.begin_kept r).2.1
    have hset : S.who.kind ≠ .set := by rcases hkind with hkind | hkind <;> simp [hkind]
    have hprocess : r.begin.phase = .process := by
      rcases hphased hset with hphase | hphase
      · have hread : r.isTwoPhase = false := beq_false_of_ne (hr.kind ▸ hset)
        simp [Request.begin, Request.advance?, Request.following?, hphase, hread]
      · rw [Solo.begin_of_phase (by simp [hphase]), hphase]
    rw [hrun r hr.requester, Solo.readThrough, Activity.gives_bind]
    refine (serveOpen_nears hserve _ s hs hr.suits_begin hrested).mono (fun _ => id) ?_
    rintro ⟨items, error⟩ t ht
    refine ⟨ht.holds, ht.quiet, hpdu, fun _ => Or.inr hprocess, ⟨ht.world, items.map Item.rest, ?_, ?_⟩, ?_⟩
    · rw [Request.begin_calm]
      rfl
    · rw [Request.begin_calm, Request.calm_items hrested]
      exact List.forall₂_map_right_iff.mpr ht.goes
    · refine ht.less.imp_left fun hall => ?_
      have hitems : items.all Item.complete = true := List.all_eq_true.mpr hall
      simp only [Request.isComplete, Request.isPhaseComplete, Request.isTwoPhase, Request.shape?, Request.shapeOf?,
        hprocess, hpdu, hitems]
      rcases hkind with hkind | hkind <;> simp [hr.kind, hkind]

section Steers
variable (hversion : S.who.version ≠ .v1) (hprompt : Prompt Obj) (hquiet : S.policy.forwardFaults = false)
include hversion hprompt hquiet

theorem get_steers (hkind : S.who.kind = .get) :
    H.Steers S (Get.run S.policy S.registry) (Reads S.gets) := by
  have hsearch : S.who.kind.isSearch = false := by rw [hkind]; rfl
  refine steers_through (Or.inl hkind) (fun w x hx => if_pos hx) (fun x s hs hx hopen hrested =>
    get_nears hversion hprompt hquiet hs hopen hrested hsearch hx) fun r hrequester => ?_
  rw [← hrequester, ← (Solo.begin_kept r).1]
  rfl

theorem next_steers (hkind : S.who.kind = .getNext) :
    H.Steers S (Next.run S.policy S.registry) (Reads S.searches) := by
  have hsearch : S.who.kind.isSearch = true := by rw [hkind]; rfl
  refine steers_through (Or.inr hkind) (fun w x hx => if_pos hx) (fun x s hs _ hopen hrested =>
    next_nears hversion hprompt hquiet hs hopen hrested hsearch) fun r hrequester => ?_
  rw [← hrequester, ← (Solo.begin_kept r).1]
  rfl

end Steers
end Hesitation
end Responder
