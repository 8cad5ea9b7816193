import Responder.Service.Basic

/-! Writing in two phases. Every variable is prepared before any is committed. If something fails, what
    was prepared is undone; in the end every object that was found is cleaned up and unlocked. A phase
    that cannot be finished in one pass is taken up again where it stopped. -/

namespace Responder.Set

variable {Obj : Type} [ManagedObject Obj]

/-- How a pass over the items of a phase ended. -/
structure Pass where
  items : List Item
  /-- Whether the pass was broken off, to be taken up again. -/
  paused : Bool := false
  /-- The first error to be passed on. -/
  error : Option Error := none

/-- The pass with an item before those that it went over, and with an error that came before its own. -/
def Pass.behind (pass : Pass) (item : Item) (error : Option Error) : Pass :=
  { pass with items := item :: pass.items, error := error.or pass.error }

/-- The error in writing a variable that nobody answers for. -/
def absence (q : Query) (o : Oid) : Status := if q.allows o then .noCreation else .noAccess

/-- Prepares the open items of a list until one of them has an error. -/
def prepare (p : Policy) (registry : Nat) (who : Requester) (failed : Bool) : List Item → Doing Obj Pass
  | [] => return { items := [] }
  | item :: rest => do
    if failed then return { items := item :: rest }
    else if item.complete then return (← prepare p registry who failed rest).behind item none
    else
      let query := p.query who item.region true
      let found ← p.lookUp registry who query
      match found.entry with
      | none =>
        if found.lock = .timedOut then return { items := item.defer :: rest, paused := true }
        else
          let item ← modifyGet (·.refuse .prepare who item (absence query item.oid))
          return { items := item :: rest }
      | some entry =>
        let (item, result) ← callObject .prepare who entry.object { item with target := some entry.object }
        match result with
        | .ok _ =>
          if item.deferred then return { items := item :: rest, paused := true }
          else
            let item := (if item.hasError then item else { item with prepared := true }).finish
            return (← prepare p registry who item.hasError rest).behind item none
        | .error fault =>
          let (item, error) := p.report item .genErr fault
          return (← prepare p registry who item.hasError rest).behind item error

/-- The object that an item is written to: the one it was prepared on, else the one that answers for it. -/
def target? (p : Policy) (registry : Nat) (who : Requester) (item : Item) : Doing Obj (Option ObjectId) :=
  match item.target with
  | some object => return some object
  | none => do
    let found ← Lookup.run ⟨registry, p.query who item.region true, none⟩ p.patience
    return found.entry.map (·.object)

/-- Commits the open items of a list until one of them has an error. -/
def commit (p : Policy) (registry : Nat) (who : Requester) (failed : Bool) : List Item → Doing Obj Pass
  | [] => return { items := [] }
  | item :: rest => do
    if failed then return { items := item :: rest }
    else if item.complete then return (← commit p registry who failed rest).behind item none
    else
      match ← target? p registry who item with
      | none =>
        let item ← modifyGet (·.refuse .commit who item .commitFailed)
        return { items := item :: rest }
      | some object =>
        let (item, result) ← callObject .commit who object item
        match result with
        | .ok _ =>
          if item.deferred then return { items := item :: rest, paused := true }
          else
            let item := item.finish
            return (← commit p registry who item.hasError rest).behind item none
        | .error fault =>
          let (item, error) := p.report item .commitFailed fault
          return (← commit p registry who item.hasError rest).behind item error

/-- Undoes the open items of a list that were prepared. -/
def undo (p : Policy) (registry : Nat) (who : Requester) : List Item → Doing Obj Pass
  | [] => return { items := [] }
  | item :: rest => do
    if item.complete then return (← undo p registry who rest).behind item none
    else if !item.prepared then return (← undo p registry who rest).behind item.finish none
    else
      match ← target? p registry who item with
      | none =>
        let item ← modifyGet (·.refuse .undo who item .undoFailed)
        return (← undo p registry who rest).behind item none
      | some object =>
        let (item, result) ← callObject .undo who object item
        match result with
        | .ok _ =>
          if item.deferred then return { items := item :: rest, paused := true }
          else return (← undo p registry who rest).behind item.finish none
        | .error fault =>
          let (item, error) := p.report item .undoFailed fault
          return (← undo p registry who rest).behind item error

/-- Unlocks and cleans up the targets of the open items of a list. Faults are passed on but not reported. -/
def cleanup (p : Policy) (registry : Nat) (who : Requester) : List Item → Doing Obj Pass
  | [] => return { items := [] }
  | item :: rest => do
    if item.complete then return (← cleanup p registry who rest).behind item none
    else
      match item.target with
      | none => return (← cleanup p registry who rest).behind item.finish none
      | some object =>
        modify fun s => (s.unlock registry who.transaction object).2
        let (item, result) ← callObject .cleanup who object { item with target := none }
        let error := match result with
          | .ok _ => none
          | .error fault => (p.report item .noError fault).2
        return (← cleanup p registry who rest).behind item.finish error

/-- One pass over the current phase. An error ends the phase for the items that are still open. -/
def pass (p : Policy) (registry : Nat) (r : Request) : Doing Obj (Request × Option Error) := do
  let who := r.requester
  let ended (pass : Pass) : Request :=
    let r := { r with items := pass.items }
    if !pass.paused && r.hasError then r.finishAll else r
  match r.phase with
  | .prepare =>
    let pass ← prepare p registry who r.hasError r.items
    return (ended pass, pass.error)
  | .commit =>
    let pass ← commit p registry who r.hasError r.items
    return (ended pass, pass.error)
  | .undo =>
    let pass ← undo p registry who r.items
    return ({ r with items := pass.items }, pass.error)
  | .cleanup =>
    let pass ← cleanup p registry who r.items
    return ({ r with items := pass.items }, pass.error)
  | .start | .process => return (r, none)

/-- Goes from phase to phase, through no more than `phases` of them, until one is not over. -/
def drive (p : Policy) (registry : Nat) : Nat → Request → Option Error → Doing Obj (Request × Option Error)
  | 0, r, error => return (r, error)
  | phases + 1, r, error => do
    match if r.phase = .start ∨ r.isPhaseComplete then r.advance? else some r with
    | none => return (r, error)
    | some r =>
      if r.phase = .start ∨ r.phase = .process then return (r, error)
      else
        let (r, later) ← pass p registry r
        let error := error.or later
        if !r.isPhaseComplete || r.phase = .cleanup then return (r, error)
        else drive p registry phases r error

/-- How many phases a request that writes can go through. -/
def phaseCount : Nat := 4

/-- Takes a request that writes further. -/
def run (p : Policy) (registry : Nat) (r : Request) : Doing Obj (Request × Option Error) :=
  drive p registry phaseCount r none

def service : Service Obj := ⟨(· == .set), run⟩

end Responder.Set
