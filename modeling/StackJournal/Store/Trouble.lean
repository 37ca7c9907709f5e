import StackJournal.Plan

/-! # Troubled stores

A troubled store passes requests on to another store, except where its trouble says otherwise:
requests fail, rivals append first, the last position is a false one, reads are cut short. It keeps a
record of the reads asked of it.
-/
namespace StackJournal

/-- The kinds of request that can be made to fail. -/
inductive Facility where
  | append
  | load
  | read
  | last
  deriving DecidableEq, Repr

/-- After `after` more requests the next `times` fail. -/
structure Outage where
  facility : Facility
  after : Nat
  times : Nat
  deriving DecidableEq, Repr

/-- A rival appends an event of a kind to a stack, once `after` more appends have gone by. -/
structure Rival where
  stack : Uuid
  kind : EventKind
  after : Nat
  deriving DecidableEq, Repr

structure Trouble where
  outages : List Outage
  rivals : List Rival
  falseLast : Option Nat
  readLimit : Option Nat
  deriving DecidableEq, Repr

namespace Trouble

def calm : Trouble := ⟨[], [], none, none⟩

/-- Counts a request against the outages in order, up to the first that strikes. -/
def strike (facility : Facility) : List Outage → Bool × List Outage
  | [] => (false, [])
  | outage :: rest =>
    if outage.facility = facility ∧ outage.after = 0 ∧ outage.times ≠ 0 then
      (true, { outage with times := outage.times - 1 } :: rest)
    else
      let (struck, rest) := strike facility rest
      let waited := if outage.facility = facility then outage.after - 1 else outage.after
      (struck, { outage with after := waited } :: rest)

/-- Counts an append against the first rival, who steps forward when its time has come. -/
def race : List Rival → Option Rival × List Rival
  | [] => (none, [])
  | rival :: rest =>
    if rival.after = 0 then (some rival, rest)
    else (none, { rival with after := rival.after - 1 } :: rest)

end Trouble

structure Troubled (σ : Type) where
  store : σ
  trouble : Trouble
  /-- The reads so far: from which position, and how many events at most. -/
  reads : Array (Nat × Nat)

namespace Troubled

variable {σ : Type}

def pass (answers : Answers σ) (state : Troubled σ) (request : Request) :
    request.Reply × Troubled σ :=
  let (reply, store) := answers request state.store
  (reply, { state with store })

/-- Lets a rival append at the version its stack is at. -/
def yieldTo (answers : Answers σ) (state : Troubled σ) (rival : Rival) :
    Except StoreError Unit × Troubled σ :=
  match state.pass answers (.version rival.stack) with
  | (.ok version, state) =>
    let (reply, state) := state.pass answers (.append rival.stack version rival.kind none)
    (reply.map fun _ => (), state)
  | (.error error, state) => (.error error, state)

/-- Counts a request against the outages. -/
def strike (state : Troubled σ) (facility : Facility) : Bool × Troubled σ :=
  let (struck, outages) := Trouble.strike facility state.trouble.outages
  (struck, { state with trouble.outages := outages })

/-- Counts an append to a stack with events against the rivals; it fails where its rival does. -/
def race (answers : Answers σ) (state : Troubled σ) (expected : Nat) :
    Except StoreError Unit × Troubled σ :=
  if expected = 0 then (.ok (), state)
  else
    let (rival, rivals) := Trouble.race state.trouble.rivals
    let state := { state with trouble.rivals := rivals }
    match rival with
    | some rival => state.yieldTo answers rival
    | none => (.ok (), state)

def outage : StoreError := .io (some "disk gone")

def lastSequence (events : List Event) : Nat := (events.getLast?.map (·.sequence)).getD 0

/-- A version is told from the loaded events, so asking for one is a load. -/
def answers (inner : Answers σ) : Answers (Troubled σ)
  | .append stack expected kind payload, state =>
    let (struck, state) := state.strike .append
    if struck then (.error outage, state)
    else
      match state.race inner expected with
      | (.ok (), state) => state.pass inner (.append stack expected kind payload)
      | (.error error, state) => (.error error, state)
  | .load stack, state =>
    let (struck, state) := state.strike .load
    if struck then (.error outage, state) else state.pass inner (.load stack)
  | .version stack, state =>
    let (struck, state) := state.strike .load
    if struck then (.error outage, state)
    else
      let (reply, state) := state.pass inner (.load stack)
      (reply.map lastSequence, state)
  | .read position limit, state =>
    let (struck, state) := { state with reads := state.reads.push (position, limit) }.strike .read
    if struck then (.error outage, state)
    else
      let limit := (state.trouble.readLimit.map (min limit)).getD limit
      state.pass inner (.read position limit)
  | .last, state =>
    let (struck, state) := state.strike .last
    if struck then (.error outage, state)
    else
      match state.trouble.falseLast with
      | some position => (.ok position, state)
      | none => state.pass inner .last

end Troubled

end StackJournal
