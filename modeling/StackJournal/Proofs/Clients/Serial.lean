import StackJournal.Proofs.Clients.Race

/-! # Clients that get in each other's way

However the clients take turns, what they have done is what the single calls that landed would do if
they were made one after another. A dispatch fails just if another append to its stack came between its
load and its own append, and then it has changed nothing.
-/
namespace StackJournal

open Operation

namespace Store

def perform (app : App) (store : Store) : List (Timestamp × Operation) → List Outcome × Store
  | [] => ([], store)
  | (now, operation) :: rest =>
    let first := (operation.plan app).run (answers now .sound) store
    let later := first.2.perform app rest
    (first.1 :: later.1, later.2)

end Store

section Alone

variable {app : App} {log other longer : Log} {now : Timestamp} {single : Operation × Outcome}

theorem App.weigh_stamped (app : App) (stack : Uuid) (name : String) (events : List Event)
    (moment : Timestamp) :
    app.weigh stack name (events.map (·.stamped moment)) = app.weigh stack name events := by
  rw [weigh, weigh, Stack.ofHistory_stamped]

/-- A log that differs in moments only weighs the same. -/
theorem App.weigh_of_stamped_eq (app : App) (h : ∀ moment, other.stamped moment = log.stamped moment)
    (stack : Uuid) (name : String) :
    app.weigh stack name (other.load stack) = app.weigh stack name (log.load stack) := by
  rw [← app.weigh_stamped stack name (other.load stack) .epoch, ← Log.load_stamped, h,
    Log.load_stamped, app.weigh_stamped]

/-- A single call that lands does the same if it is made alone. -/
theorem Operation.Lands.alone (h : Lands app log now single longer) (ordered : log.Ordered)
    (same : ∀ moment, other.stamped moment = log.stamped moment) (then' : Timestamp) :
    let alone := (single.1.plan app).run (fun request log => log.answers then' request) other
    alone.1 = single.2 ∧ ∀ moment, alone.2.stamped moment = longer.stamped moment := by
  cases h with
  | @created id fresh =>
    have hcurrent : other.version id = 0 :=
      (Log.version_of_stamped_eq (same .epoch) id).trans fresh
    have hreply : other.answers then' (.append id 0 .create none) = _ :=
      Log.append_taken hcurrent then' .create none
    rw [plan_createStack, Plan.run_ask, hreply]
    exact ⟨rfl, fun moment =>
      Log.insert_retimed (same moment) ⟨id, 0, .create, none⟩ then' now⟩
  | @dispatched stack version kapp weighed =>
    obtain ⟨_, hversion, _⟩ := App.weigh_eq_ok_iff.mp weighed
    rw [ordered.indexed.length_load] at hversion
    have hcurrent : other.version stack = version :=
      (Log.version_of_stamped_eq (same .epoch) stack).trans hversion.symm
    have hload : other.answers then' (.load stack) = (.ok (other.load stack), other) := rfl
    have hweigh := app.weigh_of_stamped_eq same stack kapp.name
    have hreply : other.answers then' (.append stack version (.kapp kapp) none) = _ :=
      Log.append_taken hcurrent then' (.kapp kapp) none
    rw [plan_dispatch, Plan.run_ask, hload, App.reply, hweigh, weighed, App.writeWeighed,
      write_thenEach, Plan.run_ask, hreply]
    exact ⟨rfl, fun moment =>
      Log.insert_retimed (same moment) ⟨stack, version, .kapp kapp, none⟩ then' now⟩

end Alone

/-- The single calls that landed, made one after another at any moments, have the same outcomes and
leave the same log. -/
def Serial (app : App) (store : Store) (trace : List Record × Shared) : Prop :=
  ∀ timed : List (Timestamp × Operation),
    timed.map Prod.snd = (landings trace.1).map Prod.fst →
      (store.perform app timed).1 = (landings trace.1).map Prod.snd ∧
      ∀ moment, (store.perform app timed).2.log.stamped moment = trace.2.store.log.stamped moment

namespace Shared

variable {app : App} {operations : Nat → Operation} {landed : Nat → List (Operation × Outcome)}
variable {state : Shared}

theorem Tracks.serial (h : state.Tracks app operations landed) (turns : List Turn) {store : Store}
    (sound : store.Sound) (same : ∀ moment, store.log.stamped moment = state.store.log.stamped moment) :
    Serial app store (state.run turns) := by
  -- the store of the single calls keeps up with the shared one, but for the moments
  induction turns generalizing state landed store with
  | nil =>
    intro timed htimed
    obtain rfl := List.map_eq_nil_iff.mp htimed
    exact ⟨rfl, same⟩
  | cons turn turns ih =>
    intro timed htimed
    rw [Shared.run, landings_append] at htimed ⊢
    cases h.turned turn with
    | quiet hnone hsame htracks =>
      rw [hnone] at htimed ⊢
      exact ih htracks sound (fun moment => hsame ▸ same moment) timed htimed
    | landed hone hlands htracks =>
      rw [hone] at htimed ⊢
      obtain ⟨⟨now, operation⟩, timed, rfl⟩ := List.exists_cons_of_ne_nil
        (show timed ≠ [] by rintro rfl; cases htimed)
      obtain ⟨hoperation, hrest⟩ := List.cons.inj htimed
      simp only at hoperation
      subst hoperation
      obtain ⟨hfirst, hlater⟩ := hlands.alone h.ordered same now
      obtain ⟨houtcome, hlog, hsound⟩ := sound.run_eq_log now (_ : Plan Outcome)
      obtain ⟨houtcomes, hfinal⟩ := ih htracks hsound
        (fun moment => (congrArg (·.stamped moment) hlog).trans (hlater moment)) timed hrest
      refine ⟨?_, hfinal⟩
      rw [Store.perform, houtcomes, houtcome, hfirst]
      rfl

/-- However clients take turns over one store, the single calls that landed are serial, and they are
the calls that the clients made, up to where these failed or have come. A history that can be replayed
stays so, and from any state on every dispatch of an existing stack is decided by its rivals. -/
theorem interleaved_serial (app : App) {store : Store} (sound : store.Sound)
    (ordered : store.log.Ordered) (operations : Nat → Operation) (turns : List Turn) :
    let trace := (start app store operations).run turns
    Serial app store trace ∧
    (∀ client, (landingsOf client trace.1).map Prod.fst <+: (operations client).singles ∧
      ∀ outcome, trace.2.plans client = .done outcome →
        (operations client).Accounts (landingsOf client trace.1) outcome) ∧
    (∀ stack, store.log.Replays stack → trace.2.store.log.Replays stack) ∧
    ∀ attempt : Attempt app trace.2, attempt.Decided := by
  have hstart := tracks_start app sound ordered operations
  have htracks := tracks_run app sound ordered operations turns
  refine ⟨hstart.serial turns sound fun _ => rfl, fun client => ⟨(htracks.stage client).first, ?_⟩,
    fun stack replays => hstart.replays replays turns,
    fun attempt => attempt.decided htracks.sound htracks.ordered⟩
  intro outcome hplan
  have hstage := htracks.stage client
  rw [hplan] at hstage
  exact hstage.accounts

def meeting : Nat → Operation
  | 0 => .createStack ⟨0⟩
  | _ => .dispatch ⟨0⟩ "zero"

def created : Shared :=
  ((start .standard (.memory .empty) meeting).run [⟨0, .epoch, none⟩]).2

/-- Client 2 loads, then client 1 dispatches, and then client 2 appends. -/
def outrun (replays : created.store.log.Replays ⟨0⟩) : Attempt .standard created where
  stack := ⟨0⟩
  name := "zero"
  next result := .done (result.map .version)
  load := ⟨2, .epoch, none⟩
  others := [⟨1, .epoch, none⟩, ⟨1, .epoch, none⟩]
  write := ⟨2, .epoch, none⟩
  begins := rfl
  grounded := by decide
  implemented := Gate.isGrounded_standard_iff.mp (by decide)
  existing := by decide
  replays := replays
  calm := ⟨rfl, rfl⟩
  away := by decide
  back := rfl

theorem dispatch_outrun : (Store.memory .empty).Sound ∧ (Store.memory .empty).log.Ordered ∧
    ∃ attempt : Attempt .standard created, attempt.rivals = 1 ∧
      attempt.after.plans 2 = .done (.error (.conflict ⟨0⟩ 1 2)) := by
  have sound : (Store.memory .empty).Sound := trivial
  obtain ⟨_, _, hreplays, hdecided⟩ :=
    interleaved_serial .standard sound Log.ordered_empty meeting [⟨0, .epoch, none⟩]
  have attempted := hdecided (outrun (hreplays ⟨0⟩ (Or.inl rfl)))
  exact ⟨sound, Log.ordered_empty, _, rfl, (attempted.conflicts Nat.one_ne_zero).1⟩

end Shared

end StackJournal
