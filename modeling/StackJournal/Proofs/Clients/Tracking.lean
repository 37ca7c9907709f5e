import StackJournal.Proofs.Clients.Progress

/-! # Following the clients of a store

In every turn either one single call lands or the log stays as it is. So at any time the records tell
which single calls of each client have landed, and in which order.
-/
namespace StackJournal

open Operation

def landings (records : List Record) : List (Operation × Outcome) :=
  records.filterMap fun record => landing? record.request record.reply

def landingsOf (client : Nat) (records : List Record) : List (Operation × Outcome) :=
  landings (records.filter (·.client == client))

theorem landings_append (records later : List Record) :
    landings (records ++ later) = landings records ++ landings later := List.filterMap_append

theorem landingsOf_append (client : Nat) (records later : List Record) :
    landingsOf client (records ++ later) = landingsOf client records ++ landingsOf client later := by
  rw [landingsOf, List.filter_append, landings_append]
  rfl

theorem mem_landings_iff {records : List Record} {single : Operation × Outcome} :
    single ∈ landings records ↔ ∃ client, single ∈ landingsOf client records := by
  simp only [landingsOf, landings, List.mem_filterMap, List.mem_filter, beq_iff_eq]
  constructor
  · rintro ⟨record, hrecord, hsingle⟩
    exact ⟨record.client, record, ⟨hrecord, rfl⟩, hsingle⟩
  · rintro ⟨_, record, ⟨hrecord, _⟩, hsingle⟩
    exact ⟨record, hrecord, hsingle⟩

namespace Shared

variable {app : App} {operations : Nat → Operation} {landed : Nat → List (Operation × Outcome)}
variable {state : Shared}

theorem turn_done {turn : Turn} {outcome : Outcome}
    (h : state.plans turn.client = .done outcome) : state.turn turn = ([], state) := by
  rw [Shared.turn, h]

theorem turn_ask {turn : Turn} {request : Request} {next : request.Reply → Plan Outcome}
    (h : state.plans turn.client = .ask request next) : state.turn turn =
      ([⟨turn.client, request, (state.serve turn request).1⟩], ⟨(state.serve turn request).2,
        Function.update state.plans turn.client (next (state.serve turn request).1)⟩) := by
  rw [Shared.turn, h]

theorem client_of_mem_turn {turn : Turn} {record : Record} (h : record ∈ (state.turn turn).1) :
    record.client = turn.client := by
  cases hplan : state.plans turn.client with
  | done outcome =>
    rw [turn_done hplan] at h
    exact absurd h List.not_mem_nil
  | ask request next =>
    rw [turn_ask hplan] at h
    rw [List.mem_singleton.mp h]

/-- A turn records requests of its client only. -/
theorem landingsOf_turn (state : Shared) (turn : Turn) (client : Nat) :
    landingsOf client (state.turn turn).1 =
      if client = turn.client then landings (state.turn turn).1 else [] := by
  rw [landingsOf]
  by_cases hclient : client = turn.client
  · have hall : (state.turn turn).1.filter (·.client == client) = (state.turn turn).1 :=
      List.filter_eq_self.mpr fun record hrecord =>
        beq_iff_eq.mpr ((client_of_mem_turn hrecord).trans hclient.symm)
    rw [hall, if_pos hclient]
  · have hnone : (state.turn turn).1.filter (·.client == client) = [] :=
      List.filter_eq_nil_iff.mpr fun record hrecord heq =>
        hclient ((beq_iff_eq.mp heq).symm.trans (client_of_mem_turn hrecord))
    rw [hnone, if_neg hclient]
    rfl

/-- The store takes events, and every call has come as far as what has landed of it tells. -/
structure Tracks (app : App) (operations : Nat → Operation)
    (landed : Nat → List (Operation × Outcome)) (state : Shared) : Prop where
  sound : state.store.Sound
  ordered : state.store.log.Ordered
  stage : ∀ client,
    Stage app state.store.log (operations client) (landed client) (state.plans client)

theorem tracks_start (app : App) {store : Store} (sound : store.Sound) (ordered : store.log.Ordered)
    (operations : Nat → Operation) : (start app store operations).Tracks app operations fun _ => [] :=
  ⟨sound, ordered, fun client => stage_plan app store.log (operations client)⟩

/-- A client goes on with the reply it is given. -/
theorem Tracks.advances (h : state.Tracks app operations landed) {turn : Turn} {request : Request}
    {next : request.Reply → Plan Outcome} (hplan : state.plans turn.client = .ask request next) :
    (state.serve turn request).2.Sound ∧
      Advance app state.store.log turn.now (operations turn.client) (landed turn.client) request next
        (state.serve turn request).1 (state.serve turn request).2.log := by
  have hstage := h.stage turn.client
  rw [hplan] at hstage
  rcases serve_cases h.sound turn request with ⟨error, hserve⟩ | ⟨hreply, hlog, hsound⟩
  · rw [hserve]
    exact ⟨h.sound, hstage.fails turn.now error⟩
  · rw [hreply, hlog]
    exact ⟨hsound, hstage.advances h.ordered turn.now⟩

inductive Turned (app : App) (operations : Nat → Operation)
    (landed : Nat → List (Operation × Outcome)) (state : Shared) (turn : Turn)
    (later : List Record × Shared) : Prop
  | quiet (none : landings later.1 = []) (same : later.2.store.log = state.store.log)
      (tracks : later.2.Tracks app operations landed)
  | landed {single : Operation × Outcome} (one : landings later.1 = [single])
      (lands : Lands app state.store.log turn.now single later.2.store.log)
      (tracks : later.2.Tracks app operations
        (Function.update landed turn.client (landed turn.client ++ [single])))

theorem Tracks.turned (h : state.Tracks app operations landed) (turn : Turn) :
    Turned app operations landed state turn (state.turn turn) := by
  cases hplan : state.plans turn.client with
  | done outcome =>
    rw [turn_done hplan]
    exact .quiet rfl rfl h
  | ask request next =>
    rw [turn_ask hplan]
    obtain ⟨hsound, hadvance⟩ := h.advances hplan
    cases hadvance with
    | quiet hnone hsame hstage =>
      refine .quiet (by simp [landings, hnone]) hsame ⟨hsound, hsame ▸ h.ordered, ?_⟩
      refine (Function.forall_update_iff state.plans fun client plan =>
        Stage app (state.serve turn request).2.log (operations client) (landed client) plan).mpr
          ⟨?_, fun client _ => ?_⟩
      · rwa [hsame]
      · rw [hsame]
        exact h.stage client
    | @landed single hsome hlands hstage =>
      refine .landed (by simp [landings, hsome]) hlands ⟨hsound, hlands.ordered h.ordered, ?_⟩
      refine (Function.forall_update_iff state.plans fun client plan =>
        Stage app (state.serve turn request).2.log (operations client)
          (Function.update landed turn.client (landed turn.client ++ [single]) client) plan).mpr
          ⟨?_, fun client hclient => ?_⟩
      · rwa [Function.update_self]
      · rw [Function.update_of_ne hclient]
        exact (h.stage client).extend hlands.grows

theorem Tracks.turn (h : state.Tracks app operations landed) (turn : Turn) :
    (state.turn turn).2.Tracks app operations
      fun client => landed client ++ landingsOf client (state.turn turn).1 := by
  cases h.turned turn with
  | quiet hnone _ htracks =>
    have hsame : (fun client => landed client ++ landingsOf client (state.turn turn).1) = landed := by
      funext client
      rw [landingsOf_turn, hnone, ite_self, List.append_nil]
    rwa [hsame]
  | @landed single hone _ htracks =>
    have hmore : (fun client => landed client ++ landingsOf client (state.turn turn).1) =
        Function.update landed turn.client (landed turn.client ++ [single]) := by
      funext client
      rw [landingsOf_turn, hone]
      by_cases hclient : client = turn.client
      · subst hclient
        rw [if_pos rfl, Function.update_self]
      · rw [if_neg hclient, Function.update_of_ne hclient, List.append_nil]
    rwa [hmore]

theorem Tracks.run (h : state.Tracks app operations landed) (turns : List Turn) :
    (state.run turns).2.Tracks app operations
      fun client => landed client ++ landingsOf client (state.run turns).1 := by
  induction turns generalizing state landed with
  | nil =>
    have hsame : (fun client => landed client ++ landingsOf client (state.run []).1) = landed :=
      funext fun client => List.append_nil _
    rw [hsame]
    exact h
  | cons turn turns ih =>
    have hmore : (fun client => landed client ++ landingsOf client (state.run (turn :: turns)).1) =
        fun client => (landed client ++ landingsOf client (state.turn turn).1) ++
          landingsOf client ((state.turn turn).2.run turns).1 := by
      funext client
      rw [Shared.run, landingsOf_append, List.append_assoc]
    rw [hmore]
    exact ih (h.turn turn)

/-- A history that can be replayed can be replayed for ever after. -/
theorem Tracks.replays (h : state.Tracks app operations landed) {stack : Uuid}
    (replays : state.store.log.Replays stack) (turns : List Turn) :
    (state.run turns).2.store.log.Replays stack := by
  induction turns generalizing state landed with
  | nil => exact replays
  | cons turn turns ih =>
    cases h.turned turn with
    | quiet _ hsame htracks => exact ih htracks (hsame ▸ replays)
    | landed _ hlands htracks => exact ih htracks (hlands.replays h.ordered replays)

/-- The log only grows. -/
theorem Tracks.grows (h : state.Tracks app operations landed) (turns : List Turn) :
    (state.run turns).2.store.log.Extends state.store.log := by
  induction turns generalizing state landed with
  | nil => exact .refl _
  | cons turn turns ih =>
    cases h.turned turn with
    | quiet _ hsame htracks => exact hsame ▸ ih htracks
    | landed _ hlands htracks => exact (ih htracks).trans hlands.grows

/-- At any time the records tell how far every call has come. -/
theorem tracks_run (app : App) {store : Store} (sound : store.Sound) (ordered : store.log.Ordered)
    (operations : Nat → Operation) (turns : List Turn) :
    ((start app store operations).run turns).2.Tracks app operations
      fun client => landingsOf client ((start app store operations).run turns).1 :=
  (tracks_start app sound ordered operations).run turns

end Shared

end StackJournal
