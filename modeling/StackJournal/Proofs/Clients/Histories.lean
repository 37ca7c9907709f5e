import StackJournal.Proofs.App.Replayed
import StackJournal.Proofs.Clients.Tracking

/-! # Histories that clients leave behind

Clients that begin with an empty store leave only histories behind that can be replayed, whatever they
call, however they take turns and whatever fails. A stack is found by just those who ask after its
creation was acknowledged.
-/
namespace StackJournal

open Operation

section Landed

variable {app : App} {log longer : Log} {now : Timestamp} {single : Operation × Outcome}
variable {operation : Operation} {landed : List (Operation × Outcome)} {plan : Plan Outcome}

/-- Only a creation gives events to a stack that had none. -/
theorem Operation.Lands.version_ne_zero_iff (h : Lands app log now single longer)
    (ordered : log.Ordered) (id : Uuid) : longer.version id ≠ 0 ↔
      log.version id ≠ 0 ∨ single = (.createStack id, .ok (.stack id)) := by
  cases h with
  | @created other fresh =>
    rw [Log.version_insert]
    by_cases hid : id = other
    · subst hid
      simp
    · rw [if_neg hid]
      exact ⟨Or.inl, fun h => h.resolve_right fun heq => by cases heq; exact hid rfl⟩
  | @dispatched other version kapp weighed =>
    rw [Log.version_insert]
    by_cases hid : id = other
    · subst hid
      obtain ⟨hlawful, _, _⟩ := App.weigh_eq_ok_iff.mp weighed
      -- a history that was weighed begins with an event
      obtain ⟨first, rest, hload, _⟩ := hlawful.begun
      have hsome : log.version id ≠ 0 := by
        rw [← ordered.indexed.length_load, hload]
        exact Nat.succ_ne_zero _
      simp [hsome]
    · rw [if_neg hid]
      exact ⟨Or.inl, fun h => h.resolve_right fun heq => nomatch heq⟩

/-- A call of which all single calls have landed has succeeded. -/
theorem Operation.Stage.succeeds (h : Stage app log operation landed plan)
    (hall : landed.map Prod.fst = operation.singles) (hsome : landed ≠ []) :
    ∃ answer, plan = .done (.ok answer) ∧ ∀ last ∈ landed.getLast?, last.2 = .ok answer := by
  cases h with
  | @finished _ outcome accounts =>
    cases outcome with
    | error error =>
      have hsingles : operation.singles ≠ [] := by
        rw [← hall]
        exact fun heq => hsome (List.map_eq_nil_iff.mp heq)
      exact absurd hall (accounts.error error rfl hsingles)
    | ok answer => exact ⟨answer, rfl, (accounts.ok answer rfl).2⟩
  | creating _ | asking _ | reading _ _ => exact absurd rfl hsome
  | loading singles | writing singles _ _ _ =>
    rw [singles] at hall
    exact absurd (List.append_right_eq_self.mp hall.symm) (List.cons_ne_nil _ _)

theorem Operation.eq_of_createStack_mem_singles {id : Uuid}
    (h : createStack id ∈ operation.singles) : operation = createStack id := by
  cases operation with
  | createStack other => exact (List.mem_singleton.mp h).symm
  | dispatch stack name => cases List.mem_singleton.mp h
  | dispatchAll stack names =>
    obtain ⟨_, _, heq⟩ := List.mem_map.mp h
    cases heq
  | push stack value =>
    rw [singles] at h
    split at h
    · obtain ⟨_, _, heq⟩ := List.mem_map.mp h
      cases heq
    · exact absurd h List.not_mem_nil
  | items _ | eventLog _ | counts _ => exact absurd h List.not_mem_nil

end Landed

namespace Shared

variable {app : App} {operations : Nat → Operation} {landed : Nat → List (Operation × Outcome)}
variable {state : Shared}

/-- A stack has events if it had some or its creation has landed. -/
theorem Tracks.version_ne_zero_iff (h : state.Tracks app operations landed) (turns : List Turn)
    (id : Uuid) : (state.run turns).2.store.log.version id ≠ 0 ↔ state.store.log.version id ≠ 0 ∨
      (.createStack id, .ok (.stack id)) ∈ landings (state.run turns).1 := by
  induction turns generalizing state landed with
  | nil => exact ⟨Or.inl, fun h => h.resolve_right List.not_mem_nil⟩
  | cons turn turns ih =>
    rw [Shared.run, landings_append, List.mem_append]
    cases h.turned turn with
    | quiet hnone hsame htracks =>
      rw [hnone]
      simpa [hsame] using ih htracks
    | landed hone hlands htracks =>
      rw [hone, List.mem_singleton, ih htracks, hlands.version_ne_zero_iff h.ordered, or_assoc]
      exact or_congr_right (or_congr_left eq_comm)

def Acknowledged (operations : Nat → Operation) (state : Shared) (id : Uuid) : Prop :=
  ∃ client, operations client = .createStack id ∧
    state.plans client = .done (.ok (.stack id))

theorem Tracks.acknowledged_iff (h : state.Tracks app operations landed) (id : Uuid) :
    Acknowledged operations state id ↔
      ∃ client, (.createStack id, .ok (.stack id)) ∈ landed client := by
  constructor
  · rintro ⟨client, hoperation, hplan⟩
    have hstage := h.stage client
    rw [hplan, hoperation] at hstage
    obtain ⟨hall, hlast⟩ := hstage.accounts.ok _ rfl
    obtain ⟨⟨operation, outcome⟩, hlanded, rfl⟩ := List.map_eq_singleton_iff.mp hall
    rw [hlanded] at hlast
    have houtcome : outcome = .ok (.stack id) := hlast _ rfl
    exact ⟨client, by rw [hlanded, houtcome]; exact List.mem_singleton_self _⟩
  · rintro ⟨client, hmem⟩
    have hstage := h.stage client
    have hoperation := eq_of_createStack_mem_singles
      (hstage.first.subset (List.mem_map_of_mem (f := Prod.fst) hmem))
    rw [hoperation] at hstage
    have hall : (landed client).map Prod.fst = [.createStack id] := by
      refine hstage.first.eq_of_length_le ?_
      rw [List.length_map]
      exact List.length_pos_of_mem hmem
    obtain ⟨answer, hplan, hlast⟩ := hstage.succeeds hall (List.ne_nil_of_mem hmem)
    obtain ⟨single, hlanded, _⟩ := List.map_eq_singleton_iff.mp hall
    rw [hlanded] at hmem hlast
    have houtcome : single.2 = .ok answer := hlast _ rfl
    rw [← List.mem_singleton.mp hmem] at houtcome
    exact ⟨client, hoperation, by rw [hplan, ← houtcome]⟩

theorem Tracks.replayed (h : state.Tracks app operations landed)
    (replays : ∀ stack, state.store.log.Replays stack) (turn : Turn) (request : Request) :
    Replayed request (state.serve turn request).1 := by
  rcases serve_cases h.sound turn request with ⟨error, hserve⟩ | ⟨hreply, _, _⟩
  · rw [hserve]
    cases request <;> trivial
  · rw [hreply]
    cases request with
    | load stack => exact replays stack
    | append _ _ _ _ | version _ | read _ _ | last => trivial

/-- No call ends in a corrupt history, over a store whose histories can be replayed. -/
theorem Tracks.safe (h : state.Tracks app operations landed)
    (replays : ∀ stack, state.store.log.Replays stack)
    (safe : ∀ client, App.Safe (state.plans client)) (turns : List Turn) (client : Nat) :
    App.Safe ((state.run turns).2.plans client) := by
  induction turns generalizing state landed with
  | nil => exact safe client
  | cons turn turns ih =>
    refine ih (h.turn turn) (fun stack => h.replays (replays stack) [turn]) fun other => ?_
    cases hplan : state.plans turn.client with
    | done outcome =>
      rw [turn_done hplan]
      exact safe other
    | ask request next =>
      have hsafe := safe turn.client
      rw [hplan] at hsafe
      rw [turn_ask hplan]
      exact (Function.forall_update_iff state.plans fun _ => App.Safe).mpr
        ⟨hsafe.2 _ (h.replayed replays turn request), fun client _ => safe client⟩ other

def itemsNow (app : App) (state : Shared) (now : Timestamp) (id : Uuid) : Outcome :=
  (((items id).plan app).run (Store.answers now .sound) state.store).1

theorem Tracks.itemsNow_eq (h : state.Tracks app operations landed) (now : Timestamp) (id : Uuid) :
    itemsNow app state now id = ((Stack.ofHistory id (state.store.log.load id)).mapError
      (AppError.ofHistory id)).map fun stack => .items stack.items := by
  rw [itemsNow, (h.sound.run_eq_log now _).1, plan, answering, App.items_eq]
  show Except.map _ (Except.map _ _) = _
  cases Stack.ofHistory id (state.store.log.load id) <;> rfl

section Empty

variable {store : Store} (sound : store.Sound) (empty : store.log = .empty)

include empty in
theorem replays_of_empty (stack : Uuid) : store.log.Replays stack := by
  rw [empty]
  exact Or.inl rfl

include sound empty

/-- From an empty store on, the stacks with events are those whose creation was acknowledged. -/
theorem version_ne_zero_iff_acknowledged (app : App) (operations : Nat → Operation)
    (turns : List Turn) (id : Uuid) :
    ((start app store operations).run turns).2.store.log.version id ≠ 0 ↔
      Acknowledged operations ((start app store operations).run turns).2 id := by
  have ordered := empty ▸ Log.ordered_empty
  have hfresh : ¬store.log.version id ≠ 0 := by
    rw [empty]
    exact fun hne => hne rfl
  rw [(tracks_run app sound ordered operations turns).acknowledged_iff, ← mem_landings_iff]
  exact ((tracks_start app sound ordered operations).version_ne_zero_iff turns id).trans
    (or_iff_right hfresh)

/-- Clients that begin with an empty store leave only histories that can be replayed. No call ends in a
corrupt history, and the items of a stack are found just if its creation was acknowledged. -/
theorem histories_replayed (app : App) (operations : Nat → Operation) (turns : List Turn) :
    let state := ((start app store operations).run turns).2
    (∀ stack, state.store.log.version stack ≠ 0 →
      Stack.Lawful stack (state.store.log.load stack) ∧
        ∃ history, Stack.ofHistory stack (state.store.log.load stack) = .ok history) ∧
    (∀ client outcome, state.plans client = .done outcome → Uncorrupted outcome) ∧
    ∀ now id,
      (Acknowledged operations state id → ∃ values, itemsNow app state now id = .ok (.items values)) ∧
      (¬Acknowledged operations state id → itemsNow app state now id = .error (.notFound id)) := by
  intro state
  have ordered := empty ▸ Log.ordered_empty
  have hstart := tracks_start app sound ordered operations
  have htracks := tracks_run app sound ordered operations turns
  have hacknowledged := version_ne_zero_iff_acknowledged sound empty app operations turns
  have hlawful : ∀ stack, state.store.log.version stack ≠ 0 →
      Stack.Lawful stack (state.store.log.load stack) := fun stack =>
    (hstart.replays (replays_of_empty empty stack) turns).lawful htracks.ordered
  refine ⟨fun stack hversion => ⟨hlawful stack hversion,
    Stack.exists_ofHistory_iff.mpr (hlawful stack hversion)⟩, ?_, fun now id => ⟨?_, ?_⟩⟩
  · intro client outcome hplan
    have hsafe := hstart.safe (replays_of_empty empty)
      (fun client => (operations client).plan_safe app) turns client
    rw [hplan] at hsafe
    exact hsafe
  · intro hid
    obtain ⟨history, hhistory⟩ :=
      Stack.exists_ofHistory_iff.mpr (hlawful id ((hacknowledged id).mpr hid))
    exact ⟨history.items, by rw [htracks.itemsNow_eq, hhistory]; rfl⟩
  · intro hid
    have hnone : state.store.log.load id = [] := by
      rw [← List.length_eq_zero_iff, htracks.ordered.indexed.length_load]
      exact not_not.mp (mt (hacknowledged id).mp hid)
    rw [htracks.itemsNow_eq, hnone]
    rfl

end Empty

def contest : Nat → Operation
  | 0 | 1 => .createStack ⟨0⟩
  | _ => .dispatch ⟨0⟩ "zero"

/-- The second creation comes too late, and the append of the dispatch fails. -/
def mishaps : List Turn :=
  [⟨0, .epoch, none⟩, ⟨1, .epoch, none⟩, ⟨2, .epoch, none⟩, ⟨2, .epoch, some (.io none)⟩]

theorem contest_replayed : (Store.memory .empty).Sound ∧ (Store.memory .empty).log = .empty ∧
    let state := ((start .standard (.memory .empty) contest).run mishaps).2
    state.store.log.version ⟨0⟩ = 1 ∧ Stack.Lawful ⟨0⟩ (state.store.log.load ⟨0⟩) ∧
      itemsNow .standard state .epoch ⟨1⟩ = .error (.notFound ⟨1⟩) := by
  have sound : (Store.memory .empty).Sound := trivial
  obtain ⟨hlawful, _, hitems⟩ := histories_replayed sound rfl .standard contest mishaps
  refine ⟨sound, rfl, rfl, (hlawful ⟨0⟩ (by decide)).1, (hitems .epoch ⟨1⟩).2 ?_⟩
  rintro ⟨_ | _ | _, hoperation, _⟩ <;> cases hoperation

end Shared

end StackJournal
