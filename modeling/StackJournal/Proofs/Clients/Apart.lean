import StackJournal.Proofs.Clients.Alone
import StackJournal.Proofs.Clients.Serial
import StackJournal.Proofs.Feed.Drained

/-! # Stacks that leave each other alone

What a dispatch does to its stack depends on the events of this stack alone, and only its own stack is
changed. So the dispatches to one stack come to the same, whatever is dispatched to others and when.
-/
namespace StackJournal

open Operation

/-- What an event says of its stack, wherever and whenever it was recorded. -/
def Event.content (event : Event) : Nat × EventKind × Option Json :=
  (event.sequence, event.kind, event.payload)

namespace Stack

variable {events others : List Event}

theorem foldlM_replay_of_content_eq (stack : Stack) (own : ∀ event ∈ events, event.stack = stack.id)
    (own' : ∀ event ∈ others, event.stack = stack.id)
    (h : events.map Event.content = others.map Event.content) :
    events.foldlM replay stack = others.foldlM replay stack := by
  induction events generalizing others stack with
  | nil =>
    cases others with
    | nil => rfl
    | cons _ _ => cases h
  | cons event events ih =>
    cases others with
    | nil => cases h
    | cons other others =>
      obtain ⟨hfirst, hrest⟩ := List.cons.inj h
      simp only [Event.content, Prod.mk.injEq] at hfirst
      obtain ⟨hsequence, hkind, _⟩ := hfirst
      rw [List.forall_mem_cons] at own own'
      have hreplay : stack.replay event = stack.replay other := by
        have hown : ¬event.stack ≠ stack.id := fun hne => hne own.1
        have hown' : ¬other.stack ≠ stack.id := fun hne => hne own'.1
        rw [replay, replay, if_neg hown, if_neg hown', hsequence, hkind]
      rw [List.foldlM_cons, List.foldlM_cons, ← hreplay]
      cases hnext : stack.replay event with
      | error fault => rfl
      | ok next =>
        obtain ⟨_, _, _, rfl⟩ := replay_eq_ok_iff.mp hnext
        exact ih _ own.2 own'.2 hrest

/-- The history of a stack is judged by what its events say. -/
theorem ofHistory_of_content_eq {id : Uuid} (own : ∀ event ∈ events, event.stack = id)
    (own' : ∀ event ∈ others, event.stack = id)
    (h : events.map Event.content = others.map Event.content) :
    ofHistory id events = ofHistory id others := by
  have hfold := foldlM_replay_of_content_eq (blank id) own own' h
  cases events with
  | nil =>
    cases others with
    | nil => rfl
    | cons _ _ => cases h
  | cons event events =>
    cases others with
    | nil => cases h
    | cons other others =>
      have hkind : event.kind = other.kind := congrArg (·.2.1) (List.cons.inj h).1
      rw [ofHistory, ofHistory, hfold, hkind]

end Stack

namespace Log

def SameOn (stack : Uuid) (a b : Log) : Prop :=
  (a.load stack).map Event.content = (b.load stack).map Event.content

theorem Indexed.own {log : Log} (h : log.Indexed) (stack : Uuid) :
    ∀ event ∈ log.load stack, event.stack = stack := by
  intro event hevent
  rw [h.load_eq, List.mem_filter] at hevent
  exact eq_of_beq hevent.2

section SameOn

variable {a b : Log} {stack : Uuid}

theorem SameOn.version (h : SameOn stack a b) (ha : a.Indexed) (hb : b.Indexed) :
    a.version stack = b.version stack := by
  rw [← ha.length_load, ← hb.length_load, ← List.length_map, h, List.length_map]

theorem SameOn.ofHistory (h : SameOn stack a b) (ha : a.Indexed) (hb : b.Indexed) :
    Stack.ofHistory stack (a.load stack) = Stack.ofHistory stack (b.load stack) :=
  Stack.ofHistory_of_content_eq (ha.own stack) (hb.own stack) h

theorem SameOn.recorded (h : SameOn stack a b) (ha : a.Indexed) (hb : b.Indexed)
    (now then' : Timestamp) (kind : EventKind) :
    SameOn stack (a.recorded now stack kind) (b.recorded then' stack kind) := by
  rw [SameOn, ha.load_recorded, hb.load_recorded, List.map_append, List.map_append, h,
    h.version ha hb]
  rfl

theorem Indexed.sameOn_recorded (ha : a.Indexed) {other : Uuid} (hne : other ≠ stack)
    (now : Timestamp) (kind : EventKind) : SameOn stack (a.recorded now other kind) a := by
  rw [SameOn, Log.recorded, ha.load_insert_of_ne hne]

theorem SameOn.kinds (h : SameOn stack a b) :
    (a.load stack).map (·.kind) = (b.load stack).map (·.kind) := by
  have hkinds := congrArg (List.map (·.2.1)) h
  rwa [List.map_map, List.map_map] at hkinds

/-- The events of a stack, counted among all. -/
theorem count_own (events : List Event) (stack : Uuid) (kind : EventKind) :
    (events.map fun event => (event.stack, event.kind)).count (stack, kind) =
      ((events.filter (·.stack == stack)).map (·.kind)).count kind := by
  induction events with
  | nil => rfl
  | cons event events ih =>
    rw [List.map_cons, List.count_cons, ih, List.filter_cons]
    by_cases hstack : event.stack = stack
    · rw [if_pos (beq_iff_eq.mpr hstack), List.map_cons, List.count_cons, ← hstack]
      simp
    · rw [if_neg (fun heq => hstack (eq_of_beq heq))]
      simp [hstack]

/-- Logs that say the same of every stack have the same events, but for their order and place. -/
theorem perm_of_sameOn (ha : a.Indexed) (hb : b.Indexed) (h : ∀ stack, SameOn stack a b) :
    (a.events.toList.map fun event => (event.stack, event.kind)).Perm
      (b.events.toList.map fun event => (event.stack, event.kind)) := by
  refine List.perm_iff_count.mpr fun ⟨stack, kind⟩ => ?_
  rw [count_own, count_own, ← ha.load_eq, ← hb.load_eq, (h stack).kinds]

end SameOn

end Log

section Dispatched

variable {app : App} {stack : Uuid} {name : String} {a b a' b' : Log}
variable {result result' : Except AppError Nat}

theorem Log.SameOn.weigh (h : a.SameOn stack b) (ha : a.Indexed) (hb : b.Indexed) (app : App)
    (name : String) : app.weigh stack name (a.load stack) = app.weigh stack name (b.load stack) := by
  rw [App.weigh, App.weigh, h.ofHistory ha hb]

/-- Where the logs say the same of its stack, a dispatch comes to the same. -/
theorem App.Dispatched.sameOn (h : app.Dispatched stack name a result a')
    (h' : app.Dispatched stack name b result' b') (same : a.SameOn stack b) (ha : a.Indexed)
    (hb : b.Indexed) : result = result' ∧ a'.SameOn stack b' := by
  have hweigh := same.weigh ha hb app name
  cases h with
  | refused weighed =>
    rw [weighed] at hweigh
    cases h' with
    | refused weighed' =>
      rw [weighed'] at hweigh
      cases hweigh
      exact ⟨rfl, same⟩
    | recorded weighed' =>
      rw [weighed'] at hweigh
      cases hweigh
  | recorded weighed =>
    rw [weighed] at hweigh
    cases h' with
    | refused weighed' =>
      rw [weighed'] at hweigh
      cases hweigh
    | recorded weighed' =>
      rw [weighed', same.version ha hb] at hweigh
      cases hweigh
      rw [same.version ha hb]
      exact ⟨rfl, same.recorded ha hb _ _ _⟩

/-- A dispatch leaves the other stacks alone. -/
theorem App.Dispatched.sameOn_of_ne {other : Uuid} (h : app.Dispatched other name a result a')
    (ha : a.Indexed) (hne : other ≠ stack) : a'.SameOn stack a := by
  cases h with
  | refused _ => exact Eq.refl _
  | recorded _ => exact ha.sameOn_recorded hne _ _

end Dispatched

structure Errand where
  now : Timestamp
  stack : Uuid
  name : String

namespace Errand

def call (errand : Errand) : Timestamp × Operation :=
  (errand.now, .dispatch errand.stack errand.name)

def namesTo (stack : Uuid) (errands : List Errand) : List String :=
  (errands.filter (·.stack == stack)).map (·.name)

def outcomesTo (stack : Uuid) (errands : List Errand) (outcomes : List Outcome) : List Outcome :=
  ((errands.zip outcomes).filter (·.1.stack == stack)).map Prod.snd

end Errand

namespace Store

/-- What is performed of a dispatch and of the calls after it. -/
theorem Sound.perform_cons {store : Store} (sound : store.Sound) (ordered : store.log.Ordered)
    (app : App) (errand : Errand) :
    ∃ (result : Except AppError Nat) (after : Store),
      (∀ rest, store.perform app (errand.call :: rest) =
        (result.map .version :: (after.perform app rest).1, (after.perform app rest).2)) ∧
      app.Dispatched errand.stack errand.name store.log result after.log ∧
      after.Sound ∧ after.log.Ordered := by
  obtain ⟨hdispatched, hsound⟩ :=
    (serves errand.now).run_dispatch sound ordered.indexed app errand.stack errand.name
  refine ⟨_, _, fun rest => ?_, hdispatched, hsound, hdispatched.ordered ordered⟩
  have hrun : (errand.call.2.plan app).run (answers errand.call.1 .sound) store = _ :=
    Plan.run_bind _ _ _ _
  rw [perform, hrun]
  rfl

variable (app : App) {store other : Store} {stack : Uuid} {errands calls : List Errand}

theorem Sound.perform (sound : store.Sound) (ordered : store.log.Ordered) :
    (store.perform app (errands.map Errand.call)).2.Sound ∧
      (store.perform app (errands.map Errand.call)).2.log.Ordered := by
  induction errands generalizing store with
  | nil => exact ⟨sound, ordered⟩
  | cons errand errands ih =>
    obtain ⟨_, after, hperform, _, hsound, hordered⟩ := sound.perform_cons ordered app errand
    rw [List.map_cons, hperform]
    exact ih hsound hordered

/-- The dispatches to a stack come to what they would come to without the others. -/
theorem perform_purged (sound : store.Sound) (ordered : store.log.Ordered) (sound' : other.Sound)
    (ordered' : other.log.Ordered) (same : store.log.SameOn stack other.log)
    (own : ∀ call ∈ calls, call.stack = stack)
    (names : Errand.namesTo stack errands = calls.map (·.name)) :
    Errand.outcomesTo stack errands (store.perform app (errands.map Errand.call)).1 =
        (other.perform app (calls.map Errand.call)).1 ∧
      (store.perform app (errands.map Errand.call)).2.log.SameOn stack
        (other.perform app (calls.map Errand.call)).2.log := by
  -- what goes to other stacks leaves the logs the same on this one, what goes to it is done in both
  induction errands generalizing store other calls with
  | nil =>
    obtain rfl := List.map_eq_nil_iff.mp names.symm
    exact ⟨rfl, same⟩
  | cons errand errands ih =>
    obtain ⟨result, after, hperform, hdispatched, hsound, hordered⟩ :=
      sound.perform_cons ordered app errand
    rw [List.map_cons, hperform, Errand.outcomesTo, List.zip_cons_cons, List.filter_cons]
    rw [Errand.namesTo, List.filter_cons] at names
    by_cases hstack : errand.stack = stack
    · have htrue : (errand.stack == stack) = true := beq_iff_eq.mpr hstack
      rw [if_pos htrue, List.map_cons] at names
      obtain ⟨call, calls, rfl⟩ := List.exists_cons_of_ne_nil
        (show calls ≠ [] by rintro rfl; cases names)
      obtain ⟨hname, hnames⟩ := List.cons.inj names
      have hname : errand.name = call.name := hname
      rw [List.forall_mem_cons] at own
      obtain ⟨result', after', hperform', hdispatched', hsound', hordered'⟩ :=
        sound'.perform_cons ordered' app call
      rw [own.1, ← hname] at hdispatched'
      rw [hstack] at hdispatched
      obtain ⟨rfl, hsame⟩ :=
        hdispatched.sameOn hdispatched' same ordered.indexed ordered'.indexed
      obtain ⟨houtcomes, hlogs⟩ := ih hsound hordered hsound' hordered' hsame own.2 hnames
      rw [List.map_cons, hperform', if_pos htrue, List.map_cons]
      exact ⟨congrArg _ houtcomes, hlogs⟩
    · have hfalse : ¬(errand.stack == stack) = true := fun heq => hstack (eq_of_beq heq)
      rw [if_neg hfalse] at names
      have hsame := (hdispatched.sameOn_of_ne ordered.indexed hstack).trans same
      obtain ⟨houtcomes, hlogs⟩ := ih hsound hordered sound' ordered' hsame own names
      rw [if_neg hfalse]
      exact ⟨houtcomes, hlogs⟩

/-- The logs after two orders of the same dispatches to each stack say the same of it. -/
theorem perform_reordered (sound : store.Sound) (ordered : store.log.Ordered)
    {others : List Errand}
    (reordered : Errand.namesTo stack errands = Errand.namesTo stack others) :
    Errand.outcomesTo stack errands (store.perform app (errands.map Errand.call)).1 =
        Errand.outcomesTo stack others (store.perform app (others.map Errand.call)).1 ∧
      (store.perform app (errands.map Errand.call)).2.log.SameOn stack
        (store.perform app (others.map Errand.call)).2.log := by
  have hown : ∀ call ∈ errands.filter (·.stack == stack), call.stack = stack :=
    fun call hcall => eq_of_beq (List.mem_filter.mp hcall).2
  obtain ⟨houtcomes, hlogs⟩ :=
    perform_purged app sound ordered sound ordered (Eq.refl _) hown rfl
  obtain ⟨houtcomes', hlogs'⟩ :=
    perform_purged app sound ordered sound ordered (Eq.refl _) hown reordered.symm
  exact ⟨houtcomes.trans houtcomes'.symm, Eq.trans hlogs hlogs'.symm⟩

/-- Dispatches to any stacks come to the same in whatever order they are made, if those to each stack
keep theirs: each has its outcome, each stack its version, its items and what its events say, and the
last position and the counts are as many. Only where in the log an event stands may differ, and when it
was recorded. -/
theorem dispatches_apart (app : App) {store : Store} (sound : store.Sound)
    (ordered : store.log.Ordered) {errands others : List Errand}
    (reordered : ∀ stack, Errand.namesTo stack errands = Errand.namesTo stack others) :
    let first := store.perform app (errands.map Errand.call)
    let second := store.perform app (others.map Errand.call)
    (∀ stack,
      Errand.outcomesTo stack errands first.1 = Errand.outcomesTo stack others second.1 ∧
      (first.2.log.load stack).map Event.content = (second.2.log.load stack).map Event.content ∧
      first.2.log.version stack = second.2.log.version stack ∧
      ∀ now then', (((items stack).plan app).run (answers now .sound) first.2).1 =
        (((items stack).plan app).run (answers then' .sound) second.2).1) ∧
    first.2.log.lastPosition = second.2.log.lastPosition ∧
    ∀ now then', (((counts 1).plan app).run (answers now .sound) first.2).1 =
      (((counts 1).plan app).run (answers then' .sound) second.2).1 := by
  intro first second
  obtain ⟨hsound, hordered⟩ : first.2.Sound ∧ first.2.log.Ordered := sound.perform app ordered
  obtain ⟨hsound', hordered'⟩ : second.2.Sound ∧ second.2.log.Ordered := sound.perform app ordered
  have hsame : ∀ stack, first.2.log.SameOn stack second.2.log :=
    fun stack => (perform_reordered app sound ordered (reordered stack)).2
  have hperm := Log.perm_of_sameOn hordered.indexed hordered'.indexed hsame
  refine ⟨fun stack => ⟨(perform_reordered app sound ordered (reordered stack)).1, hsame stack,
    (hsame stack).version hordered.indexed hordered'.indexed, ?_⟩, ?_, ?_⟩
  · intro now then'
    have hhistory := (hsame stack).ofHistory hordered.indexed hordered'.indexed
    rw [plan, answering, Plan.run_bind, Plan.run_bind, (serves now).run_items hsound,
      (serves then').run_items hsound', hhistory]
    rfl
  · have hlength := hperm.length_eq
    rwa [List.length_map, List.length_map] at hlength
  · intro now then'
    have hall : ∀ {log : Log}, log.Ordered →
        log.events.toList.filter (max 1 1 ≤ ·.position) = log.events.toList :=
      fun hlog => hlog.filter_position 1
    have hnames := hperm.map fun event => event.2.name
    rw [List.map_map, List.map_map] at hnames
    have htally := App.tally_eq_of_perm (hnames.filter app.gate.isGrounded)
    rw [plan, answering, Plan.run_bind, Plan.run_bind,
      app.run_counts (pages now .sound) hordered, app.run_counts (pages then' .sound) hordered',
      hall hordered, hall hordered']
    exact congrArg (fun counts => Except.ok (Answer.tally counts)) htally

def pair : Store := .memory (Log.empty.run [(.epoch, ⟨⟨0⟩, 0, .create, none⟩),
  (.epoch, ⟨⟨1⟩, 0, .create, none⟩)]).2

def inTurn : List Errand := [⟨.epoch, ⟨0⟩, "zero"⟩, ⟨.epoch, ⟨1⟩, "zero"⟩, ⟨.epoch, ⟨0⟩, "none"⟩]

def oneFirst : List Errand := [⟨.epoch, ⟨1⟩, "zero"⟩, ⟨.epoch, ⟨0⟩, "zero"⟩, ⟨.epoch, ⟨0⟩, "none"⟩]

theorem pair_apart : pair.Sound ∧ pair.log.Ordered ∧
    (∀ stack, Errand.namesTo stack inTurn = Errand.namesTo stack oneFirst) ∧
    Errand.outcomesTo ⟨0⟩ oneFirst (pair.perform .standard (oneFirst.map Errand.call)).1 =
      [.ok (.version 2), .error (.ungrounded "none")] ∧
    (pair.perform .standard (oneFirst.map Errand.call)).2.log.lastPosition = 3 + 1 := by
  have sound : pair.Sound := trivial
  have ordered : pair.log.Ordered := Log.ordered_empty.run _
  have reordered : ∀ stack, Errand.namesTo stack inTurn = Errand.namesTo stack oneFirst := by
    intro stack
    by_cases hstack : (⟨0⟩ : Uuid) = stack
    · subst hstack
      rfl
    · have hother : ((⟨0⟩ : Uuid) == stack) = false := beq_false_of_ne hstack
      simp only [Errand.namesTo, inTurn, oneFirst, List.filter_cons, hother, Bool.false_eq_true,
        if_false]
  obtain ⟨hstacks, hlast, _⟩ := dispatches_apart .standard sound ordered reordered
  exact ⟨sound, ordered, reordered, (hstacks ⟨0⟩).1.symm, hlast.symm⟩

end Store

end StackJournal
