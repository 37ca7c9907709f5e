import StackJournal.Proofs.App.Readers
import StackJournal.Proofs.Clients.Run
import StackJournal.Proofs.Log.Opened

/-! # How far a call has come

A call is made of single calls, each of which appends one event; those that have landed are always the
first of them. A single call that lands does so at the log as it then is, as if it had been made alone.
-/
namespace StackJournal

theorem Request.Reads.answers_log {request : Request} (h : request.Reads) (log : Log)
    (now : Timestamp) : (log.answers now request).2 = log := by
  cases request with
  | append => exact h.elim
  | load _ | version _ | read _ _ | last => rfl

def Log.Replays (log : Log) (stack : Uuid) : Prop := Stack.Replayable stack (log.load stack)

theorem Log.Replays.lawful {log : Log} {stack : Uuid} (h : log.Replays stack) (ordered : log.Ordered)
    (existing : log.version stack ≠ 0) : Stack.Lawful stack (log.load stack) :=
  h.resolve_left fun hnone => existing (by rw [← ordered.indexed.length_load, hnone]; rfl)

theorem Log.Ordered.version_ne_zero {log : Log} (h : log.Ordered) {stack : Uuid} {history : Stack}
    (accepted : Stack.ofHistory stack (log.load stack) = .ok history) : log.version stack ≠ 0 := by
  have hlawful := Stack.exists_ofHistory_iff.mp ⟨history, accepted⟩
  obtain ⟨first, rest, hload, _⟩ := hlawful.begun
  rw [← h.indexed.length_load, hload]
  exact Nat.succ_ne_zero _

namespace Operation

def landing? : (request : Request) → request.Reply → Option (Operation × Outcome)
  | .append stack _ .create _, .ok _ => some (.createStack stack, .ok (.stack stack))
  | .append stack _ (.kapp kapp) _, .ok appended =>
    some (.dispatch stack kapp.name, .ok (.version appended.version))
  | _, _ => none

theorem landing?_of_reads {request : Request} (h : request.Reads) (reply : request.Reply) :
    landing? request reply = none := by
  cases request with
  | append => exact h.elim
  | load _ | version _ | read _ _ | last => rfl

theorem landing?_error (request : Request) (error : StoreError) :
    landing? request (.error error) = none := by
  cases request with
  | append stack expected kind payload => cases kind <;> rfl
  | load _ | version _ | read _ _ | last => rfl

/-- A single call lands in a log: it would succeed if it were made there alone, and this is the log
after it. -/
inductive Lands (app : App) (log : Log) (now : Timestamp) : Operation × Outcome → Log → Prop where
  | created {id : Uuid} (fresh : log.version id = 0) :
      Lands app log now (.createStack id, .ok (.stack id))
        (log.insert ⟨id, 1, .create, none, log.lastPosition + 1, now⟩)
  | dispatched {stack : Uuid} {version : Nat} {kapp : Kapp}
      (weighed : app.weigh stack kapp.name (log.load stack) = .ok (version, kapp)) :
      Lands app log now (.dispatch stack kapp.name, .ok (.version (version + 1)))
        (log.insert ⟨stack, version + 1, .kapp kapp, none, log.lastPosition + 1, now⟩)

section Lands

variable {app : App} {log longer : Log} {now : Timestamp} {single : Operation × Outcome}

theorem Lands.grows (h : Lands app log now single longer) : longer.Extends log := by
  cases h with
  | created _ => exact log.extends_insert _
  | dispatched _ => exact log.extends_insert _

theorem Lands.ordered (h : Lands app log now single longer) (ordered : log.Ordered) :
    longer.Ordered := by
  cases h with
  | created fresh => exact ordered.insert rfl (congrArg (· + 1) fresh.symm)
  | dispatched weighed =>
    obtain ⟨_, rfl, _⟩ := App.weigh_eq_ok_iff.mp weighed
    exact ordered.insert rfl (congrArg (· + 1) (ordered.indexed.length_load _))

/-- What lands can be replayed. -/
theorem Lands.replays (h : Lands app log now single longer) (ordered : log.Ordered) {stack : Uuid}
    (replays : log.Replays stack) : longer.Replays stack := by
  rw [Log.Replays, Stack.Replayable] at replays ⊢
  cases h with
  | @created id fresh =>
    by_cases hid : id = stack
    · subst hid
      have hnone : log.load id = [] := by
        rw [← List.length_eq_zero_iff, ordered.indexed.length_load, fresh]
      rw [ordered.indexed.load_insert ⟨id, _, _, _, _, _⟩, hnone, List.nil_append]
      exact Or.inr (Stack.lawful_create rfl rfl rfl)
    · rwa [ordered.indexed.load_insert_of_ne hid]
  | @dispatched id version kapp weighed =>
    by_cases hid : id = stack
    · subst hid
      obtain ⟨hlawful, hversion, _⟩ := App.weigh_eq_ok_iff.mp weighed
      rw [ordered.indexed.load_insert ⟨id, _, _, _, _, _⟩]
      exact Or.inr (hlawful.append rfl (congrArg (· + 1) hversion) fun hkind => nomatch hkind)
    · rwa [ordered.indexed.load_insert_of_ne hid]

end Lands

/-- The outcome of a call, accounted for by the single calls of it that have landed. -/
structure Accounts (operation : Operation) (landed : List (Operation × Outcome))
    (outcome : Outcome) : Prop where
  first : landed.map Prod.fst <+: operation.singles
  /-- All have landed if the call succeeded, and it answers what the last of them did. -/
  ok : ∀ answer, outcome = .ok answer → landed.map Prod.fst = operation.singles ∧
    ∀ last ∈ landed.getLast?, last.2 = outcome
  /-- One has not if it failed. -/
  error : ∀ error, outcome = .error error → operation.singles ≠ [] →
    landed.map Prod.fst ≠ operation.singles

def thenEach (app : App) (stack : Uuid) (names : List String) (outcome : Except AppError Nat) :
    Plan Outcome :=
  (app.eachAfter stack names outcome).bind fun result => .done (result.map .version)

/-- What a call has still to do, with the single calls that have landed so far. A dispatch that is to
write has weighed the history of an earlier log. -/
inductive Stage (app : App) (log : Log) (operation : Operation) :
    List (Operation × Outcome) → Plan Outcome → Prop where
  | finished {landed : List (Operation × Outcome)} {outcome : Outcome}
      (accounts : operation.Accounts landed outcome) : Stage app log operation landed (.done outcome)
  | creating {id : Uuid} (singles : operation.singles = [createStack id]) :
      Stage app log operation [] (.ask (.append id 0 .create none) fun result =>
        App.reply result fun _ => .done (.ok (.stack id)))
  | asking {stack : Uuid} {names : List String}
      (singles : operation.singles = names.map (dispatch stack)) :
      Stage app log operation [] (.ask (.version stack) fun result =>
        App.reply result fun version => if version = 0 then .done (.error (.notFound stack))
          else answering .version (app.each stack names version))
  | loading {landed : List (Operation × Outcome)} {stack : Uuid} {name : String}
      {names : List String}
      (singles : operation.singles =
        landed.map Prod.fst ++ (name :: names).map (dispatch stack)) :
      Stage app log operation landed (.ask (.load stack) fun result =>
        App.reply result fun events =>
          (App.writeWeighed stack (app.weigh stack name events)).bind (thenEach app stack names))
  | writing {landed : List (Operation × Outcome)} {stack : Uuid} {name : String}
      {names : List String} {earlier : Log} {version : Nat} {kapp : Kapp}
      (singles : operation.singles =
        landed.map Prod.fst ++ (name :: names).map (dispatch stack))
      (ordered : earlier.Ordered) (later : log.Extends earlier)
      (weighed : app.weigh stack name (earlier.load stack) = .ok (version, kapp)) :
      Stage app log operation landed (.ask (.append stack version (.kapp kapp) none) fun result =>
        App.reply result fun _ => answering .version (app.each stack names (version + 1)))
  | reading {plan : Plan Outcome} (singles : operation.singles = [])
      (obeys : plan.Obeys Request.Reads (fun _ _ => True) fun _ => True) :
      Stage app log operation [] plan

section Stage

variable {app : App} {log longer : Log} {operation : Operation}
variable {landed : List (Operation × Outcome)} {plan : Plan Outcome}

theorem Stage.extend (h : Stage app log operation landed plan) (hlonger : longer.Extends log) :
    Stage app longer operation landed plan := by
  cases h with
  | finished accounts => exact .finished accounts
  | creating singles => exact .creating singles
  | asking singles => exact .asking singles
  | loading singles => exact .loading singles
  | writing singles ordered hlater weighed =>
    exact .writing singles ordered (hlonger.trans hlater) weighed
  | reading singles obeys => exact .reading singles obeys

/-- The single calls that have landed are the first of the call. -/
theorem Stage.first (h : Stage app log operation landed plan) :
    landed.map Prod.fst <+: operation.singles := by
  cases h with
  | finished accounts => exact accounts.first
  | creating _ | asking _ | reading _ _ => exact List.nil_prefix
  | loading singles | writing singles _ _ _ => exact ⟨_, singles.symm⟩

theorem Stage.accounts {outcome : Outcome} (h : Stage app log operation landed (.done outcome)) :
    operation.Accounts landed outcome := by
  cases h with
  | finished accounts => exact accounts
  | reading singles _ =>
    exact ⟨List.nil_prefix, fun _ _ => ⟨singles.symm, fun _ hl => nomatch hl⟩,
      fun _ _ hne => absurd singles hne⟩

/-- A call that fails with single calls left to be made. -/
theorem stage_error {left : List Operation}
    (singles : operation.singles = landed.map Prod.fst ++ left) (hleft : left ≠ [] ∨ landed = [])
    (error : AppError) : Stage app log operation landed (.done (.error error)) := by
  refine .finished ⟨⟨left, singles.symm⟩, (by intro _ h; cases h), ?_⟩
  intro _ _ hsingles heq
  rw [singles] at heq hsingles
  rcases hleft with hleft | rfl
  · exact hleft (List.append_right_eq_self.mp heq.symm)
  · exact hsingles heq.symm

theorem each_cons_eq (app : App) (stack : Uuid) (name : String) (names : List String)
    (version : Nat) : answering .version (app.each stack (name :: names) version) =
      .ask (.load stack) fun result => App.reply result fun events =>
        (App.writeWeighed stack (app.weigh stack name events)).bind (thenEach app stack names) := by
  rw [answering, App.each_cons, Plan.bind_assoc, App.dispatch_eq]
  refine congrArg (Plan.ask _) (funext fun result => ?_)
  cases result <;> rfl

theorem write_thenEach (app : App) (stack : Uuid) (version : Nat) (kapp : Kapp)
    (names : List String) : (App.write stack version kapp).bind (thenEach app stack names) =
      .ask (.append stack version (.kapp kapp) none) fun result =>
        App.reply result fun _ => answering .version (app.each stack names (version + 1)) := by
  refine congrArg (Plan.ask _) (funext fun result => ?_)
  cases result <;> rfl

/-- The dispatches that are left, after some that have landed. -/
theorem stage_each {stack : Uuid} {names : List String} {version : Nat}
    (singles : operation.singles = landed.map Prod.fst ++ names.map (dispatch stack))
    (answered : ∀ last ∈ landed.getLast?, last.2 = .ok (.version version)) :
    Stage app log operation landed (answering .version (app.each stack names version)) := by
  cases names with
  | nil =>
    have hall : landed.map Prod.fst = operation.singles := by
      rw [singles, List.map_nil, List.append_nil]
    refine .finished ⟨hall ▸ List.prefix_refl _, ?_, (by intro _ h; cases h)⟩
    intro answer hanswer
    cases hanswer
    exact ⟨hall, answered⟩
  | cons name names =>
    rw [each_cons_eq]
    exact .loading singles

theorem stage_dispatchAll {stack : Uuid} {names : List String}
    (singles : operation.singles = names.map (dispatch stack)) :
    Stage app log operation [] (answering .version (app.dispatchAll stack names)) := by
  have hplan : answering .version (app.dispatchAll stack names) =
      .ask (.version stack) fun result =>
        App.reply result fun version => if version = 0 then .done (.error (.notFound stack))
          else answering .version (app.each stack names version) := by
    rw [answering, App.dispatchAll_eq]
    refine congrArg (Plan.ask _) (funext fun result => ?_)
    cases result with
    | error error => rfl
    | ok version =>
      show Plan.bind (if version = 0 then _ else _) _ = if version = 0 then _ else _
      split <;> rfl
  rw [hplan]
  exact .asking singles

theorem plan_createStack (app : App) (id : Uuid) :
    (createStack id).plan app = .ask (.append id 0 .create none) fun result =>
      App.reply result fun _ => .done (.ok (.stack id)) := by
  rw [plan, answering, App.createStack_eq]
  refine congrArg (Plan.ask _) (funext fun result => ?_)
  cases result <;> rfl

theorem plan_dispatch (app : App) (stack : Uuid) (name : String) :
    (dispatch stack name).plan app = .ask (.load stack) fun result =>
      App.reply result fun events =>
        (App.writeWeighed stack (app.weigh stack name events)).bind (thenEach app stack []) := by
  rw [plan, answering, ← App.each_single app stack name 0]
  exact each_cons_eq app stack name [] 0

/-- A call that has not begun. -/
theorem stage_plan (app : App) (log : Log) (operation : Operation) :
    Stage app log operation [] (operation.plan app) := by
  cases operation with
  | createStack id =>
    rw [plan_createStack]
    exact .creating rfl
  | dispatch stack name =>
    rw [plan_dispatch]
    exact .loading rfl
  | dispatchAll stack names => exact stage_dispatchAll rfl
  | push stack value =>
    rw [plan, answering, App.push_eq]
    cases hliteral : App.literal value with
    | error error =>
      have hnone : (push stack value).singles = [] := by rw [singles, hliteral]
      exact stage_error (hnone.trans (List.append_nil _).symm) (Or.inr rfl) error
    | ok kapps =>
      refine stage_dispatchAll ?_
      rw [singles, hliteral, List.map_map]
      rfl
  | items stack =>
    exact .reading rfl (answering_obeys (App.items_obeys stack) fun _ _ => trivial)
  | eventLog position =>
    exact .reading rfl ((eventLog_obeys app position).imp (fun _ h => h) (fun _ _ h => h)
      fun _ _ => trivial)
  | counts position =>
    exact .reading rfl ((counts_obeys app position).imp (fun _ h => h) (fun _ _ h => h)
      fun _ _ => trivial)

inductive Advance (app : App) (log : Log) (now : Timestamp) (operation : Operation)
    (landed : List (Operation × Outcome)) (request : Request) (next : request.Reply → Plan Outcome)
    (reply : request.Reply) (longer : Log) : Prop where
  | quiet (none : landing? request reply = none) (same : longer = log)
      (stage : Stage app log operation landed (next reply))
  | landed {single : Operation × Outcome} (some : landing? request reply = some single)
      (lands : Lands app log now single longer)
      (stage : Stage app longer operation (landed ++ [single]) (next reply))

variable {request : Request} {next : request.Reply → Plan Outcome}

/-- A call whose request fails is over, unless it only reads. -/
theorem Stage.fails (h : Stage app log operation landed (.ask request next)) (now : Timestamp)
    (error : StoreError) :
    Advance app log now operation landed request next (.error error) log := by
  refine .quiet (landing?_error request error) rfl ?_
  cases h with
  | creating singles => exact stage_error singles (Or.inr rfl) _
  | asking singles => exact stage_error singles (Or.inr rfl) _
  | loading singles => exact stage_error singles (Or.inl (List.cons_ne_nil _ _)) _
  | writing singles _ _ _ => exact stage_error singles (Or.inl (List.cons_ne_nil _ _)) _
  | reading singles obeys => exact .reading singles (obeys.2 _ trivial)

/-- A dispatch that finds the stack at the version it has weighed lands, for the history is still the
same. -/
theorem advance_writing {stack : Uuid} {name : String} {names : List String} {earlier : Log}
    {version : Nat} {kapp : Kapp} (singles : operation.singles =
      landed.map Prod.fst ++ (name :: names).map (dispatch stack))
    (hearlier : earlier.Ordered) (hlater : log.Extends earlier)
    (weighed : app.weigh stack name (earlier.load stack) = .ok (version, kapp))
    (ordered : log.Ordered) (now : Timestamp) :
    Advance app log now operation landed (.append stack version (.kapp kapp) none)
      (fun result => App.reply result fun _ =>
        answering .version (app.each stack names (version + 1)))
      (log.append now stack version (.kapp kapp) none).1
      (log.append now stack version (.kapp kapp) none).2 := by
  obtain ⟨_, hversion, hresolve⟩ := App.weigh_eq_ok_iff.mp weighed
  rw [hearlier.indexed.length_load] at hversion
  obtain ⟨_, rfl⟩ := Gate.resolve_eq_ok_iff.mp hresolve
  by_cases hcurrent : log.version stack = version
  · rw [Log.append_taken hcurrent]
    -- versions never fall, so a stack at the version that was weighed has not changed since
    have hload := hlater.load_eq hearlier ordered (hcurrent.trans hversion)
    refine .landed rfl (.dispatched (hload ▸ weighed)) (stage_each ?_ ?_)
    · rw [singles, List.map_append, List.append_assoc]
      rfl
    · intro last hlast
      rw [List.getLast?_concat, Option.mem_some_iff] at hlast
      rw [← hlast]
  · rw [Log.append_refused hcurrent]
    exact .quiet rfl rfl (stage_error singles (Or.inl (List.cons_ne_nil _ _)) _)

theorem advance_creating {id : Uuid} (singles : operation.singles = [createStack id])
    (log : Log) (now : Timestamp) :
    Advance app log now operation [] (.append id 0 .create none)
      (fun result => App.reply result fun _ => .done (.ok (.stack id)))
      (log.append now id 0 .create none).1 (log.append now id 0 .create none).2 := by
  by_cases hfresh : log.version id = 0
  · rw [Log.append_taken hfresh]
    refine .landed rfl (.created hfresh) (.finished ⟨?_, ?_, (by intro _ h; cases h)⟩)
    · rw [singles]
      exact List.prefix_refl _
    · intro answer hanswer
      refine ⟨singles.symm, ?_⟩
      intro last hlast
      cases hlast
      rfl
  · rw [Log.append_refused hfresh]
    exact .quiet rfl rfl (stage_error singles (Or.inr rfl) _)

/-- What a call makes of the reply of a log. -/
theorem Stage.advances (h : Stage app log operation landed (.ask request next))
    (ordered : log.Ordered) (now : Timestamp) : Advance app log now operation landed request next
      (log.answers now request).1 (log.answers now request).2 := by
  cases h with
  | creating singles => exact advance_creating singles log now
  | asking singles =>
    refine .quiet rfl rfl ?_
    show Stage app log operation [] (if log.version _ = 0 then _ else _)
    split
    · exact stage_error singles (Or.inr rfl) _
    · exact stage_each singles fun _ hl => nomatch hl
  | @loading _ stack name names singles =>
    refine .quiet rfl rfl ?_
    show Stage app log operation landed
      ((App.writeWeighed stack (app.weigh stack name (log.load stack))).bind
        (thenEach app stack names))
    cases hweigh : app.weigh stack name (log.load stack) with
    | error error => exact stage_error singles (Or.inl (List.cons_ne_nil _ _)) error
    | ok weighed =>
      -- from here on this log is the earlier one
      show Stage app log operation landed ((App.write stack weighed.1 weighed.2).bind _)
      rw [write_thenEach]
      exact .writing singles ordered (.refl log) hweigh
  | writing singles hearlier hlater weighed =>
    exact advance_writing singles hearlier hlater weighed ordered now
  | reading singles obeys =>
    have hreads : request.Reads := obeys.1
    exact .quiet (landing?_of_reads hreads _) (hreads.answers_log log now)
      (.reading singles (obeys.2 _ trivial))

end Stage

end Operation

end StackJournal
