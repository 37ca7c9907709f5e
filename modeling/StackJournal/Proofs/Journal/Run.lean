import StackJournal.Proofs.Journal.Growth
import StackJournal.Proofs.Log.Run

/-! # Runs of a journal

A run takes steps one after another: appends, each at its own moment and on a disk of its own, and
reopenings. It ends early if the file is refused.
-/
namespace StackJournal

open Text

/-- An append that was answered, with the fault that its write met. -/
structure Answered where
  now : Timestamp
  call : Call
  fault : Option WriteFault
  reply : Except StoreError Appended

namespace Answered

def stopped (answered : Answered) : Bool := answered.fault.isSome

def event? (answered : Answered) : Option Event :=
  match answered.reply with
  | .ok appended => some (answered.call.event answered.now appended)
  | .error _ => none

end Answered

def recorded (answered : List Answered) : List Event := answered.filterMap Answered.event?

section Recorded

variable (now : Timestamp) (call : Call) (fault : Option WriteFault)

@[simp] theorem recorded_ok (appended : Appended) (answered : List Answered) :
    recorded (⟨now, call, fault, .ok appended⟩ :: answered) =
      call.event now appended :: recorded answered := rfl

@[simp] theorem recorded_error (error : StoreError) (answered : List Answered) :
    recorded (⟨now, call, fault, .error error⟩ :: answered) = recorded answered := rfl

end Recorded

@[simp] theorem recorded_nil : recorded [] = [] := rfl

theorem recorded_append (answered more : List Answered) :
    recorded (answered ++ more) = recorded answered ++ recorded more := List.filterMap_append

/-- The appends whose writes met no fault, however they were answered. -/
def served (answered : List Answered) : List Answered := answered.filter (!·.stopped)

theorem served_none (now : Timestamp) (call : Call) (reply : Except StoreError Appended)
    (answered : List Answered) :
    served (⟨now, call, none, reply⟩ :: answered) = ⟨now, call, none, reply⟩ :: served answered := rfl

namespace Journal

inductive Step where
  | append (now : Timestamp) (disk : Disk) (call : Call)
  | reopen

/-- A step without payload, whose write is cut back if it fails. -/
def Step.Tidy : Step → Prop
  | append _ disk call => call.payload = none ∧
      ∀ size fault, disk size = some fault → fault.undone = true
  | reopen => True

def take (journal : Journal) (now : Timestamp) (disk : Disk) (call : Call) :
    Except StoreError Appended × Journal :=
  journal.append now disk call.stack call.expected call.kind call.payload

def next (journal : Journal) (now : Timestamp) (call : Call) : Event :=
  call.event now (journal.log.numbers call)

/-- The fault that the disk has for the write of a call. A poisoned journal begins no write, nor
does a call at another version. -/
def fault? (journal : Journal) (now : Timestamp) (disk : Disk) (call : Call) : Option WriteFault :=
  if journal.poisoned then none
  else if journal.log.version call.stack = call.expected then
    disk (journal.next now call).bytes.size
  else none

def answer (journal : Journal) (now : Timestamp) (disk : Disk) (call : Call) : Answered :=
  ⟨now, call, journal.fault? now disk call, (journal.take now disk call).1⟩

def run (journal : Journal) : List Step → Except StoreError (List Answered × Journal)
  | [] => .ok ([], journal)
  | .append now disk call :: steps => do
    let (answered, last) ← (journal.take now disk call).2.run steps
    .ok (journal.answer now disk call :: answered, last)
  | .reopen :: steps => do (← ofFile journal.file).run steps

def session (file : ByteArray) (steps : List Step) :
    Except StoreError (List Answered × Journal) := do
  (← ofFile file).run steps

section Fault

variable {journal : Journal} {call : Call}

theorem fault?_poisoned (h : journal.poisoned = true) (now : Timestamp) (disk : Disk) :
    journal.fault? now disk call = none := by simp [fault?, h]

theorem fault?_behind (h : journal.log.version call.stack ≠ call.expected) (now : Timestamp)
    (disk : Disk) : journal.fault? now disk call = none := by simp [fault?, h]

theorem fault?_current (hsound : journal.poisoned = false)
    (hcurrent : journal.log.version call.stack = call.expected) (now : Timestamp) (disk : Disk) :
    journal.fault? now disk call = disk (journal.next now call).bytes.size := by
  simp [fault?, hsound, hcurrent]

@[simp] theorem fault?_sound (journal : Journal) (now : Timestamp) (call : Call) :
    journal.fault? now .sound call = none := by simp [fault?, Disk.sound]

end Fault

section Run

variable {journal after last : Journal} {steps : List Step} {answered : List Answered}

theorem run_append {now : Timestamp} {disk : Disk} {call : Call}
    {reply : Except StoreError Appended} (htake : journal.take now disk call = (reply, after))
    (hrun : after.run steps = .ok (answered, last)) :
    journal.run (.append now disk call :: steps) =
      .ok (⟨now, call, journal.fault? now disk call, reply⟩ :: answered, last) := by
  rw [run, answer, htake, hrun]
  rfl

theorem run_reopen (h : ofFile journal.file = .ok after) (steps : List Step) :
    journal.run (.reopen :: steps) = after.run steps := by
  rw [run, h]
  rfl

end Run

/-- A run that comes to its end. -/
inductive Runs : Journal → List Step → List Answered → Journal → Prop where
  | nil (journal : Journal) : Runs journal [] [] journal
  | append {journal last : Journal} {now : Timestamp} {disk : Disk} {call : Call}
      {steps : List Step} {answered : List Answered}
      (rest : Runs (journal.take now disk call).2 steps answered last) :
      Runs journal (.append now disk call :: steps) (journal.answer now disk call :: answered) last
  | reopen {journal reopened last : Journal} {steps : List Step} {answered : List Answered}
      (opened : ofFile journal.file = .ok reopened) (rest : Runs reopened steps answered last) :
      Runs journal (.reopen :: steps) answered last

theorem runs_of_run {journal last : Journal} {steps : List Step} {answered : List Answered}
    (h : journal.run steps = .ok (answered, last)) : Runs journal steps answered last := by
  induction steps generalizing journal answered with
  | nil =>
    cases h
    exact .nil last
  | cons step steps ih =>
    cases step with
    | append now disk call =>
      obtain ⟨⟨rest, last⟩, hrest, heq⟩ := bind_eq_ok_iff.mp h
      cases heq
      exact .append (ih hrest)
    | reopen =>
      obtain ⟨reopened, hopen, hrest⟩ := bind_eq_ok_iff.mp h
      exact .reopen hopen (ih hrest)

inductive Takes (journal : Journal) (now : Timestamp) (disk : Disk) (call : Call) :
    Except StoreError Appended × Journal → Prop where
  | poisoned (poisoned : journal.poisoned = true) :
      Takes journal now disk call (.error .poisoned, journal)
  | behind (sound : journal.poisoned = false)
      (behind : journal.log.version call.stack ≠ call.expected) :
      Takes journal now disk call
        (.error (.conflict call.stack call.expected (journal.log.version call.stack)), journal)
  | recorded (sound : journal.poisoned = false)
      (current : journal.log.version call.stack = call.expected)
      (whole : disk (journal.next now call).bytes.size = none) :
      Takes journal now disk call (.ok (journal.log.numbers call),
        { journal with
          log := journal.log.insert (journal.next now call)
          file := journal.file ++ (journal.next now call).bytes })
  | undone (sound : journal.poisoned = false)
      (current : journal.log.version call.stack = call.expected) {fault : WriteFault}
      (failed : disk (journal.next now call).bytes.size = some fault)
      (undone : fault.undone = true) : Takes journal now disk call (.error (.io none), journal)
  | torn (sound : journal.poisoned = false)
      (current : journal.log.version call.stack = call.expected) {fault : WriteFault}
      (failed : disk (journal.next now call).bytes.size = some fault)
      (kept : fault.undone = false) :
      Takes journal now disk call (.error (.io none),
        { journal with
          file := journal.file ++ (journal.next now call).bytes.extract 0 fault.written
          poisoned := true })

theorem takes (journal : Journal) (now : Timestamp) (disk : Disk) (call : Call) :
    Takes journal now disk call (journal.take now disk call) := by
  unfold take append prepare
  cases hpoisoned : journal.poisoned with
  | true => exact .poisoned hpoisoned
  | false =>
    rw [if_neg Bool.false_ne_true]
    by_cases hcurrent : journal.log.version call.stack = call.expected
    · have hnext : journal.log.nextEvent now call.stack call.expected call.kind call.payload =
          .ok (journal.next now call) := if_pos hcurrent
      rw [hnext]
      simp only [settle]
      cases hfault : disk (journal.next now call).bytes.size with
      | none => exact .recorded hpoisoned hcurrent hfault
      | some fault =>
        simp only
        cases hundone : fault.undone with
        | true =>
          have hback : ((journal.file ++ (journal.next now call).bytes.extract 0 fault.written).extract
              0 journal.file.size) = journal.file := ByteArray.extract_append_eq_left rfl
          rw [if_pos rfl, hback]
          exact .undone hpoisoned hcurrent hfault hundone
        | false =>
          rw [if_neg Bool.false_ne_true]
          exact .torn hpoisoned hcurrent hfault hundone
    · have hnext : journal.log.nextEvent now call.stack call.expected call.kind call.payload =
          .error (.conflict call.stack call.expected (journal.log.version call.stack)) :=
        if_neg hcurrent
      rw [hnext]
      exact .behind hpoisoned hcurrent

theorem take_poisoned {journal : Journal} (h : journal.poisoned = true) (now : Timestamp)
    (disk : Disk) (call : Call) :
    journal.take now disk call = (.error .poisoned, journal) := by
  simp [take, append, prepare, h]

/-- On a sound disk a call at the right version is recorded. -/
theorem take_sound {journal : Journal} (hsound : journal.poisoned = false) {call : Call}
    (hcurrent : journal.log.version call.stack = call.expected) (now : Timestamp) :
    journal.take now .sound call = (.ok (journal.log.numbers call),
      { journal with
        log := journal.log.insert (journal.next now call)
        file := journal.file ++ (journal.next now call).bytes }) := by
  have htakes := takes journal now .sound call
  generalize journal.take now .sound call = result at htakes
  cases htakes with
  | poisoned poisoned =>
    rw [hsound] at poisoned
    cases poisoned
  | behind _ behind => exact absurd hcurrent behind
  | recorded _ _ _ => rfl
  | undone _ _ failed _ => cases failed
  | torn _ _ failed _ => cases failed

structure Fails (journal : Journal) (now : Timestamp) (disk : Disk) (call : Call)
    (fault : WriteFault) : Prop where
  sound : journal.poisoned = false
  current : journal.log.version call.stack = call.expected
  failed : disk (journal.next now call).bytes.size = some fault

theorem fault?_eq_some_iff {journal : Journal} {now : Timestamp} {disk : Disk} {call : Call}
    {fault : WriteFault} :
    journal.fault? now disk call = some fault ↔ journal.Fails now disk call fault := by
  constructor
  · intro h
    cases hpoisoned : journal.poisoned with
    | true => simp [fault?_poisoned hpoisoned] at h
    | false =>
      by_cases hcurrent : journal.log.version call.stack = call.expected
      · rw [fault?_current hpoisoned hcurrent] at h
        exact ⟨hpoisoned, hcurrent, h⟩
      · simp [fault?_behind hcurrent] at h
  · intro h
    rw [fault?_current h.sound h.current, h.failed]

/-- A call whose write fails changes nothing, or it leaves torn bytes and a poisoned journal. -/
theorem Fails.take {journal : Journal} {now : Timestamp} {disk : Disk} {call : Call}
    {fault : WriteFault} (h : journal.Fails now disk call fault) :
    journal.take now disk call = (.error (.io none),
      if fault.undone then journal
      else { journal with
        file := journal.file ++ (journal.next now call).bytes.extract 0 fault.written
        poisoned := true }) := by
  have hfault : ∀ {found : WriteFault},
      disk (journal.next now call).bytes.size = some found → found = fault := by
    intro found hfound
    simpa [h.failed] using hfound.symm
  have htakes := takes journal now disk call
  generalize journal.take now disk call = result at htakes ⊢
  cases htakes with
  | poisoned poisoned => simp [h.sound] at poisoned
  | behind _ behind => exact absurd h.current behind
  | recorded _ _ whole => simp [h.failed] at whole
  | undone _ _ failed undone =>
    obtain rfl := hfault failed
    simp [undone]
  | torn _ _ failed kept =>
    obtain rfl := hfault failed
    simp [kept]

end Journal

end StackJournal
