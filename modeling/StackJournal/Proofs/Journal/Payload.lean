import StackJournal.Proofs.EventLine.Stable
import StackJournal.Proofs.Journal.Recovery

/-! # Payloads that come back

A payload is returned as it was appended for as long as the journal is open. After the next opening
it is still the same, if it is not null, which is read as no payload, and if it opens fewer brackets
than a document may, for the event around it opens one more.
-/
namespace StackJournal

open Text Json

/-- A payload that nests no deeper than there is room is read back, if perhaps as none. -/
theorem Json.exists_rereadPayload {payload : Json} (hsorted : payload.Sorted)
    (hfree : payload.FloatFree) (hdepth : payload.depth < depthLimit) :
    ∃ read, payload.rereadPayload = .ok read := by
  by_cases hnull : payload = .null
  · subst hnull
    exact ⟨none, rfl⟩
  · exact ⟨some payload, (rereadPayload_eq_iff hsorted hfree).mpr ⟨hnull, hdepth⟩⟩

/-- What the parser makes of a text is sorted. -/
theorem Json.sorted_of_ofString {text : String} {value : Json} (h : ofString text = .ok value) :
    value.Sorted := by
  obtain ⟨⟨read, rest⟩, hread, h⟩ := bind_eq_ok_iff.mp h
  obtain ⟨_, _, h⟩ := bind_eq_ok_iff.mp h
  cases h
  exact (sorted_of_readValue hread).1

namespace Journal

/-- A step whose payload can be read back, and whose write is cut back if it fails. -/
def Step.Kept : Step → Prop
  | append _ disk call =>
      (∀ payload, call.payload = some payload →
        payload.Sorted ∧ payload.FloatFree ∧ payload.depth < depthLimit) ∧
      ∀ size fault, disk size = some fault → fault.undone = true
  | reopen => True

/-- The file holds, in whole lines, what the log holds up to payloads. -/
structure Settled (journal : Journal) : Prop where
  sound : journal.poisoned = false
  indexed : journal.log.Indexed
  fresh : Fresh journal.file
  loads : ∃ log, load journal.file = .ok log ∧ log.Alike journal.log

theorem settled_blank : blank.Settled where
  sound := faithful_blank.sound
  indexed := faithful_blank.indexed
  fresh := faithful_blank.fresh
  loads := ⟨_, faithful_blank.loads, .refl _⟩

theorem Settled.reopen {journal reopened : Journal} (h : journal.Settled)
    (hopen : ofFile journal.file = .ok reopened) :
    reopened.Settled ∧ reopened.log.Alike journal.log := by
  obtain ⟨log, hload, halike⟩ := h.loads
  obtain ⟨_, hagain, rfl⟩ := ofFile_eq_ok_iff.mp hopen
  cases hload.symm.trans hagain
  exact ⟨⟨rfl, load_indexed hload, h.fresh, log, hload, .refl log⟩, halike⟩

theorem Settled.record {journal : Journal} (h : journal.Settled)
    (hroom : journal.log.lastPosition + 1 < UInt64.size) {call : Call}
    (hcurrent : journal.log.version call.stack = call.expected) (now : Timestamp)
    {read : Event} (hread : (journal.next now call).reread = .ok read) :
    Settled { journal with
      log := journal.log.insert (journal.next now call)
      file := journal.file ++ (journal.next now call).bytes } := by
  obtain ⟨log, hload, halike⟩ := h.loads
  have hnext := load_next hload h.fresh halike h.indexed hroom hcurrent now
    (Nat.le_succ (journal.next now call).bytes.size)
  rw [ByteArray.extract_zero_size, hread] at hnext
  have hstack := (Event.reread_eq_ok hread).2.2
  exact ⟨h.sound, h.indexed.insert _, fresh_of_openEnd (openEnd_append_bytes _ _), _, hnext,
    halike.insert hstack⟩

theorem Settled.run {journal last : Journal} {steps : List Step} {answered : List Answered}
    (h : journal.Settled) (kept : ∀ step ∈ steps, step.Kept)
    (few : journal.log.lastPosition + steps.length < UInt64.size)
    (hrun : journal.run steps = .ok (answered, last)) : last.Settled := by
  replace hrun := runs_of_run hrun
  induction hrun with
  | nil _ => exact h
  | reopen opened _ ih =>
    rw [List.length_cons] at few
    obtain ⟨hreopened, halike⟩ := h.reopen opened
    have hposition := halike.lastPosition
    exact ih hreopened (List.forall_mem_of_forall_mem_cons kept) (by omega)
  | @append journal _ now disk call steps _ _ ih =>
    rw [List.length_cons] at few
    have hroom : journal.log.lastPosition + steps.length < UInt64.size := by omega
    obtain ⟨hpayload, hdisk⟩ := kept _ List.mem_cons_self
    have hrest := List.forall_mem_of_forall_mem_cons kept
    have htakes := takes journal now disk call
    generalize journal.take now disk call = result at htakes ih
    cases htakes with
    | poisoned _ => exact ih h hrest hroom
    | behind _ _ => exact ih h hrest hroom
    | recorded _ current _ =>
      have hread : ∃ read, (journal.next now call).reread = .ok read := by
        apply Event.exists_reread
        intro payload hcarried
        obtain ⟨hsorted, hfree, hdepth⟩ := hpayload payload hcarried
        exact exists_rereadPayload hsorted hfree hdepth
      obtain ⟨read, hread⟩ := hread
      refine ih (h.record (by omega) current now hread) hrest ?_
      rw [Log.lastPosition_insert]
      omega
    | undone _ _ _ _ => exact ih h hrest hroom
    | torn _ _ failed undone =>
      have hundone := hdisk _ _ failed
      rw [undone] at hundone
      cases hundone

def Returns (journal : Journal) (stack : Uuid) (payload : Json) : Prop :=
  ∃ reopened event, ofFile journal.file = .ok reopened ∧ event.payload = some payload ∧
    (journal.log.load stack).getLast? = some event ∧
    (reopened.log.load stack).getLast? = some event

theorem getLast?_load_insert {log : Log} (h : log.Indexed) {event : Event} {stack : Uuid}
    (hstack : event.stack = stack) : ((log.insert event).load stack).getLast? = some event := by
  rw [← hstack, h.load_insert, List.getLast?_concat]

theorem Reachable.returns_iff {count : Nat} {journal : Journal} (h : journal.Reachable count)
    (hroom : count + 1 < UInt64.size) {payload : Json} (hsorted : payload.Sorted)
    (hfree : payload.FloatFree) {now : Timestamp} {disk : Disk} {call : Call}
    (carried : call.payload = some payload) {appended : Appended} {after : Journal}
    (answer : journal.take now disk call = (.ok appended, after)) :
    after.Returns call.stack payload ↔ (∃ before, ofFile journal.file = .ok before) ∧
      Fresh journal.file ∧ payload ≠ .null ∧ payload.depth < depthLimit := by
  obtain ⟨hsound, hcurrent, rfl, rfl⟩ := take_eq_ok answer
  have hpayload : (journal.next now call).payload = some payload := carried
  have hlast : ((journal.log.insert (journal.next now call)).load call.stack).getLast? =
      some (journal.next now call) := getLast?_load_insert h.indexed rfl
  have hreread : (journal.next now call).reread =
      payload.rereadPayload.map fun read => { journal.next now call with payload := read } := by
    rw [Event.reread, hpayload]
  rw [← rereadPayload_eq_iff hsorted hfree]
  constructor
  · rintro ⟨reopened, event, hopen, hevent, hbefore, hafter⟩
    obtain ⟨log, hload, rfl⟩ := ofFile_eq_ok_iff.mp hopen
    have hwritten := h.load_write hsound hroom hcurrent now (journal.next now call).size_bytes_pos
    rw [ByteArray.extract_zero_size] at hwritten
    rcases hwritten with ⟨error, herror⟩ | ⟨old, read, hold, _, hfresh, _, hread, hnew⟩
    · cases herror.symm.trans hload
    cases hnew.symm.trans hload
    refine ⟨⟨_, ofFile_eq_ok_iff.mpr ⟨old, hold, rfl⟩⟩, hfresh, ?_⟩
    have hstack : read.stack = call.stack := (Event.reread_eq_ok hread).2.2
    have hsame : read = journal.next now call := by
      rw [getLast?_load_insert (load_indexed hold) hstack] at hafter
      rw [hlast] at hbefore
      exact Option.some.inj (hafter.trans hbefore.symm)
    rw [hreread] at hread
    obtain ⟨again, hagain, heq⟩ := map_eq_ok_iff.mp hread
    have hkept : again = some payload := by
      have hfield := congrArg Event.payload (heq.trans hsame)
      exact hfield.trans hpayload
    rw [hagain, hkept]
  · rintro ⟨⟨_, hbefore⟩, hfresh, hkept⟩
    obtain ⟨old, hold, _⟩ := ofFile_eq_ok_iff.mp hbefore
    have halike : old.Alike journal.log := by
      rcases h.loads hsound with ⟨log, hload, halike⟩ | ⟨_, error, herror⟩
      · cases hload.symm.trans hold
        exact halike
      · cases herror.symm.trans hold
    have hsame : (journal.next now call).reread = .ok (journal.next now call) := by
      rw [hreread, hkept]
      show Except.ok { journal.next now call with payload := some payload } = _
      rw [← hpayload]
    have hspace : journal.log.lastPosition + 1 < UInt64.size := by
      have hle := h.bounded
      omega
    have hnext := load_next hold hfresh halike h.indexed hspace hcurrent now
      (Nat.le_succ (journal.next now call).bytes.size)
    rw [ByteArray.extract_zero_size, hsame] at hnext
    refine ⟨_, _, ofFile_eq_ok_iff.mpr ⟨_, hnext, rfl⟩, hpayload, hlast, ?_⟩
    exact getLast?_load_insert (load_indexed hold) rfl

theorem session_settled {steps : List Step} {answered : List Answered} {journal : Journal}
    (hrun : session .empty steps = .ok (answered, journal)) (few : steps.length < UInt64.size)
    (kept : ∀ step ∈ steps, step.Kept) : journal.Settled := by
  rw [session_empty] at hrun
  have hroom : blank.log.lastPosition + steps.length < UInt64.size := by
    rw [show blank.log.lastPosition = 0 from rfl]
    omega
  exact settled_blank.run kept hroom hrun

/-- After any run, an accepted payload of integers that the parser has made of a text comes back at
the next opening just if the file could be opened before and ended in whole lines, and the payload
is not null and leaves room for the bracket of its event. If the run had only payloads with such
room and cut back what it could not write, the payload alone decides. -/
theorem payload_returns_iff {steps : List Step} {answered : List Answered} {journal : Journal}
    (hrun : session .empty steps = .ok (answered, journal))
    (few : steps.length + 1 < UInt64.size) {text : String} {payload : Json}
    (parsed : Json.ofString text = .ok payload) (free : payload.FloatFree) {now : Timestamp}
    {disk : Disk} {call : Call} (carried : call.payload = some payload) {appended : Appended}
    {after : Journal} (answer : journal.take now disk call = (.ok appended, after)) :
    (after.Returns call.stack payload ↔ (∃ before, ofFile journal.file = .ok before) ∧
      Fresh journal.file ∧ payload ≠ .null ∧ payload.depth < depthLimit) ∧
    ((∀ step ∈ steps, step.Kept) →
      (after.Returns call.stack payload ↔ payload ≠ .null ∧ payload.depth < depthLimit)) := by
  have hreturns := (session_reachable hrun (by omega)).1.returns_iff few (sorted_of_ofString parsed)
    free carried answer
  refine ⟨hreturns, ?_⟩
  intro kept
  have hsettled := session_settled hrun (by omega) kept
  obtain ⟨log, hload, _⟩ := hsettled.loads
  have hbefore : ∃ before, ofFile journal.file = .ok before :=
    ⟨_, ofFile_eq_ok_iff.mpr ⟨log, hload, rfl⟩⟩
  rw [hreturns]
  constructor
  · exact fun h => h.2.2
  · exact fun h => ⟨hbefore, hsettled.fresh, h⟩

def creationWith (payload : Json) : Call := ⟨⟨0⟩, 0, .create, some payload⟩

theorem empty_array_returns :
    session .empty [] = .ok ([], blank) ∧ ([] : List Step).length + 1 < UInt64.size ∧
      Json.ofString "[]" = .ok (.array []) ∧ FloatFree (.array []) ∧
      ∃ after, blank.take .epoch .sound (creationWith (.array [])) = (.ok ⟨1, 1⟩, after) ∧
        after.Returns ⟨0⟩ (.array []) := by
  have hrun : session .empty [] = .ok ([], blank) := rfl
  have few : ([] : List Step).length + 1 < UInt64.size := by decide
  have parsed : Json.ofString "[]" = .ok (.array []) := by rfl
  have free : FloatFree (.array []) := .array fun _ hv => nomatch hv
  have hcurrent : blank.log.version (creationWith (.array [])).stack =
      (creationWith (.array [])).expected := rfl
  have answer := take_sound faithful_blank.sound hcurrent .epoch
  obtain ⟨_, hreturns⟩ := payload_returns_iff hrun few parsed free rfl answer
  refine ⟨hrun, few, parsed, free, _, answer, (hreturns fun _ hs => nomatch hs).mpr ?_⟩
  constructor
  · intro hnull
    cases hnull
  · simp [depth, depthItems, depthLimit]

/-- A payload of null is accepted and does not come back. -/
theorem null_lost : Json.ofString "null" = .ok .null ∧ FloatFree .null ∧
    ∃ after, blank.take .epoch .sound (creationWith .null) = (.ok ⟨1, 1⟩, after) ∧
      ¬after.Returns ⟨0⟩ .null := by
  have hcurrent : blank.log.version (creationWith .null).stack = (creationWith .null).expected :=
    rfl
  have answer := take_sound faithful_blank.sound hcurrent .epoch
  have hreturns := reachable_blank.returns_iff (by decide) .null .null rfl answer
  refine ⟨rfl, .null, _, answer, ?_⟩
  intro h
  exact (hreturns.mp h).2.2.1 rfl

end Journal

end StackJournal
