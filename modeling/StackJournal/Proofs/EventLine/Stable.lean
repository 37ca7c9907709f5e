import Mathlib.Data.List.DropRight
import StackJournal.Log
import StackJournal.Proofs.EventLine.Extension
import StackJournal.Proofs.EventLine.Reread
import StackJournal.Proofs.Json.Canonical
import StackJournal.Proofs.Text.Blank
import StackJournal.Proofs.Text.Encoding

/-! # Lines that stay as they are

Whatever form an event was read from, it is written in one form, which stands on one line and is read
back as the event. Of the events that a log appends this holds up to their payloads: null is not told
from no payload, and a payload that opens too many brackets makes a line that is refused.
-/
namespace StackJournal

open EventLine Json Text

namespace Json

theorem rereadPayload_of_ne_null {payload : Json} (h : payload ≠ .null) :
    payload.rereadPayload = plain ((payload.reread (depthLimit - 1)).map some) := by
  unfold rereadPayload
  split
  · exact absurd rfl h
  · rfl

theorem rereadPayload_eq_iff {payload : Json} (hsorted : payload.Sorted)
    (hfree : payload.FloatFree) :
    payload.rereadPayload = .ok (some payload) ↔ payload ≠ .null ∧ payload.depth < depthLimit := by
  by_cases hnull : payload = .null
  · subst hnull
    simp [rereadPayload]
  rw [rereadPayload_of_ne_null hnull, plain_eq_ok_iff, reread_eq hsorted hfree]
  have hlimit : depthLimit - 1 < payload.depth ↔ ¬payload.depth < depthLimit := by
    simp only [depthLimit]
    omega
  by_cases hdeep : depthLimit - 1 < payload.depth
  · have hfalse := hlimit.mp hdeep
    simp [hdeep, hfalse, Except.map]
  · have htrue : payload.depth < depthLimit := by
      simp only [depthLimit] at hdeep ⊢
      omega
    simp [hdeep, htrue, hnull, Except.map]

theorem rereadPayload_deep {payload : Json} (h : depthLimit < payload.depth + 1) :
    ∃ error, payload.rereadPayload = .error error := by
  have hnull : payload ≠ .null := by
    rintro rfl
    simp [depth, depthLimit] at h
  have hdeep : depthLimit - 1 < payload.depth := by
    simp only [depthLimit] at h ⊢
    omega
  obtain ⟨fault, hfault⟩ := reread_deep hdeep
  exact ⟨.malformed fault, by rw [rereadPayload_of_ne_null hnull, hfault]; rfl⟩

/-- A payload that can stand in the line of an event: not null, and with room for one bracket more. -/
structure Carried (payload : Json) : Prop where
  sorted : payload.Sorted
  room : payload.depth < depthLimit
  present : payload ≠ .null

end Json

namespace EventLine

theorem readNat_lt {s rest : List Char} {n : Nat} (h : readNat s = .ok (n, rest)) :
    n < UInt64.size := by
  unfold readNat at h
  split at h
  · cases h
  split at h
  · obtain ⟨⟨number, _⟩, _, h⟩ := bind_eq_ok_iff.mp h
    cases number with
    | natural n =>
      cases h
      exact n.toNat_lt_size
    | negative k => cases h
    | float x => cases h
  · exact absurd h (refuse_ne_ok _ _ _ _)

theorem readPayload_carried {s rest : List Char} {payload : Json}
    (h : readPayload s = .ok (some payload, rest)) : payload.Carried := by
  unfold readPayload at h
  simp only at h
  split at h
  · obtain ⟨_, _, h⟩ := bind_eq_ok_iff.mp h
    cases h
  next hfirst =>
  obtain ⟨⟨value, _⟩, hvalue, h⟩ := bind_eq_ok_iff.mp h
  cases h
  have hvalue := plain_eq_ok_iff.mp hvalue
  obtain ⟨hsorted, hdepth⟩ := sorted_of_readValue hvalue
  refine ⟨hsorted, ?_, ?_⟩
  · simp only [depthLimit] at hdepth ⊢
    omega
  · rintro rfl
    apply hfirst
    rw [← head?_of_readValue_null hvalue, skipSpace, skipSpace, List.dropWhile_idempotent]

structure Draft.Plausible (draft : Draft) : Prop where
  sequence : ∀ n ∈ draft.sequence, n < UInt64.size
  position : ∀ n ∈ draft.position, n < UInt64.size
  payload : ∀ value, draft.payload = some (some value) → value.Carried

theorem Draft.plausible_empty : Draft.empty.Plausible := by
  constructor <;> intro _ h <;> cases h

theorem Draft.Plausible.readField {draft after : Draft} (hdraft : draft.Plausible) {field : Field}
    {s rest : List Char} (h : draft.readField field s = .ok (after, rest)) : after.Plausible := by
  obtain ⟨hsequence, hposition, hpayload⟩ := hdraft
  cases field with
  | stack | kind | recordedAt =>
    obtain ⟨_, _, h⟩ := bind_eq_ok_iff.mp h
    cases h
    exact ⟨hsequence, hposition, hpayload⟩
  | sequence =>
    obtain ⟨⟨n, _⟩, hn, h⟩ := bind_eq_ok_iff.mp h
    cases h
    refine ⟨?_, hposition, hpayload⟩
    rintro m ⟨⟩
    exact readNat_lt hn
  | position =>
    obtain ⟨⟨n, _⟩, hn, h⟩ := bind_eq_ok_iff.mp h
    cases h
    refine ⟨hsequence, ?_, hpayload⟩
    rintro m ⟨⟩
    exact readNat_lt hn
  | payload =>
    obtain ⟨⟨payload, _⟩, hread, h⟩ := bind_eq_ok_iff.mp h
    cases h
    refine ⟨hsequence, hposition, ?_⟩
    rintro value ⟨⟩
    exact readPayload_carried hread

theorem Draft.Plausible.readMembers {fuel : Nat} {first : Bool} {draft after : Draft}
    (hdraft : draft.Plausible) {s rest : List Char}
    (h : readMembers fuel first draft s = .ok (after, rest)) : after.Plausible := by
  induction fuel generalizing first draft s with
  | zero => cases h
  | succ fuel ih =>
    rw [EventLine.readMembers] at h
    obtain ⟨onward, _, h⟩ := bind_eq_ok_iff.mp h
    cases onward with
    | closed _ =>
      cases h
      exact hdraft
    | item s =>
      obtain ⟨⟨key, _⟩, _, h⟩ := bind_eq_ok_iff.mp h
      simp only at h
      split at h
      · obtain ⟨_, _, h⟩ := bind_eq_ok_iff.mp h
        obtain ⟨_, _, h⟩ := bind_eq_ok_iff.mp h
        exact ih hdraft h
      · split at h
        · cases h
        obtain ⟨_, _, h⟩ := bind_eq_ok_iff.mp h
        obtain ⟨⟨filled, _⟩, hfield, h⟩ := bind_eq_ok_iff.mp h
        exact ih (hdraft.readField hfield) h

theorem Draft.Plausible.readPlaces {fields : List Field} {count : Nat} {draft after : Draft}
    (hdraft : draft.Plausible) {s rest : List Char}
    (h : readPlaces fields count draft s = .ok (after, rest)) : after.Plausible := by
  induction fields generalizing count draft s with
  | nil =>
    rw [EventLine.readPlaces] at h
    split at h
    · cases h
    split at h
    · cases h
      exact hdraft
    · cases h
  | cons field fields ih =>
    rw [EventLine.readPlaces] at h
    obtain ⟨onward, _, h⟩ := bind_eq_ok_iff.mp h
    cases onward with
    | closed _ => cases h
    | item s =>
      obtain ⟨⟨filled, _⟩, hfield, h⟩ := bind_eq_ok_iff.mp h
      exact ih (hdraft.readField hfield) h

end EventLine

structure Event.Plausible (event : Event) : Prop where
  sequence : event.sequence < UInt64.size
  position : event.position < UInt64.size
  payload : ∀ value, event.payload = some value → value.Carried

theorem EventLine.Draft.Plausible.complete {draft : Draft} (hdraft : draft.Plausible) {event : Event}
    (h : draft.complete = .ok event) : event.Plausible := by
  have hneed : ∀ {α : Type} {field : Field} {value : Option α} {a : α},
      need field value = .ok a → value = some a := by
    intro α field value a h
    cases value with
    | none => cases h
    | some b =>
      cases h
      rfl
  obtain ⟨stack, _, h⟩ := bind_eq_ok_iff.mp h
  obtain ⟨sequence, hsequence, h⟩ := bind_eq_ok_iff.mp h
  obtain ⟨kind, _, h⟩ := bind_eq_ok_iff.mp h
  obtain ⟨position, hposition, h⟩ := bind_eq_ok_iff.mp h
  obtain ⟨recordedAt, _, h⟩ := bind_eq_ok_iff.mp h
  cases h
  refine ⟨hdraft.sequence _ (hneed hsequence), hdraft.position _ (hneed hposition), ?_⟩
  intro value hvalue
  apply hdraft.payload value
  cases hpayload : draft.payload with
  | none =>
    simp [hpayload] at hvalue
  | some payload =>
    simp [hpayload] at hvalue
    rw [hvalue]

/-- Whatever its form, a line that was read holds an event that a line can hold. -/
theorem Event.plausible_of_ofLine {line : String} {event : Event} (h : ofLine line = .ok event) :
    event.Plausible := by
  obtain ⟨⟨event, _⟩, hread, h⟩ := bind_eq_ok_iff.mp h
  obtain ⟨_, _, h⟩ := bind_eq_ok_iff.mp h
  cases h
  unfold readEvent at hread
  split at hread
  · cases hread
  split at hread
  · obtain ⟨⟨draft, _⟩, hdraft, hread⟩ := bind_eq_ok_iff.mp hread
    obtain ⟨_, hevent, hread⟩ := bind_eq_ok_iff.mp hread
    cases hread
    exact (Draft.plausible_empty.readMembers hdraft).complete hevent
  split at hread
  · obtain ⟨⟨draft, _⟩, hdraft, hread⟩ := bind_eq_ok_iff.mp hread
    obtain ⟨_, hevent, hread⟩ := bind_eq_ok_iff.mp hread
    cases hread
    exact (Draft.plausible_empty.readPlaces hdraft).complete hevent
  · exact absurd hread (refuse_ne_ok _ _ _ _)

/-- The line of an event stands on one line, is not blank and is read as the event `read`. -/
structure Event.ReadsAs (event read : Event) : Prop where
  unbroken : ∀ b ∈ event.line.toUTF8.data.toList, 0x20 ≤ b.toNat
  visible : trim event.line.toList ≠ []
  read : ofLine event.line = .ok read

/-- The line of an event is read as the event, so that to write what was read changes nothing. -/
structure Event.Stable (event : Event) : Prop extends event.ReadsAs event where
  rewritten : (ofLine event.line).map Event.line = .ok event.line

theorem Event.readsAs_of_reread {event read : Event} (hsequence : event.sequence < UInt64.size)
    (hposition : event.position < UInt64.size) (h : event.reread = .ok read) :
    event.ReadsAs read := by
  have htext : event.line.toList = event.lineText := String.toList_ofList
  constructor
  · intro b hb
    rw [toList_toUTF8, htext] at hb
    exact le_of_mem_encode event.unbroken_lineText hb
  · have hbrace : '{' ∈ event.lineText := by simp [lineText]
    rw [htext]
    exact trim_ne_nil hbrace rfl
  · exact (ofLine_line hsequence hposition).trans h

theorem Event.Plausible.stable {event : Event} (h : event.Plausible)
    (free : ∀ value, event.payload = some value → value.FloatFree) : event.Stable := by
  have hreread : event.reread = .ok event := by
    unfold Event.reread
    cases hpayload : event.payload with
    | none => rfl
    | some value =>
      obtain ⟨hsorted, hroom, hpresent⟩ := h.payload value hpayload
      have hvalue := (rereadPayload_eq_iff hsorted (free value hpayload)).mpr ⟨hpresent, hroom⟩
      simp only [hvalue, Except.map, ← hpayload]
  have hreads := readsAs_of_reread h.sequence h.position hreread
  exact ⟨hreads, by rw [hreads.read]; rfl⟩

theorem Log.payload_of_nextEvent {log : Log} {now : Timestamp} {stack : Uuid} {expected : Nat}
    {kind : EventKind} {payload : Option Json} {event : Event}
    (h : log.nextEvent now stack expected kind payload = .ok event) : event.payload = payload := by
  unfold nextEvent at h
  simp only at h
  split at h
  · cases h
    rfl
  · cases h

namespace Event

/-- An event that was read, in whatever form, has a stable line if its payload has no floats. So has
an event that a log appends, if it has no payload, or one without floats that is not null and opens
at most as many brackets as a document may, the event's own included. Null is read as no payload,
and what opens more brackets is refused. -/
theorem line_stable :
    (∀ {text : String} {event : Event}, ofLine text = .ok event →
      (∀ value, event.payload = some value → value.FloatFree) → event.Stable) ∧
    ∀ {log : Log} {now : Timestamp} {stack : Uuid} {expected : Nat} {kind : EventKind}
      {payload : Option Json} {event : Event},
      log.nextEvent now stack expected kind payload = .ok event →
      event.sequence < UInt64.size → event.position < UInt64.size →
      (payload = none → event.Stable) ∧
      ∀ value, payload = some value →
        (value ≠ .null → value.Sorted → value.FloatFree → value.depth + 1 ≤ depthLimit →
          event.Stable) ∧
        (value = .null → event.ReadsAs { event with payload := none }) ∧
        (depthLimit < value.depth + 1 → ∃ error, ofLine event.line = .error error) := by
  refine ⟨fun hread => (plausible_of_ofLine hread).stable, ?_⟩
  intro log now stack expected kind payload event hnext hsequence hposition
  have hcarries := Log.payload_of_nextEvent hnext
  refine ⟨?_, ?_⟩
  · intro hnone
    rw [hnone] at hcarries
    have hplausible : event.Plausible := ⟨hsequence, hposition, by simp [hcarries]⟩
    exact hplausible.stable (by simp [hcarries])
  intro value hvalue
  rw [hvalue] at hcarries
  refine ⟨?_, ?_, ?_⟩
  · intro hpresent hsorted hfree hroom
    have hplausible : event.Plausible := by
      refine ⟨hsequence, hposition, ?_⟩
      rw [hcarries]
      rintro _ ⟨⟩
      exact ⟨hsorted, hroom, hpresent⟩
    refine hplausible.stable ?_
    rw [hcarries]
    rintro _ ⟨⟩
    exact hfree
  · rintro rfl
    apply readsAs_of_reread hsequence hposition
    simp only [reread, hcarries]
    rfl
  · intro hdeep
    obtain ⟨error, herror⟩ := rereadPayload_deep hdeep
    refine ⟨error, ?_⟩
    rw [ofLine_line hsequence hposition]
    simp only [reread, hcarries, herror]
    rfl

/-- A line with its keys in another order, a key that no event has, an identity with its scheme, and a
leap second ahead of universal time in a year of five digits. -/
def oddLine : String :=
  "\x7b\"recordedAt\":\"+10000-01-01 0:0:60.0000000001+01:00\",\"note\":[1.5],\"payload\":\x7b\"b\":-2," ++
  "\"a\":[]\x7d,\"position\":4,\"kind\":\"zero\",\"sequence\":3," ++
  "\"aggregateId\":\"urn:uuid:00000000-0000-0000-0000-00000000000A\"\x7d"

def oddPayload : Json := .object [("a", .array []), ("b", .number (.negative 1))]

def oddEvent : Event :=
  ⟨⟨10⟩, 3, .kapp .zero, some oddPayload, 4, ⟨9999, 12, 31⟩, ⟨23, 0, 60, 0⟩, by decide, by decide⟩

theorem ofLine_oddLine : ofLine oddLine = .ok oddEvent := by
  have hread : (ofLine oddLine).toOption = some oddEvent := by decide +kernel
  cases hline : ofLine oddLine with
  | error error =>
    rw [hline] at hread
    cases hread
  | ok event =>
    rw [hline] at hread
    exact congrArg Except.ok (Option.some.inj hread)

theorem sorted_oddPayload : oddPayload.Sorted := by
  refine .object ?_ ?_
  · simp only [List.pairwise_cons, List.mem_singleton, forall_eq, List.not_mem_nil, false_imp_iff,
      implies_true, List.Pairwise.nil, and_true]
    decide
  · simp only [List.forall_mem_cons]
    exact ⟨.array (fun _ hv => nomatch hv), .number _, fun _ hf => nomatch hf⟩

theorem floatFree_oddPayload : oddPayload.FloatFree := by
  refine .object ?_
  simp only [List.forall_mem_cons]
  exact ⟨.array (fun _ hv => nomatch hv), .negative _, fun _ hf => nomatch hf⟩

def creationOf (payload : Json) : Event := ⟨⟨0⟩, 1, .create, some payload, 1, .epoch⟩

theorem odd_line_stable : ofLine oddLine = .ok oddEvent ∧ oddEvent.Stable ∧
    oddPayload ≠ .null ∧ oddPayload.Sorted ∧ oddPayload.FloatFree ∧
    oddPayload.depth + 1 ≤ depthLimit ∧
    (∀ payload, Log.empty.nextEvent .epoch ⟨0⟩ 0 .create (some payload) =
      .ok (creationOf payload)) ∧
    (creationOf oddPayload).Stable ∧
    (creationOf .null).ReadsAs { creationOf .null with payload := none } := by
  have hnext : ∀ payload, Log.empty.nextEvent .epoch ⟨0⟩ 0 .create (some payload) =
      .ok (creationOf payload) := fun _ => rfl
  have hpresent : oddPayload ≠ .null := by
    intro hnull
    cases hnull
  have hroom : oddPayload.depth + 1 ≤ depthLimit := by decide
  have hread : oddEvent.Stable := by
    refine line_stable.1 ofLine_oddLine ?_
    rintro _ ⟨⟩
    exact floatFree_oddPayload
  obtain ⟨_, hcreated⟩ := line_stable.2 (hnext oddPayload) (by decide) (by decide)
  obtain ⟨_, hnull⟩ := line_stable.2 (hnext .null) (by decide) (by decide)
  exact ⟨ofLine_oddLine, hread, hpresent, sorted_oddPayload, floatFree_oddPayload, hroom, hnext,
    (hcreated oddPayload rfl).1 hpresent sorted_oddPayload floatFree_oddPayload hroom,
    (hnull .null rfl).2.1 rfl⟩

end Event

end StackJournal
